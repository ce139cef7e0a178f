import LuaSyntax.Proofs.Agreement

/-! Dropped statements and diagnostics, one for one. A session appends a diagnostic wherever it
finds something wrong, and its loops go by the number of diagnostics alone; still every statement
that is lost has been reported, and reported once. -/

namespace LuaSyntax

namespace Session

variable {α : Type} {s : Session} {m : Reading α}

/-- From `s` on the reading gives a value and reports nothing, or gives none and reports one
problem. -/
def ReportsOnce (m : Reading α) (s : Session) : Prop :=
  ∃ r q, m s = some (r, q) ∧
    (r.isSome = true ∧ q.parser.diagnostics = s.parser.diagnostics ∨
      r.isNone = true ∧ ∃ d, q.parser.diagnostics = s.parser.diagnostics ++ [d])

/-- What is reported beyond one problem for a failure is one problem for each call that was made on
the way and dropped its statement. -/
theorem Follows.exists_reports {p : Parser} {arrives : Parser → List Token → Prop} {x : Traced α}
    (h : Follows p arrives m s x) :
    ∃ r q new log, m s = some (r, q) ∧ q.calls = s.calls ++ new ∧
      q.parser.diagnostics = s.parser.diagnostics ++ log ∧
      log.length = new.countP Call.isDropped + if r.isNone then 1 else 0 := by
  cases h with
  | done apply outcome place advance =>
    obtain ⟨new, hcalls, -, hdropped⟩ := advance.calls
    exact ⟨_, _, new, _, apply, hcalls, advance.reports, hdropped.symm⟩
  | failed apply outcome place advance =>
    obtain ⟨new, hcalls, -, hdropped⟩ := advance.calls
    refine ⟨_, _, new, _, apply, hcalls, advance.reports, ?_⟩
    rw [List.length_append, hdropped]
    rfl

theorem Follows.reportsOnce {p : Parser} {arrives : Parser → List Token → Prop} {x : Traced α}
    (h : Follows p arrives m s x) (hx : x.run.log = []) : ReportsOnce m s := by
  cases h with
  | done apply outcome place advance =>
    have hreports := advance.reports
    rw [hx, List.append_nil] at hreports
    exact ⟨_, _, apply, .inl ⟨rfl, hreports⟩⟩
  | failed apply outcome place advance =>
    have hreports := advance.reports
    rw [hx, List.nil_append] at hreports
    exact ⟨_, _, apply, .inr ⟨rfl, _, hreports⟩⟩

theorem reportsOnce_settled {read : Except Problem α} (h : m s = s.settled read) :
    ReportsOnce m s := by
  cases read with
  | ok a => exact ⟨_, _, h, .inl ⟨rfl, rfl⟩⟩
  | error problem => exact ⟨_, _, h, .inr ⟨rfl, _, rfl⟩⟩

section

variable {n : Nat} (hn : s.parser.tokens.length < n)
include hn

theorem reportsOnce_expr (level : Precedence) : ReportsOnce (expr n level) s :=
  (readsExpr_expr n level (Parser.Covers.refl s.parser).stands hn).reportsOnce rfl

theorem reportsOnce_unary : ReportsOnce (unary (expr n)) s :=
  (follows_unary (readsExpr_expr n) rfl s.stands_next (length_tail_lt hn)).reportsOnce rfl

theorem reportsOnce_grouped : ReportsOnce (grouped (expr n)) s := by
  refine (follows_grouped (readsExpr_expr n) s.stands_next (length_tail_lt hn)).reportsOnce ?_
  rw [run_grouped]
  rfl

theorem reportsOnce_binary (left : Expr Token) : ReportsOnce (binary (expr n) left) s :=
  (follows_binary (readsExpr_expr n) left rfl s.stands_next (length_tail_lt hn)).reportsOnce rfl

theorem reportsOnce_arguments : ReportsOnce (arguments (expr n) n) s := by
  refine (follows_arguments_of_lt hn).reportsOnce ?_
  rw [Traced.run_ofArguments]
  rfl

theorem reportsOnce_call (callee : Expr Token) : ReportsOnce (call (expr n) n callee) s := by
  by_cases hname : ∃ c, callee = .name c
  · obtain ⟨c, rfl⟩ := hname
    have hcall := (follows_arguments_of_lt hn).map (Expr.call s.parser.current c)
    refine (Follows.current hcall).reportsOnce ?_
    rw [Traced.run_map, Traced.run_ofArguments]
    rfl
  · have happly : call (expr n) n callee s = s.settled (.error (Parse.notCallable callee)) :=
      call_of_not_name (not_exists.1 hname)
    exact reportsOnce_settled happly

theorem stmt_reports (hsep : ¬s.parser.current.kind.isSeparator = true) :
    ∃ r q new log, stmt n s = some (r, q) ∧ q.calls = s.calls ++ new ∧
      q.parser.diagnostics = s.parser.diagnostics ++ log ∧
      log.length = new.countP Call.isDropped + if r.isNone then 1 else 0 := by
  cases htokens : s.parser.tokens with
  | nil => exact (follows_stmt_of_nil hn htokens).exists_reports
  | cons t us =>
    have hstands := (Parser.Covers.refl s.parser).stands
    rw [htokens] at hstands hn
    rw [hstands.current_eq] at hsep
    exact ((readsStmt_stmt n).statement hstands hsep hn).exists_reports

end

end Session

/-- Every dropped statement is reported exactly once. In any state a reading of an expression, of a
part of one or of arguments reports one problem if it fails and none otherwise. At a separator there
is no statement to read and nothing changes. A statement reports as many problems as calls for
statements in its blocks, at any depth, lost theirs, and one more if it is lost itself. So a source
has as many diagnostics as statements were called for and lost. -/
theorem dropped_reported_once (s : Session) (level : Precedence) (left callee : Expr Token)
    (source : String) (file : Option String) :
    (∀ n, s.parser.tokens.length < n →
      Session.ReportsOnce (Session.expr n level) s ∧
      (Session.ReportsOnce Session.name s ∧ Session.ReportsOnce Session.numeral s ∧
        Session.ReportsOnce Session.boolean s ∧ Session.ReportsOnce Session.string s ∧
        Session.ReportsOnce Session.nil s) ∧
      Session.ReportsOnce (Session.unary (Session.expr n)) s ∧
      Session.ReportsOnce (Session.grouped (Session.expr n)) s ∧
      Session.ReportsOnce (Session.binary (Session.expr n) left) s ∧
      Session.ReportsOnce (Session.call (Session.expr n) n callee) s ∧
      Session.ReportsOnce (Session.arguments (Session.expr n) n) s ∧
      if s.parser.current.kind.isSeparator then Session.stmt n s = some (none, s)
      else ∃ r q new log, Session.stmt n s = some (r, q) ∧ q.calls = s.calls ++ new ∧
        q.parser.diagnostics = s.parser.diagnostics ++ log ∧
        log.length = new.countP Call.isDropped + if r.isNone then 1 else 0) ∧
    ∀ n, (scan source file).tokens.length < n →
      ∃ q, Session.program n (.ofText source file) = some (some (parse source file).program, q) ∧
        q.parser.diagnostics = (parse source file).diagnostics ∧
        q.calls.map Call.place =
          (Visit.program (scan source file).tokens).attempts (scan source file).stop ∧
        q.calls.countP Call.isDropped = (parse source file).diagnostics.length := by
  constructor
  · intro n hn
    refine ⟨Session.reportsOnce_expr hn level, ?_, Session.reportsOnce_unary hn,
      Session.reportsOnce_grouped hn, Session.reportsOnce_binary hn left,
      Session.reportsOnce_call hn callee, Session.reportsOnce_arguments hn, ?_⟩
    · exact ⟨Session.reportsOnce_settled s.name_apply, Session.reportsOnce_settled s.numeral_apply,
        Session.reportsOnce_settled s.boolean_apply, Session.reportsOnce_settled s.string_apply,
        Session.reportsOnce_settled s.nil_apply⟩
    · split
      · next hsep => exact (Session.readsStmt_stmt n).separator hsep hn
      · next hsep => exact Session.stmt_reports hn hsep
  · intro n hn
    have hlength : (Session.ofText source file).parser.tokens.length < n := hn
    obtain ⟨q, hprogram, hadvance⟩ := Session.program_apply hlength
    obtain ⟨new, hcalls, hplaces, hdropped⟩ := hadvance.calls
    obtain rfl : q.calls = new := hcalls
    exact ⟨q, hprogram, hadvance.reports, hplaces, hdropped⟩

/-- The `elseif` is part of the conditional and is not called for. -/
theorem dropped_reported_once_elseif :
    let text := "if x then\n y = =\nelseif z then\n )\nend\nlocal"
    (scan text none).tokens.length < 40 ∧
      Session.ReportsOnce (Session.expr 40 .lowest) (.ofText text none) ∧
      ∃ q, Session.program 40 (.ofText text none) = some (some (parse text none).program, q) ∧
        q.calls.countP Call.isDropped = 3 := by
  intro text
  have hlength : (scan text none).tokens.length < 40 := by decide +kernel
  have hcount : (parse text none).diagnostics.length = 3 := by decide +kernel
  have e : Expr Token := .nil (.eof ⟨1, 1, "shell"⟩)
  obtain ⟨hstate, hsource⟩ :=
    dropped_reported_once (.ofText text none) .lowest e e text none
  obtain ⟨q, hprogram, -, -, hdropped⟩ := hsource 40 hlength
  exact ⟨hlength, (hstate 40 hlength).1, q, hprogram, hdropped.trans hcount⟩

end LuaSyntax
