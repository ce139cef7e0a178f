import LuaSyntax.Proofs.Following

/-! Sessions read as the readers do, from single tokens up to whole programs. -/

namespace LuaSyntax.Session

variable {p : Parser} {s : Session}

/-! Single tokens. -/

def settled {α : Type} (s : Session) : Except Problem α → Option (Option α × Session)
  | .ok a => some (some a, s)
  | .error problem => some (none, { s with parser := s.parser.reportCurrent problem })

theorem name_apply (s : Session) : name s = s.settled (.ok (.ofName s.parser.current)) := rfl

theorem string_apply (s : Session) : string s = s.settled (.ok (.ofString s.parser.current)) := rfl

theorem nil_apply (s : Session) : nil s = s.settled (.ok (.nil s.parser.current)) := rfl

theorem numeral_apply (s : Session) : numeral s = s.settled (Expr.ofNumeral s.parser.current) := by
  rw [numeral, current_bind, Expr.ofNumeral]
  cases Number.ofText? s.parser.current.value.toList with
  | none => rfl
  | some x => cases x <;> rfl

theorem boolean_apply (s : Session) : boolean s = s.settled (Expr.ofBoolean s.parser.current) := by
  rw [boolean, current_bind, Expr.ofBoolean]
  split
  · rfl
  split <;> rfl

theorem Follows.literal {m : Reading (Expr Token)} {t : Token} {us : List Token}
    {read : Except Problem (Expr Token)} (happly : m s = s.settled read)
    (h : p.Stands s.parser (t :: us)) (ht : t.kind.isPlain = true) :
    Follows p p.Rests m s (Traced.quiet (Attempt.ofToken t us read).outcome) := by
  cases read with
  | ok e => exact .done happly rfl (h.rests ht) (advances_of_eq rfl rfl)
  | error problem =>
    rw [settled, Parser.reportCurrent, h.current_eq] at happly
    exact .report happly h

/-! Expressions. -/

/-- The reading `inner` reads expressions as the reader does while fewer than `k` tokens are
left. -/
def ReadsExpr (k : Nat) (inner : Precedence → Reading (Expr Token)) : Prop :=
  ∀ {p s ts} level, p.Stands s.parser ts → ts.length < k →
    Follows p p.Rests (inner level) s (Traced.expr p.stop level ts)

section

variable {k n : Nat} {inner : Precedence → Reading (Expr Token)} (hinner : ReadsExpr k inner)
include hinner

theorem follows_unary {t : Token} {us : List Token} (hcurrent : s.parser.current = t)
    (h : p.Stands s.parser.next us) (hk : us.length < k) :
    Follows p p.Rests (unary inner) s ((Traced.expr p.stop .unary us).map (.unary t t.value)) := by
  refine .current (.next ?_)
  rw [hcurrent]
  exact (hinner .unary h hk).map _

theorem follows_grouped {us : List Token} (h : p.Stands s.parser.next us) (hk : us.length < k) :
    Follows p p.Rests (grouped inner) s
      ((Traced.expr p.stop .lowest us).bind fun e vs =>
        (Traced.required p.stop .rightParen Parse.unclosedGroup vs).map fun _ => e) := by
  refine .next ((hinner .lowest h hk).bind fun e vs q _ hq => ?_)
  exact (Follows.expectPeek hq rfl _).map _

theorem follows_operand {t : Token} {us : List Token} (h : p.Stands s.parser (t :: us))
    (hk : us.length < k) :
    Follows p p.Rests (operand inner) s (Traced.ofOperand p.stop t us) := by
  have hcurrent := h.current_eq
  have hliteral {m : Reading (Expr Token)} {read : Except Problem (Expr Token)}
      (htoken : Expr.ofToken? t = some read) (happly : m s = s.settled read)
      (ht : t.kind.isPlain = true) : Follows p p.Rests m s (Traced.ofOperand p.stop t us) := by
    rw [Traced.ofOperand, htoken]
    exact .literal happly h ht
  have hunary (ht : t.kind.isUnary = true) :
      Follows p p.Rests (unary inner) s (Traced.ofOperand p.stop t us) := by
    rw [Traced.ofOperand, Parse.ofToken?_of_isUnary ht, if_pos ht]
    exact follows_unary hinner hcurrent h.next hk
  refine .current ?_
  rw [hcurrent]
  split
  · next ht => exact hliteral (by rw [Expr.ofToken?, ht]) (hcurrent ▸ name_apply s) (ht ▸ rfl)
  · next ht => exact hliteral (by rw [Expr.ofToken?, ht]) (hcurrent ▸ numeral_apply s) (ht ▸ rfl)
  · next ht => exact hliteral (by rw [Expr.ofToken?, ht]) (hcurrent ▸ boolean_apply s) (ht ▸ rfl)
  · next ht => exact hliteral (by rw [Expr.ofToken?, ht]) (hcurrent ▸ boolean_apply s) (ht ▸ rfl)
  · next ht => exact hliteral (by rw [Expr.ofToken?, ht]) (hcurrent ▸ string_apply s) (ht ▸ rfl)
  · next ht => exact hliteral (by rw [Expr.ofToken?, ht]) (hcurrent ▸ nil_apply s) (ht ▸ rfl)
  · next ht => exact hunary (ht ▸ rfl)
  · next ht => exact hunary (ht ▸ rfl)
  · next ht => exact hunary (ht ▸ rfl)
  · next ht => exact hunary (ht ▸ rfl)
  · next ht =>
    rw [Traced.ofOperand, Parse.ofToken?_of_leftParen ht, ht]
    exact follows_grouped hinner h.next hk
  · next =>
    have hnone : Traced.ofOperand p.stop t us =
        Traced.quiet (.failed ⟨Parse.noExpression t, t.start⟩ (.on (t :: us))) := by
      rw [Traced.ofOperand, Expr.ofToken?]
      cases hk : t.kind <;> simp_all [Kind.isUnary]
    rw [hnone]
    refine .report ?_ h
    rw [← hcurrent]
    rfl

omit hinner in
theorem operand_of_nil (h : p.Covers s.parser) (htokens : s.parser.tokens = []) :
    operand inner s = some (none, { s with
      parser := s.parser.report (Parse.noExpression (.eof p.stop)) p.stop }) := by
  have hcurrent := h.current_of_nil htokens
  rw [operand, current_bind, hcurrent]
  change some (none, { s with parser := s.parser.reportCurrent (Parse.noExpression _) }) = _
  rw [Parser.reportCurrent, hcurrent]
  rfl

theorem follows_moreArguments {rest : List Token} (h : p.Rests s.parser rest)
    (hk : rest.length ≤ k) (hn : rest.length < n) :
    Follows p p.Rests (moreArguments inner n) s (Traced.argument p.stop rest) := by
  induction n generalizing s rest with
  | zero => exact absurd hn (Nat.not_lt_zero _)
  | succ n ih =>
    refine Follows.call ?_ (Traced.run_ofArgument p.stop rest) rfl rfl
    refine .peek ?_
    rw [h.peek_eq]
    cases rest with
    | nil => exact (Follows.expectPeek h rfl _).map _
    | cons t vs =>
      rw [List.headD_cons, Traced.ofArgument]
      rw [List.length_cons] at hk hn
      split
      · refine .next (.next ?_)
        refine (hinner .lowest h.toEnds.next.next hk).bind fun e rest q he hq => ?_
        have hle := (Attempt.suffix_of_outcome he).length_le
        exact (ih hq (by omega) (by omega)).map _
      · exact (Follows.expectPeek h rfl _).map _

theorem follows_arguments {us : List Token} (h : p.Covers s.parser)
    (htail : s.parser.tokens.tail = us) (hk : us.length < k) (hn : us.length ≤ n) :
    Follows p p.Rests (arguments inner n) s (Traced.ofArguments p.stop us) := by
  have hpeek : s.parser.peek = us.headD (.eof p.stop) := by rw [Parser.peek, htail, h.stop_eq]
  have hnext : p.Stands s.parser.next us := ⟨h.next, htail⟩
  refine .peek (.next ?_)
  rw [hpeek]
  cases us with
  | nil => exact (hinner .lowest hnext hk).map_of_failed (Parse.outcome_expr_nil p.stop _) _
  | cons t vs =>
    rw [List.headD_cons, Traced.ofArguments]
    split
    · next ht => exact .pure (hnext.rests (ht ▸ rfl))
    · refine (hinner .lowest hnext hk).bind fun e rest q he hq => ?_
      have hlt := Visit.length_rest_expr_lt p.stop he
      exact (follows_moreArguments hinner hq (by omega) (by omega)).map _

theorem follows_call {op : Token} {us : List Token} (callee : Expr Token)
    (h : p.Stands s.parser (op :: us)) (hk : us.length < k) (hn : us.length ≤ n) :
    Follows p p.Rests (call inner n callee) s (Traced.ofCall p.stop callee op us) := by
  have hcurrent := h.current_eq
  refine .current ?_
  cases callee with
  | name callee =>
    rw [hcurrent]
    exact (follows_arguments hinner h.toCovers (congrArg List.tail h.tokens_eq) hk hn).map _
  | _ =>
    rw [Traced.ofCall, ← hcurrent]
    · exact .report rfl (hcurrent ▸ h)
    · simp

theorem follows_binary {op : Token} {us : List Token} (left : Expr Token)
    (hcurrent : s.parser.current = op) (h : p.Stands s.parser.next us) (hk : us.length < k) :
    Follows p p.Rests (binary inner left) s
      ((Traced.expr p.stop op.kind.operandLevel us).map (.binary op op.value left)) := by
  refine .current (.next ?_)
  rw [hcurrent]
  exact (hinner op.kind.operandLevel h hk).map _

theorem follows_extendOnce {op : Token} {us : List Token} (left : Expr Token)
    (h : p.Stands s.parser (op :: us)) (hk : us.length < k) (hn : us.length ≤ n) :
    Follows p p.Rests (extendOnce inner n left) s (Traced.ofExtendOnce p.stop left op us) := by
  refine .current ?_
  rw [h.current_eq, Traced.ofExtendOnce]
  split
  · exact follows_call hinner left h hk hn
  · exact follows_binary hinner left h.current_eq h.next hk

theorem follows_extend {rest : List Token} (level : Precedence) (left : Expr Token)
    (h : p.Rests s.parser rest) (hk : rest.length ≤ k) (hn : rest.length < n) :
    Follows p p.Rests (extend inner level n left) s
      (Traced.extension p.stop level left rest) := by
  induction n generalizing s left rest with
  | zero => exact absurd hn (Nat.not_lt_zero _)
  | succ n ih =>
    refine Follows.call ?_ (Traced.run_ofExtension p.stop level left rest) rfl rfl
    refine .peek ?_
    rw [h.peek_eq]
    cases rest with
    | nil =>
      have hlevel : ¬level < .of (Token.eof p.stop).kind := Nat.not_lt_zero level.rank
      rw [List.headD_nil, if_neg hlevel]
      exact .pure h
    | cons op us =>
      rw [List.headD_cons, Traced.ofExtension]
      rw [List.length_cons] at hk hn
      split
      · refine .next ?_
        refine (follows_extendOnce hinner left h.toEnds.next hk (by omega)).bind
          fun e rest q he hq => ?_
        rw [Traced.run_ofExtendOnce] at he
        have hle := (Attempt.suffix_of_outcome he).length_le
        exact ih e hq (by omega) (by omega)
      · exact .pure h

end

theorem readsExpr_expr (n : Nat) : ReadsExpr n (expr n) := by
  induction n with
  | zero => exact fun _ _ hn => absurd hn (Nat.not_lt_zero _)
  | succ n ih =>
    intro p s ts level h hn
    refine Follows.call ?_ (Traced.run_ofExpr p.stop level ts) rfl rfl
    cases ts with
    | nil =>
      rw [Traced.ofExpr, Parse.outcome_expr_nil]
      exact .report (bind_of_none (operand_of_nil h.toCovers h.tokens_eq)) h
    | cons t us =>
      rw [List.length_cons] at hn
      refine (follows_operand ih h (by omega)).bind fun left rest q hleft hq => ?_
      rw [Traced.run_ofOperand] at hleft
      have hle := (Attempt.suffix_of_outcome hleft).length_le
      exact follows_extend ih level left hq (by omega) (by omega)

/-! Statements that hold no others, and headers. -/

section

variable {n : Nat}

theorem follows_exprStmt {ts : List Token} (h : p.Stands s.parser ts) (hn : ts.length < n) :
    Follows p p.Rests (exprStmt n) s
      ((Traced.expr p.stop .lowest ts).map (.expression s.parser.current)) :=
  .current ((readsExpr_expr n .lowest h hn).map _)

theorem follows_assignment {us : List Token} (t : Token) (name : Name Token) (isLocal : Bool)
    (h : p.Stands s.parser.next us) (hn : us.length < n) :
    Follows p p.Rests (assignment n t name isLocal) s
      (Traced.ofAssignment p.stop t name isLocal us) :=
  .next ((readsExpr_expr n .lowest h hn).map _)

theorem follows_nameStmt {t : Token} {us : List Token} (h : p.Stands s.parser (t :: us))
    (hn : us.length + 1 < n) :
    Follows p p.Rests (nameStmt n) s (Traced.ofNameStmt p.stop t us) := by
  have hcurrent := h.current_eq
  have hpeek : s.parser.peek = us.headD (.eof p.stop) := by
    rw [Parser.peek, h.tokens_eq, h.stop_eq, List.tail_cons]
  have hexpr := follows_exprStmt h hn
  rw [hcurrent] at hexpr
  refine .peek ?_
  rw [hpeek]
  cases us with
  | nil => exact hexpr
  | cons u vs =>
    rw [List.length_cons] at hn
    rw [List.headD_cons, Traced.ofNameStmt]
    split
    · refine .current (.next ?_)
      rw [hcurrent]
      exact (follows_assignment t (.ofToken t) false h.next.next (by omega)).map _
    split
    · have htail : s.parser.next.tokens.tail = vs := h.next.next.tokens_eq
      refine .current (.next (.current ?_))
      rw [hcurrent, h.next.current_eq]
      exact (follows_arguments (readsExpr_expr n) h.next.toCovers htail (by omega) (by omega)).map _
    · exact hexpr

theorem follows_localStmt {t : Token} {us : List Token} (h : p.Stands s.parser (t :: us))
    (ht : t.kind.isPlain = true) (hn : us.length < n) :
    Follows p p.Rests (localStmt n) s (Traced.ofLocalStmt p.stop t us) := by
  refine .current ?_
  rw [h.current_eq]
  refine (Follows.expectPeek (h.rests ht) rfl _).bind fun name vs q hname hq => ?_
  obtain ⟨rfl, -⟩ := outcome_expect_eq_done.1 hname
  refine (Follows.expectPeek hq rfl _).bind fun eq ws r heq hr => ?_
  obtain ⟨rfl, -⟩ := outcome_expect_eq_done.1 heq
  simp only [List.length_cons] at hn
  exact (follows_assignment t (.ofToken name) true hr.toEnds.next (by omega)).map _

theorem follows_returnStmt {t : Token} {us : List Token} (h : p.Stands s.parser (t :: us))
    (ht : t.kind.isPlain = true) (hn : us.length < n) :
    Follows p p.Rests (returnStmt n) s (Traced.ofReturnStmt p.stop t us) := by
  refine .current (.endsNext ?_)
  rw [h.current_eq, (h.rests ht).tail_eq, Traced.ofReturnStmt]
  split
  · exact .pure (h.rests ht)
  refine .next ((readsExpr_expr n .lowest h.next hn).bind fun value vs q _ hq => .endsNext ?_)
  rw [hq.tail_eq, Parse.expectEnd]
  split
  · exact .pure hq
  · refine .peek (.report ?_ hq)
    rw [hq.peek_eq]
    rfl

theorem follows_moreParameters {rest : List Token} (h : p.Rests s.parser rest)
    (hn : rest.length < n) :
    Follows p p.Rests (moreParameters n) s (Traced.parameter p.stop rest) := by
  induction n generalizing s rest with
  | zero => exact absurd hn (Nat.not_lt_zero _)
  | succ n ih =>
    refine Follows.call ?_ (Traced.run_ofParameter p.stop rest) rfl rfl
    refine .peek ?_
    rw [h.peek_eq]
    cases rest with
    | nil => exact (Follows.expectPeek h rfl _).map _
    | cons t vs =>
      rw [List.headD_cons, Traced.ofParameter]
      split
      · next ht =>
        have hcomma : p.Rests s.parser.next vs := h.toEnds.next.rests (ht ▸ rfl)
        refine .next ((Follows.expectPeek hcomma rfl _).bind fun name ws q hname hq => ?_)
        obtain ⟨rfl, -⟩ := outcome_expect_eq_done.1 hname
        simp only [List.length_cons] at hn
        exact (ih hq (by omega)).map _
      · exact (Follows.expectPeek h rfl _).map _

theorem follows_parameters {us : List Token} (h : p.Rests s.parser us) (hn : us.length ≤ n) :
    Follows p p.Rests (parameters n) s (Traced.ofParameters p.stop us) := by
  refine .peek ?_
  rw [h.peek_eq]
  cases us with
  | nil =>
    exact (Follows.expectPeek h rfl _).map_of_failed (outcome_expect_nil p.stop .identifier _) _
  | cons t vs =>
    rw [List.headD_cons, Traced.ofParameters]
    split
    · next ht => exact .next (.pure (h.toEnds.next.rests (ht ▸ rfl)))
    · refine (Follows.expectPeek h rfl _).bind fun name ws q hname hq => ?_
      obtain ⟨heq, -⟩ := outcome_expect_eq_done.1 hname
      cases heq
      exact (follows_moreParameters hq hn).map _

theorem follows_functionHeader {us : List Token} (h : p.Rests s.parser us) (hn : us.length ≤ n) :
    Follows p p.Rests (functionHeader n) s (Traced.ofFunctionHeader p.stop us) := by
  refine (Follows.expectPeek h rfl _).bind fun name vs q hname hq => ?_
  obtain ⟨rfl, -⟩ := outcome_expect_eq_done.1 hname
  refine (Follows.expectPeek hq rfl _).bind fun paren ws r hparen hr => ?_
  obtain ⟨rfl, -⟩ := outcome_expect_eq_done.1 hparen
  simp only [List.length_cons] at hn
  exact (follows_parameters hr (by omega)).map _

theorem follows_step {us : List Token} (h : p.Rests s.parser us) (hn : us.length ≤ n) :
    Follows p p.Rests (step n) s (Traced.ofStep p.stop us) := by
  refine .peek ?_
  rw [h.peek_eq]
  cases us with
  | nil => exact .pure h
  | cons t vs =>
    rw [List.headD_cons, Traced.ofStep]
    split
    · exact .next (.next (readsExpr_expr n .lowest h.toEnds.next.next hn))
    · exact .pure h

theorem follows_forHeader {us : List Token} (h : p.Rests s.parser us) (hn : us.length ≤ n) :
    Follows p p.Rests (forHeader n) s (Traced.ofForHeader p.stop us) := by
  refine (Follows.expectPeek h rfl _).bind fun name vs q hname hq => ?_
  obtain ⟨rfl, -⟩ := outcome_expect_eq_done.1 hname
  refine (Follows.expectPeek hq rfl _).bind fun eq vs r heq hr => ?_
  obtain ⟨rfl, -⟩ := outcome_expect_eq_done.1 heq
  simp only [List.length_cons] at hn
  refine (follows_assignment name (.ofToken name) false hr.toEnds.next (by omega)).bind
    fun init vs q hinit hq => ?_
  rw [Traced.run_ofAssignment] at hinit
  have hinit := (Attempt.suffix_of_outcome hinit).length_le
  refine (Follows.expectPeek hq rfl _).bind fun comma vs r hcomma hr => ?_
  obtain ⟨rfl, -⟩ := outcome_expect_eq_done.1 hcomma
  rw [List.length_cons] at hinit
  refine .next ((readsExpr_expr n .lowest hr.toEnds.next (by omega)).bind
    fun limit vs q hlimit hq => ?_)
  have hlimit := (Attempt.suffix_of_outcome hlimit).length_le
  refine (follows_step hq (by omega)).bind fun step vs r hstep hr => ?_
  exact (Follows.expectPeek hr rfl _).map _

end

/-! Calls for statements. -/

structure ReadsStmt (k : Nat) (inner : Reading (Stmt Token)) : Prop where
  separator : ∀ {s}, s.parser.current.kind.isSeparator = true → s.parser.tokens.length < k →
    inner s = some (none, s)
  statement : ∀ {p s t us}, p.Stands s.parser (t :: us) → ¬t.kind.isSeparator = true →
    us.length + 1 < k → Follows p p.Ends inner s (Traced.ofStmt p.stop t us)

def noted (s q : Session) (r : Option (Stmt Token)) : Session :=
  { q with calls := s.calls ++ ⟨s.parser.current, s.parser.tokens.tail, r.isSome⟩ :: q.calls }

theorem attempt_apply {inner : Reading (Stmt Token)} {q : Session} {r : Option (Stmt Token)}
    (h : inner { s with calls := [] } = some (r, q)) :
    attempt inner s = some (some r, s.noted q r) := by
  change (inner { s with calls := [] }).bind _ = _
  rw [h]
  rfl

theorem advances_noted {q : Session} {places : List (List Token)} {dropped : Nat}
    {log : List Diagnostic} (h : Advances { s with calls := [] } q places dropped log)
    (r : Option (Stmt Token)) :
    s.Advances (s.noted q r) ((s.parser.current :: s.parser.tokens.tail) :: places)
      (dropped + if r.isNone && !s.parser.current.kind.isSeparator then 1 else 0) log := by
  obtain ⟨new, hcalls, hplaces, hdropped⟩ := h.calls
  rw [List.nil_append] at hcalls
  refine ⟨⟨⟨s.parser.current, s.parser.tokens.tail, r.isSome⟩ :: new, ?_, ?_, ?_⟩, h.reports⟩
  · rw [noted, hcalls]
  · rw [List.map_cons, hplaces, Call.place]
  · rw [List.countP_cons, hdropped, Call.isDropped, Option.not_isSome]

section

variable {k n : Nat} {inner : Reading (Stmt Token)} (hinner : ReadsStmt k inner)
include hinner

theorem attempt_of_separator {t : Token} {us : List Token} (h : p.Stands s.parser (t :: us))
    (ht : t.kind.isSeparator = true) (hk : us.length + 1 < k) :
    ∃ q, attempt inner s = some (some none, q) ∧ q.parser = s.parser ∧
      s.Advances q ((t :: us) :: (Visit.statement t us).attempts p.stop) 0 [] := by
  have happly : inner { s with calls := [] } = some (none, { s with calls := [] }) :=
    hinner.separator (h.current_eq ▸ ht) (h.tokens_eq ▸ hk)
  have hadvance := advances_noted (s := s) (advances_of_eq rfl rfl) none
  rw [h.current_eq, h.tokens_eq, ht] at hadvance
  rw [Visit.attempts_of_separator p.stop us ht]
  exact ⟨_, attempt_apply happly, rfl, hadvance⟩

theorem attempt_of_statement {t : Token} {us : List Token} (h : p.Stands s.parser (t :: us))
    (ht : ¬t.kind.isSeparator = true) (hk : us.length + 1 < k) :
    (∃ q a log rest, attempt inner s = some (some (some a), q) ∧
      (Parse.stmtFrom p.stop t us).run = ⟨log, .done a rest⟩ ∧ p.Ends q.parser rest ∧
      s.Advances q ((t :: us) :: (Visit.statement t us).attempts p.stop) log.length log) ∨
    ∃ q d log halt, attempt inner s = some (some none, q) ∧
      (Parse.stmtFrom p.stop t us).run = ⟨log, .failed d halt⟩ ∧ p.Stops q.parser halt ∧
      s.Advances q ((t :: us) :: (Visit.statement t us).attempts p.stop) (log ++ [d]).length
        (log ++ [d]) := by
  have hcurrent := h.current_eq
  have hstands : p.Stands { s with calls := [] }.parser (t :: us) := h
  have hattempts : (Visit.statement t us).attempts p.stop =
      (Traced.ofStmt p.stop t us).attempts p.stop := by
    rw [Visit.attempts_eq, Visit.calls, if_neg ht, Traced.attempts]
  rw [hattempts, ← Traced.run_ofStmt]
  have htokens := h.tokens_eq
  cases hinner.statement hstands ht hk with
  | @done a rest q apply outcome place advance =>
    have hadvance := advances_noted advance (some a)
    rw [hcurrent, htokens] at hadvance
    exact .inl ⟨_, a, _, rest, attempt_apply apply, congrArg (Run.mk _) outcome, place, hadvance⟩
  | @failed d halt q apply outcome place advance =>
    have hadvance := advances_noted advance none
    rw [hcurrent, htokens, Bool.eq_false_iff.2 ht] at hadvance
    refine .inr ⟨_, d, _, halt, attempt_apply apply, congrArg (Run.mk _) outcome, place, ?_⟩
    rw [List.length_append]
    exact hadvance

omit hinner in
theorem statements_of_nil (construct terminator : Kind) (n : Nat) (h : p.Covers s.parser)
    (htokens : s.parser.tokens = []) :
    statements inner construct terminator (n + 1) s = some (none, { s with
      parser := s.parser.report (.unclosedBlock construct.text terminator.text) p.stop }) := by
  have hcurrent := h.current_of_nil htokens
  have hempty : s.parser.tokens.isEmpty = true := by rw [htokens, List.isEmpty_nil]
  rw [statements, current_bind, if_neg (by rw [hcurrent]; exact Bool.false_ne_true)]
  change (if s.parser.tokens.isEmpty = true then _ else _ : Reading _) s = _
  rw [if_pos hempty]
  change some (none, { s with parser := s.parser.reportCurrent _ }) = _
  rw [Parser.reportCurrent, hcurrent]
  rfl

omit hinner in
/-- A pass of the loop over a block. Where it goes on behind a call that gave no statement is told
by the number of diagnostics. -/
theorem statements_of_attempt (construct terminator : Kind) (n : Nat) {q : Session} {t : Token}
    {us : List Token} {r : Option (Stmt Token)} (h : p.Stands s.parser (t :: us))
    (ht : ¬t.kind.isBlockEnd = true) (hattempt : attempt inner s = some (some r, q)) :
    statements inner construct terminator (n + 1) s = r.elim
      (statements inner construct terminator n ⟨if s.parser.diagnostics.length <
        q.parser.diagnostics.length then q.parser.afterFailure else q.parser.next, q.calls⟩)
      fun a => (statements inner construct terminator n >>= fun more => pure (a :: more))
        ⟨q.parser.next, q.calls⟩ := by
  have hne : s.parser.tokens.isEmpty = false := by rw [h.tokens_eq, List.isEmpty_cons]
  rw [statements, current_bind, h.current_eq, if_neg ht]
  change (if s.parser.tokens.isEmpty = true then _ else _ : Reading _) s = _
  rw [hne]
  change (attempt inner >>= _) s = _
  rw [bind_of_some hattempt]
  cases r with
  | some a => rfl
  | none =>
    change (if s.parser.diagnostics.length < q.parser.diagnostics.length then _ else _ : Reading _)
      q = _
    rw [Parser.afterFailure, Option.elim]
    split
    · change (if q.parser.current.kind.isBlockEnd || q.parser.tokens.isEmpty then _ else _ :
        Reading _) q = _
      split <;> rfl
    · rfl

theorem follows_statements {ts : List Token} (construct terminator : Kind)
    (h : p.Stands s.parser ts) (hk : ts.length < k) (hn : ts.length < n) :
    Follows p p.Stands (statements inner construct terminator n) s
      (Traced.pass p.stop construct terminator ts) := by
  induction n generalizing s ts with
  | zero => exact absurd hn (Nat.not_lt_zero _)
  | succ n ih =>
    refine Follows.call ?_ (Traced.run_ofPass p.stop construct terminator ts) rfl rfl
    cases ts with
    | nil =>
      rw [Traced.ofPass, Parse.run_statements_nil]
      exact .report (statements_of_nil construct terminator n h.toCovers h.tokens_eq) h
    | cons t us =>
      rw [List.length_cons] at hk hn
      rw [Traced.ofPass]
      by_cases hend : t.kind.isBlockEnd = true
      · rw [if_pos hend]
        refine .current ?_
        rw [h.current_eq, if_pos hend]
        exact .pure h
      rw [if_neg hend]
      by_cases hsep : t.kind.isSeparator = true
      · obtain ⟨q, hattempt, hparser, hadvance⟩ := attempt_of_separator hinner h hsep hk
        have happly := statements_of_attempt construct terminator n h hend hattempt
        have hnext : p.Stands (Session.mk q.parser.next q.calls).parser us := hparser ▸ h.next
        rw [hparser, if_neg (Nat.lt_irrefl _), ← hparser] at happly
        rw [if_pos hsep]
        exact (ih hnext (by omega) (by omega)).pass [] happly rfl hadvance (List.forall_mem_nil _)
      rw [if_neg hsep]
      rcases attempt_of_statement hinner h hsep hk with
        ⟨q, a, log, rest, hattempt, hrun, hplace, hadvance⟩ |
        ⟨q, d, log, halt, hattempt, hrun, hplace, hadvance⟩
      · have happly := statements_of_attempt construct terminator n h hend hattempt
        have hnext : p.Stands (Session.mk q.parser.next q.calls).parser rest := hplace.next
        have hle := (Logged.suffix_of_run hrun).length_le
        have hmore := (ih hnext (by omega) (by omega)).map (a :: ·)
        rw [hrun]
        exact hmore.pass log happly rfl hadvance (List.forall_mem_nil _)
      · have happly := statements_of_attempt construct terminator n h hend hattempt
        have hnext : p.Stands (Session.mk q.parser.afterFailure q.calls).parser
          halt.resumeInBlock := hplace.resumeInBlock
        have hlt := Halt.length_resumeInBlock_lt (Logged.within_of_run hrun)
          (Bool.eq_false_iff.2 hend)
        rw [List.length_cons] at hlt
        rw [if_pos hadvance.length_lt] at happly
        rw [hrun]
        exact (ih hnext (by omega) (by omega)).pass (log ++ [d]) happly
          q.parser.diagnostics_afterFailure hadvance fun _ => halt.mem_recoveriesInBlock

theorem follows_block {us : List Token} (construct terminator : Kind) (opener : Token)
    (h : p.Stands s.parser.next us) (hk : us.length < k) (hn : us.length < n) :
    Follows p p.Stands (block inner n construct terminator opener) s
      (Traced.block p.stop construct terminator opener us) := by
  refine Follows.call ?_ (Traced.run_ofBlock p.stop construct terminator opener us) rfl rfl
  exact .next ((follows_statements hinner construct terminator h hk hn).map _)

/-! Statements that hold others. -/

theorem follows_alternative {ts : List Token} {branch : Reading (Stmt Token)}
    (h : p.Stands s.parser ts) (hk : ts.length ≤ k) (hn : ts.length ≤ n)
    (hbranch : ∀ {t us}, ts = t :: us → Follows p p.Ends branch s (Traced.branch p.stop t us)) :
    Follows p p.Ends (alternative inner n branch) s (Traced.ofAlternative p.stop ts) := by
  refine .current ?_
  cases ts with
  | nil =>
    rw [h.toCovers.current_eq, h.tokens_eq]
    exact (Follows.closing h (by decide) .conditional "if").map _
  | cons t us =>
    rw [h.current_eq, Traced.ofAlternative]
    split
    · exact (hbranch rfl).map _
    split
    · refine (follows_block hinner .kwIf .kwEnd t h.next hk hn).bind fun b vs q _ hq => ?_
      exact (Follows.closing hq (by decide) .conditional "else block").map _
    · exact (Follows.closing h (by decide) .conditional "if").map _

theorem follows_condStmt {t : Token} {us : List Token} (h : p.Stands s.parser (t :: us))
    (hk : us.length < k) (hn : us.length + 1 < n) :
    Follows p p.Ends (condStmt inner n) s (Traced.branch p.stop t us) := by
  induction n generalizing s t us with
  | zero => exact absurd hn (Nat.not_lt_zero _)
  | succ n ih =>
    refine Follows.call ?_ (Traced.run_ofBranch p.stop t us) rfl rfl
    refine .current (.next ?_)
    rw [h.current_eq]
    refine (readsExpr_expr n .lowest h.next (by omega)).bind fun condition vs q hcondition hq => ?_
    have hlen := Visit.length_rest_expr_lt p.stop hcondition
    refine (Follows.expectPeek hq rfl _).bind fun opener ws r hopener hr => ?_
    obtain ⟨rfl, -⟩ := outcome_expect_eq_done.1 hopener
    rw [List.length_cons] at hlen
    refine (follows_block hinner .kwIf .kwEnd opener hr.toEnds.next (by omega) (by omega)).bind
      fun consequence xs q hconsequence hq => ?_
    have hlen' := (Attempt.suffix_of_outcome hconsequence).length_le
    refine (follows_alternative hinner hq (by omega) (by omega) ?_).map _
    rintro u us rfl
    rw [List.length_cons] at hlen'
    exact ih hq (by omega) (by omega)

theorem follows_whileStmt {t : Token} {us : List Token} (h : p.Stands s.parser (t :: us))
    (hk : us.length < k) (hn : us.length < n) :
    Follows p p.Ends (whileStmt inner n) s (Traced.ofWhileStmt p.stop t us) := by
  refine .current (.next ?_)
  rw [h.current_eq]
  refine (readsExpr_expr n .lowest h.next hn).bind fun condition vs q hcondition hq => ?_
  have hlen := Visit.length_rest_expr_lt p.stop hcondition
  refine (Follows.expectPeek hq rfl _).bind fun opener ws r hopener hr => ?_
  obtain ⟨rfl, -⟩ := outcome_expect_eq_done.1 hopener
  rw [List.length_cons] at hlen
  refine (follows_block hinner .kwWhile .kwEnd opener hr.toEnds.next (by omega) (by omega)).bind
    fun body xs q _ hq => ?_
  exact (Follows.closing hq (by decide) .whileLoop "while").map _

theorem follows_forStmt {t : Token} {us : List Token} (h : p.Stands s.parser (t :: us))
    (ht : t.kind.isPlain = true) (hk : us.length < k) (hn : us.length < n) :
    Follows p p.Ends (forStmt inner n) s (Traced.ofForStmt p.stop t us) := by
  refine .current ?_
  rw [h.current_eq]
  refine (follows_forHeader (h.rests ht) hn.le).bind fun header vs q hheader hq => ?_
  rw [Traced.run_ofForHeader] at hheader
  have hlen := (Attempt.suffix_of_outcome hheader).length_le
  refine (follows_block hinner .kwFor .kwEnd header.opener hq.toEnds.next (by omega)
    (by omega)).bind fun body xs q _ hq => ?_
  exact (Follows.closing hq (by decide) .forLoop "for").map _

theorem follows_repeatStmt {t : Token} {us : List Token} (h : p.Stands s.parser (t :: us))
    (hk : us.length < k) (hn : us.length < n) :
    Follows p p.Ends (repeatStmt inner n) s (Traced.ofRepeatStmt p.stop t us) := by
  refine .current ?_
  rw [h.current_eq]
  refine (follows_block hinner .kwRepeat .kwUntil t h.next hk hn).bind fun body vs q hbody hq => ?_
  have hlen := (Attempt.suffix_of_outcome hbody).length_le
  refine (Follows.closing hq (by decide) .repeatLoop "repeat").bind fun closer ws r hcloser hr => ?_
  obtain ⟨rfl, -⟩ := outcome_expectHere_eq_done.1 hcloser
  rw [List.length_cons] at hlen
  exact .next ((readsExpr_expr n .lowest hr.next (by omega)).map _).ends

theorem follows_functionStmt {t : Token} {us : List Token} (h : p.Stands s.parser (t :: us))
    (ht : t.kind.isPlain = true) (hk : us.length < k) (hn : us.length < n) :
    Follows p p.Ends (functionStmt inner n) s (Traced.ofFunctionStmt p.stop t us) := by
  refine .current ?_
  rw [h.current_eq]
  refine (follows_functionHeader (h.rests ht) hn.le).bind fun header vs q hheader hq => ?_
  rw [Traced.run_ofFunctionHeader] at hheader
  have hlen := (Attempt.suffix_of_outcome hheader).length_le
  refine (follows_block hinner .kwFunction .kwEnd header.opener hq.toEnds.next (by omega)
    (by omega)).bind fun body xs q _ hq => ?_
  exact (Follows.closing hq (by decide) .function _).map _

end

theorem stmt_of_separator (n : Nat) (h : s.parser.current.kind.isSeparator = true) :
    stmt (n + 1) s = some (none, s) := by
  rw [stmt, current_bind, if_pos h]
  rfl

theorem readsStmt_stmt (n : Nat) : ReadsStmt n (stmt n) := by
  induction n with
  | zero =>
    constructor
    · exact fun _ hn => absurd hn (Nat.not_lt_zero _)
    · exact fun _ _ hn => absurd hn (Nat.not_lt_zero _)
  | succ n ih =>
    constructor
    · exact fun h _ => stmt_of_separator n h
    intro p s t us h hsep hn
    have hexpr := follows_exprStmt h hn
    have hlen : us.length < n + 1 := by omega
    refine .current ?_
    rw [h.current_eq] at hexpr ⊢
    rw [if_neg hsep, Traced.ofStmt]
    cases ht : t.kind with
    | identifier => exact (follows_nameStmt h hn).ends
    | kwLocal => exact (follows_localStmt h (ht ▸ rfl) hlen).ends
    | kwReturn => exact (follows_returnStmt h (ht ▸ rfl) hlen).ends
    | kwIf => exact follows_condStmt ih h (by omega) hn
    | kwWhile => exact follows_whileStmt ih h (by omega) hlen
    | kwFor => exact follows_forStmt ih h (ht ▸ rfl) (by omega) hlen
    | kwRepeat => exact follows_repeatStmt ih h (by omega) hlen
    | kwFunction => exact follows_functionStmt ih h (ht ▸ rfl) (by omega) hlen
    | _ => exact hexpr.ends

/-! Whole programs. -/

theorem program_of_attempt (n : Nat) {q : Session} {r : Option (Stmt Token)}
    (h : s.parser.tokens ≠ []) (hattempt : attempt (stmt (n + 1)) s = some (some r, q)) :
    program (n + 1) s = r.elim
      (program n ⟨if s.parser.diagnostics.length < q.parser.diagnostics.length then
        q.parser.recover.next else q.parser.next, q.calls⟩)
      fun a => (program n >>= fun more => pure (a :: more)) ⟨q.parser.next, q.calls⟩ := by
  have hne : s.parser.tokens.isEmpty = false := by rwa [List.isEmpty_eq_false_iff]
  rw [program]
  change (if s.parser.tokens.isEmpty = true then _ else _ : Reading _) s = _
  rw [hne]
  change (attempt (stmt (n + 1)) >>= _) s = _
  rw [bind_of_some hattempt]
  cases r with
  | some a => rfl
  | none =>
    change (if s.parser.diagnostics.length < q.parser.diagnostics.length then _ else _ : Reading _)
      q = _
    rw [Option.elim]
    split <;> rfl

def tracedProgram (stop : Position) (ts : List Token) : Traced (Program Token) :=
  ⟨[.program ts], (Parsed.ofTokens stop ts).diagnostics,
    .done (Parsed.ofTokens stop ts).program []⟩

theorem follows_program {n : Nat} {ts : List Token} (h : p.Stands s.parser ts)
    (hn : ts.length < n) :
    Follows p p.Stands (program n) s (tracedProgram p.stop ts) := by
  induction n generalizing s ts with
  | zero => exact absurd hn (Nat.not_lt_zero _)
  | succ n ih =>
    suffices hpass : Follows p p.Stands (program (n + 1)) s ⟨(Parsed.ofPass p.stop ts).1,
        (Parsed.ofPass p.stop ts).2.diagnostics, .done (Parsed.ofPass p.stop ts).2.program []⟩ by
      refine hpass.call ?_ rfl rfl
      rw [Parsed.ofPass_eq]
    cases ts with
    | nil =>
      have hempty : s.parser.tokens.isEmpty = true := by rw [h.tokens_eq, List.isEmpty_nil]
      refine Follows.step (Follows.pure h) ?_ rfl rfl
      rw [program]
      change (if s.parser.tokens.isEmpty = true then _ else _ : Reading _) s = _
      rw [if_pos hempty]
      rfl
    | cons t us =>
      rw [List.length_cons] at hn
      rw [Parsed.ofPass]
      by_cases hsep : t.kind.isSeparator = true
      · obtain ⟨q, hattempt, hparser, hadvance⟩ :=
          attempt_of_separator (readsStmt_stmt (n + 1)) h hsep hn
        have happly := program_of_attempt n h.ends.ne_nil hattempt
        have hnext : p.Stands (Session.mk q.parser.next q.calls).parser us := hparser ▸ h.next
        rw [hparser, if_neg (Nat.lt_irrefl _), ← hparser] at happly
        rw [if_pos hsep]
        exact (ih hnext (by omega)).pass [] happly rfl hadvance (List.forall_mem_nil _)
      rw [if_neg hsep]
      rcases attempt_of_statement (readsStmt_stmt (n + 1)) h hsep hn with
        ⟨q, a, log, rest, hattempt, hrun, hplace, hadvance⟩ |
        ⟨q, d, log, halt, hattempt, hrun, hplace, hadvance⟩
      · have happly := program_of_attempt n h.ends.ne_nil hattempt
        have hnext : p.Stands (Session.mk q.parser.next q.calls).parser rest := hplace.next
        have hle := (Logged.suffix_of_run hrun).length_le
        have hmore := (ih hnext (by omega)).map (a :: ·)
        rw [hrun]
        exact hmore.pass log happly rfl hadvance (List.forall_mem_nil _)
      · have happly := program_of_attempt n h.ends.ne_nil hattempt
        have hnext : p.Stands (Session.mk q.parser.recover.next q.calls).parser halt.resume :=
          hplace.resume
        have hlt := Halt.length_resume_lt (Logged.within_of_run hrun)
        rw [List.length_cons] at hlt
        rw [if_pos hadvance.length_lt] at happly
        rw [hrun]
        have hmore := (ih hnext (by omega)).pass (log ++ [d]) happly rfl hadvance
          fun _ => halt.mem_recoveries
        rwa [Run.after_mk, ← List.append_cons] at hmore

/-! What a session gives is what the parser gives whose readings are attempts. -/

theorem outcome_exprFrom_eof (stop : Position) (level : Precedence) :
    (Parse.exprFrom stop level (.eof stop) []).outcome =
      .failed ⟨Parse.noExpression (.eof stop), stop⟩ (.on [.eof stop]) := by
  rw [Parse.outcome_exprFrom, Parse.outcome_operand_of_not_startsExpr stop [] rfl]
  rfl

section

variable {α : Type} {m : Reading α} {x : Traced α} {lead us : List Token}

def result (m : Reading α) (s : Session) : Option (Option α × Parser) :=
  (m s).map fun r => (r.1, r.2.parser)

theorem Follows.result_logged {a : Logged α lead us} (h : Follows s.parser s.parser.Ends m s x)
    (hx : x.run = a.run) : result m s = some (s.parser.settleLogged a) := by
  obtain ⟨log, v | ⟨d, halt, hw⟩⟩ := a
  · cases h with
    | @done b ts q apply outcome place advance =>
      rw [hx] at outcome advance
      cases outcome
      rw [result, apply, Option.map_some, place.eq_mk, place.length_tokens, advance.reports]
      rfl
    | failed apply outcome place advance =>
      rw [hx] at outcome
      cases outcome
  · cases h with
    | done apply outcome place advance =>
      rw [hx] at outcome
      cases outcome
    | @failed b c q apply outcome place advance =>
      rw [hx] at outcome advance
      cases outcome
      rw [result, apply, Option.map_some, place.covers.eq_mk, advance.reports, ← List.append_assoc]
      cases halt with
      | on ts =>
        rw [place.tokens_eq]
        rfl
      | before ts =>
        rw [place.length_tokens]
        rfl

theorem settleLogged_logged (p : Parser) (a : Attempt α lead us) :
    p.settleLogged a.logged = p.settle a := by
  rw [Parser.settleLogged, Attempt.logged, List.append_nil]

theorem Follows.result_attempt {a : Attempt α lead us} (h : Follows s.parser s.parser.Ends m s x)
    (hx : x.run = a.outcome.run) : result m s = some (s.parser.settle a) := by
  have hresult := h.result_logged (a := a.logged) hx
  rwa [settleLogged_logged] at hresult

/-- At the end of input a parser has nowhere to go, and where an attempt stopped is the same to
it. -/
theorem Follows.result_of_nil {a : Attempt α lead us} {d : Diagnostic} {halt halt' : Halt}
    (h : Follows s.parser s.parser.Ends m s x) (htokens : s.parser.tokens = [])
    (hx : x.run = ⟨[], .failed d halt⟩) (ha : a.outcome = .failed d halt') :
    result m s = some (s.parser.settle a) := by
  have hkeep (n : Nat) : s.parser.keepLast n = s.parser := by
    rw [Parser.keepLast, htokens, List.drop_nil, ← htokens]
  cases h with
  | done apply outcome place advance =>
    rw [hx] at outcome
    cases outcome
  | @failed b c q apply outcome place advance =>
    rw [hx] at outcome advance
    cases outcome
    have hq : q.parser = s.parser.report d.problem d.position := by
      rw [place.covers.eq_mk, advance.reports, htokens, List.drop_nil, Parser.report, htokens]
      rfl
    rw [result, apply, Option.map_some, hq]
    obtain v | ⟨e, stopped, hw⟩ := a
    · cases ha
    cases ha
    cases halt' <;> simp only [Parser.settle, hkeep]

theorem result_settled {m : Reading (Expr Token)} (read : Token → Except Problem (Expr Token))
    (h : m s = s.settled (read s.parser.current)) :
    result m s = some (s.parser.literal read) := by
  have hkeep : s.parser.keepLast (s.parser.tokens.tail.length + 1) = s.parser := by
    rw [Parser.keepLast, List.length_tail, Nat.sub_eq_zero_of_le (by omega), List.drop_zero]
  rw [result, h, Parser.literal]
  cases read s.parser.current with
  | ok e =>
    simp only [Attempt.ofToken, Parser.settle, hkeep]
    rfl
  | error problem =>
    simp only [Attempt.ofToken, Parser.settle, List.length_cons, hkeep]
    rfl

end

section

variable {n : Nat} (hn : s.parser.tokens.length < n)
include hn

theorem result_expr (level : Precedence) :
    result (expr n level) s = some (s.parser.expr level) := by
  have hstands := (Parser.Covers.refl s.parser).stands
  have hexpr := (readsExpr_expr n level hstands hn).ends
  rw [Parser.expr]
  cases htokens : s.parser.tokens with
  | nil =>
    have hrun := congrArg Outcome.run (Parse.outcome_expr_nil s.parser.stop level)
    have hcurrent := (Parser.Covers.refl s.parser).current_of_nil htokens
    rw [htokens] at hexpr
    rw [hcurrent]
    exact hexpr.result_of_nil htokens hrun (outcome_exprFrom_eof s.parser.stop level)
  | cons t us =>
    rw [htokens] at hexpr hstands
    refine hexpr.result_attempt ?_
    rw [Traced.run_expr, Parse.outcome_expr_cons, hstands.current_eq]
    rfl

theorem length_tail_lt : s.parser.tokens.tail.length < n := by
  rw [List.length_tail]
  omega

omit hn in
theorem stands_next (s : Session) : s.parser.Stands s.parser.next s.parser.tokens.tail :=
  ⟨(Parser.Covers.refl s.parser).next, rfl⟩

theorem result_unary : result (unary (expr n)) s = some s.parser.unary := by
  have h := follows_unary (readsExpr_expr n) rfl s.stands_next (length_tail_lt hn)
  refine h.ends.result_attempt ?_
  rw [Parse.outcome_unary, Traced.run_map, Traced.run_expr, Outcome.run_map]

omit hn in
theorem run_grouped (stop : Position) (us : List Token) :
    ((Traced.expr stop .lowest us).bind fun e vs =>
      (Traced.required stop .rightParen Parse.unclosedGroup vs).map fun _ => e).run =
      (Parse.grouped stop us).outcome.run := by
  rw [Parse.outcome_grouped, Traced.run_bind, Traced.run_expr, Outcome.run_bind]
  rfl

theorem result_grouped : result (grouped (expr n)) s = some s.parser.grouped := by
  have h := follows_grouped (readsExpr_expr n) s.stands_next (length_tail_lt hn)
  exact h.ends.result_attempt (run_grouped _ _)

theorem result_binary (left : Expr Token) :
    result (binary (expr n) left) s = some (s.parser.binary left) := by
  have h := follows_binary (readsExpr_expr n) left rfl s.stands_next (length_tail_lt hn)
  refine h.ends.result_attempt ?_
  rw [Parse.outcome_binary, Traced.run_map, Traced.run_expr, Outcome.run_map]

theorem follows_arguments_of_lt :
    Follows s.parser s.parser.Rests (arguments (expr n) n) s
      (Traced.ofArguments s.parser.stop s.parser.tokens.tail) :=
  follows_arguments (readsExpr_expr n) (Parser.Covers.refl s.parser) rfl (length_tail_lt hn)
    (length_tail_lt hn).le

theorem result_arguments : result (arguments (expr n) n) s = some s.parser.arguments := by
  refine (follows_arguments_of_lt hn).ends.result_attempt ?_
  exact Traced.run_ofArguments s.parser.stop s.parser.tokens.tail

omit hn in
theorem call_of_not_name {inner : Precedence → Reading (Expr Token)} {callee : Expr Token}
    (h : ∀ c, callee ≠ .name c) :
    call inner n callee s = s.settled (.error (Parse.notCallable callee)) := by
  cases callee with
  | name c => exact absurd rfl (h c)
  | _ => rfl

theorem result_call (callee : Expr Token) :
    result (call (expr n) n callee) s = some (s.parser.call callee) := by
  rw [Parser.call]
  by_cases hname : ∃ c, callee = .name c
  · obtain ⟨c, rfl⟩ := hname
    have h := (follows_arguments_of_lt hn).map (Expr.call s.parser.current c)
    refine Follows.result_attempt (.current h.ends) ?_
    rw [Parse.outcome_call_name, Traced.run_map, Traced.run_ofArguments, Outcome.run_map]
  · rw [not_exists] at hname
    have happly : call (expr n) n callee s = s.settled (.error (Parse.notCallable callee)) :=
      call_of_not_name hname
    rw [result_settled (fun _ => .error (Parse.notCallable callee)) happly, Parse.call]
    · rfl
    · exact hname

theorem follows_stmt_of_nil (htokens : s.parser.tokens = []) :
    Follows s.parser s.parser.Ends (stmt n) s
      ((Traced.expr s.parser.stop .lowest []).map (.expression s.parser.current)) := by
  obtain ⟨n, rfl⟩ := Nat.exists_eq_succ_of_ne_zero (Nat.ne_of_gt (Nat.zero_lt_of_lt hn))
  have hcurrent := (Parser.Covers.refl s.parser).current_of_nil htokens
  have happly : stmt (n + 1) s = exprStmt (n + 1) s := by
    rw [stmt, current_bind, hcurrent]
    rfl
  have hread := follows_exprStmt (Parser.Covers.refl s.parser).stands hn
  rw [htokens] at hread
  exact hread.ends.step happly rfl rfl

theorem result_stmt : result (stmt n) s = some s.parser.stmt := by
  rw [Parser.stmt]
  split
  · next hsep =>
    rw [result, (readsStmt_stmt n).separator hsep hn]
    rfl
  next hsep =>
  cases htokens : s.parser.tokens with
  | nil =>
    have hcurrent := (Parser.Covers.refl s.parser).current_of_nil htokens
    have hrun := congrArg Outcome.run (Parse.outcome_expr_nil s.parser.stop .lowest)
    have hstmt := Parse.outcome_exprStmt s.parser.stop (.eof s.parser.stop) []
    rw [outcome_exprFrom_eof, Outcome.map_failed] at hstmt
    rw [hcurrent, Parse.stmtFrom_of_not_startsStmt _ _ rfl, settleLogged_logged]
    exact (follows_stmt_of_nil hn htokens).result_of_nil htokens (congrArg (Run.map _) hrun) hstmt
  | cons t us =>
    have hstands := (Parser.Covers.refl s.parser).stands
    rw [htokens] at hstands hn
    have hcurrent := hstands.current_eq
    rw [hcurrent] at hsep ⊢
    refine ((readsStmt_stmt n).statement hstands hsep hn).result_logged ?_
    exact Traced.run_ofStmt s.parser.stop t us

/-- A session reads what the readers make of its tokens. It calls for statements where they attempt
one, and drops as many as they report. -/
theorem program_apply :
    ∃ q, program n s = some (some (Parsed.ofTokens s.parser.stop s.parser.tokens).program, q) ∧
      s.Advances q ((Visit.program s.parser.tokens).attempts s.parser.stop)
        (Parsed.ofTokens s.parser.stop s.parser.tokens).diagnostics.length
        (Parsed.ofTokens s.parser.stop s.parser.tokens).diagnostics := by
  have hattempts : (tracedProgram s.parser.stop s.parser.tokens).attempts s.parser.stop =
      (Visit.program s.parser.tokens).attempts s.parser.stop := by
    rw [Traced.attempts, tracedProgram, List.flatMap_singleton]
    rfl
  cases follows_program (Parser.Covers.refl s.parser).stands hn with
  | @done a rest q apply outcome place advance =>
    cases outcome
    rw [hattempts] at advance
    exact ⟨q, apply, advance⟩
  | failed apply outcome place advance => cases outcome

end

end LuaSyntax.Session
