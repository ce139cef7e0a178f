import LuaSyntax.Proofs.Soundness

/-! What is read from a source that may have errors. The statements that are kept are spelled as
the grammar has it, but tokens between them can be dropped, at the top and in every block, so
nothing is said of the token behind a statement. -/

namespace LuaSyntax

inductive Token.Denotes (t : Token) : Expr Token → Prop
  | name (hk : t.kind = .identifier) : Denotes t (.name (.ofToken t))
  | integer {n} (hk : t.kind = .numeral)
      (hn : Number.ofText? t.value.toList = some (.integer n)) : Denotes t (.integer t n)
  | float {x} (hk : t.kind = .numeral)
      (hx : Number.ofText? t.value.toList = some (.float x)) : Denotes t (.float t x)
  | boolean {b} (hk : t.kind = .kwTrue ∨ t.kind = .kwFalse)
      (hb : t.value = if b then "true" else "false") : Denotes t (.boolean t b)
  | string (hk : t.kind = .string) : Denotes t (.string t (Escape.decode t.value))
  | nil (hk : t.kind = .kwNil) : Denotes t (.nil t)

theorem Token.denotes_of_ofBoolean {t : Token} {e : Expr Token}
    (hk : t.kind = .kwTrue ∨ t.kind = .kwFalse) (h : Expr.ofBoolean t = .ok e) : t.Denotes e := by
  unfold Expr.ofBoolean at h
  split at h
  · next hvalue =>
    cases h
    exact .boolean (b := true) hk hvalue
  split at h
  · next hvalue =>
    cases h
    exact .boolean (b := false) hk hvalue
  · cases h

theorem Token.denotes_of_ofToken? {t : Token} {e : Expr Token}
    (h : Expr.ofToken? t = some (.ok e)) : t.Denotes e := by
  unfold Expr.ofToken? at h
  split at h
  · next hk =>
    cases h
    exact .name hk
  · next hk =>
    unfold Expr.ofNumeral at h
    split at h
    · next hn =>
      cases h
      exact .integer hk hn
    · next hx =>
      cases h
      exact .float hk hx
    · cases h
  · next hk => exact denotes_of_ofBoolean (.inl hk) (Option.some.inj h)
  · next hk => exact denotes_of_ofBoolean (.inr hk) (Option.some.inj h)
  · next hk =>
    cases h
    exact .string hk
  · next hk =>
    cases h
    exact .nil hk
  · cases h

namespace Grammar.Salvage

mutual

/-- The tokens spell the statement, but for those dropped in its blocks. -/
inductive Statement : Stmt Token → List Token → Prop
  | expression {t e ts} (he : Expression e (t :: ts)) : Statement (.expression t e) (t :: ts)
  | assign {t eq e ts} (ht : t.kind = .identifier) (heq : eq.kind = .assign)
      (he : Expression e ts) : Statement (.assign ⟨t, .ofToken t, e, false⟩) (t :: eq :: ts)
  | localAssign {t n eq e ts} (ht : t.kind = .kwLocal) (hn : n.kind = .identifier)
      (heq : eq.kind = .assign) (he : Expression e ts) :
      Statement (.assign ⟨t, .ofToken n, e, true⟩) (t :: n :: eq :: ts)
  | ret {t} (ht : t.kind = .kwReturn) : Statement (.ret t none) [t]
  | retValue {t e ts} (ht : t.kind = .kwReturn) (he : Expression e ts) :
      Statement (.ret t (some e)) (t :: ts)
  | cond {t s ts} (ht : t.kind = .kwIf) (hs : Branch t s ts) : Statement s (t :: ts)
  | whileLoop {t c cs d ss bs e} (ht : t.kind = .kwWhile) (hc : Expression c cs)
      (hd : d.kind = .kwDo) (hss : Statements ss bs) (he : e.kind = .kwEnd) :
      Statement (.whileLoop t c ⟨d, ss⟩) (t :: (cs ++ d :: (bs ++ [e])))
  | forLoop {t h hs ss bs e} (ht : t.kind = .kwFor) (hh : ForHead h hs) (hss : Statements ss bs)
      (he : e.kind = .kwEnd) :
      Statement (.forLoop t h.init h.limit h.step ⟨h.opener, ss⟩) (t :: (hs ++ (bs ++ [e])))
  | repeatLoop {t ss bs u c cs} (ht : t.kind = .kwRepeat) (hss : Statements ss bs)
      (hu : u.kind = .kwUntil) (hc : Expression c cs) :
      Statement (.repeatLoop t ⟨t, ss⟩ c) (t :: (bs ++ u :: cs))
  | function {t h hs ss bs e} (ht : t.kind = .kwFunction) (hh : FunctionHead h hs)
      (hss : Statements ss bs) (he : e.kind = .kwEnd) :
      Statement (.function t (.ofToken h.name) h.parameters ⟨h.opener, ss⟩)
        (t :: (hs ++ (bs ++ [e])))

/-- The statements stand among the tokens, in order. -/
inductive Statements : List (Stmt Token) → List Token → Prop
  | nil : Statements [] []
  | skip {t ss ts} (hss : Statements ss ts) : Statements ss (t :: ts)
  | cons {s ts ss us} (hs : Statement s ts) (hss : Statements ss us) :
      Statements (s :: ss) (ts ++ us)

inductive Branch : Token → Stmt Token → List Token → Prop
  | mk {t c cs th ss bs a us} (hc : Expression c cs) (hth : th.kind = .kwThen)
      (hss : Statements ss bs) (ha : Alternative a us) :
      Branch t (.cond t c ⟨th, ss⟩ a) (cs ++ th :: (bs ++ us))

inductive Alternative : Option (Block Token (Stmt Token)) → List Token → Prop
  | none {e} (he : e.kind = .kwEnd) : Alternative none [e]
  | block {t ss bs e} (ht : t.kind = .kwElse) (hss : Statements ss bs) (he : e.kind = .kwEnd) :
      Alternative (some ⟨t, ss⟩) (t :: (bs ++ [e]))
  | branch {t s ts} (ht : t.kind = .kwElseif) (hs : Branch t s ts) :
      Alternative (some ⟨t, [s]⟩) (t :: ts)

end

theorem Statements.skips {ss : List (Stmt Token)} {ts : List Token} (us : List Token)
    (h : Statements ss ts) : Statements ss (us ++ ts) := by
  induction us with
  | nil => exact h
  | cons u us ih => exact .skip ih

theorem Statements.of_suffix {ss : List (Stmt Token)} {ts us : List Token} (h : Statements ss ts)
    (hts : ts <:+ us) : Statements ss us := by
  obtain ⟨vs, rfl⟩ := hts
  exact h.skips vs

end Grammar.Salvage

open Grammar

/-! A production of the grammar is one with nothing dropped. -/

mutual

theorem Grammar.Statement.salvage : ∀ {s : Stmt Token} {ts : List Token} {next : Option Kind},
    Statement s ts next → Salvage.Statement s ts
  | _, _, _, .expression he _ _ => .expression he
  | _, _, _, .call ht hop hes =>
    .expression ⟨.closed, .call (.literal (by rw [Expr.ofToken?, ht]; rfl)) hop hes⟩
  | _, _, _, .assign ht heq he _ => .assign ht heq he
  | _, _, _, .localAssign ht hn heq he _ => .localAssign ht hn heq he
  | _, _, _, .ret ht _ => .ret ht
  | _, _, _, .retValue ht he _ => .retValue ht he
  | _, _, _, .cond ht hs => .cond ht hs.salvage
  | _, _, _, .whileLoop ht hc hd hss he => .whileLoop ht hc hd hss.salvage he
  | _, _, _, .forLoop ht hh hss he => .forLoop ht hh hss.salvage he
  | _, _, _, .repeatLoop ht hss hu hc _ => .repeatLoop ht hss.salvage hu hc
  | _, _, _, .function ht hh hss he => .function ht hh hss.salvage he

theorem Grammar.Statements.salvage :
    ∀ {ss : List (Stmt Token)} {ts : List Token} {next : Option Kind},
    Statements ss ts next → Salvage.Statements ss ts
  | _, _, _, .nil => .nil
  | _, _, _, .separator _ hss => .skip hss.salvage
  | _, _, _, .cons hs hss => .cons hs.salvage hss.salvage

theorem Grammar.Branch.salvage : ∀ {t : Token} {s : Stmt Token} {ts : List Token},
    Branch t s ts → Salvage.Branch t s ts
  | _, _, _, .mk hc hth hss ha => .mk hc hth hss.salvage ha.salvage

theorem Grammar.Alternative.salvage : ∀ {a : Option (Block Token (Stmt Token))} {ts : List Token},
    Alternative a ts → Salvage.Alternative a ts
  | _, _, .none he => .none he
  | _, _, .block ht hss he => .block ht hss.salvage he
  | _, _, .branch ht hs => .branch ht hs.salvage

end

def Run.Salvages {α : Type} (r : Run α) (us : List Token) (R : α → List Token → Prop) : Prop :=
  r.outcome.Reads us fun v ts _ => R v ts

theorem Outcome.Reads.salvages {α : Type} {o : Outcome α} {us : List Token}
    {R : α → List Token → Option Kind → Prop} {S : α → List Token → Prop} (h : o.Reads us R)
    (hR : ∀ v ts next, R v ts next → S v ts) : o.run.Salvages us S := h.mono hR

namespace Run

variable {α β : Type} {r : Run α} {us : List Token} {R : α → List Token → Prop}
  {S : β → List Token → Prop}

theorem outcome_bind (r : Run α) (f : α → List Token → Run β) :
    (r.bind f).outcome = r.outcome.bind fun v rest => (f v rest).outcome := by
  obtain ⟨log, ⟨v, rest⟩ | ⟨d, halt⟩⟩ := r
  · rfl
  · rfl

theorem Salvages.map {f : α → β} (h : r.Salvages us R) (hf : ∀ v ts, R v ts → S (f v) ts) :
    (r.map f).Salvages us S :=
  Outcome.Reads.map h fun v ts _ => hf v ts

theorem Salvages.bind {f : α → List Token → Run β} (h : r.Salvages us R)
    (hf : ∀ v ts rest, r.outcome = .done v rest → R v ts →
      (f v rest).Salvages rest fun w vs => S w (ts ++ vs)) : (r.bind f).Salvages us S := by
  rw [Salvages, outcome_bind]
  exact Outcome.Reads.bind h hf

theorem Salvages.cons {t : Token} (h : r.Salvages us fun v ts => R v (t :: ts)) :
    r.Salvages (t :: us) R :=
  Outcome.Reads.cons h

end Run

namespace Parse

variable (stop : Position)

theorem expression_salvages (us : List Token) :
    (expr stop .lowest us).outcome.run.Salvages us Expression :=
  (expression_reads stop us).salvages fun _ _ _ he => he.1

theorem expect_salvages (kind : Kind) (problem : Token → Problem) (us : List Token) :
    (expect stop kind problem us).outcome.run.Salvages us fun t ts => t.kind = kind ∧ ts = [t] :=
  expect_reads stop kind problem us

theorem closing_salvages {α : Type} {form : Form} {kind : Kind} {what : String} {ts : List Token}
    {v : α} {R : α → List Token → Prop} (h : ∀ e, e.kind = kind → R v [e]) :
    ((closing stop form kind what ts).outcome.map fun _ => v).run.Salvages ts R :=
  closing_reads stop fun e _ _ he => h e he

mutual

theorem stmtFrom_salvages (t : Token) (us : List Token) :
    (stmtFrom stop t us).run.Salvages (t :: us) Salvage.Statement := by
  have hsimple : ∀ s ts next, Statement s ts next → Salvage.Statement s ts :=
    fun _ _ _ hs => hs.salvage
  rw [run_stmtFrom]
  split
  · next ht => exact (nameStmt_reads stop us ht).salvages hsimple
  · next ht => exact (localStmt_reads stop us ht).salvages hsimple
  · next ht => exact (returnStmt_reads stop us ht).salvages hsimple
  · next ht =>
    apply Run.Salvages.cons
    exact Outcome.Reads.mono (condStmt_salvages t us) fun s ts _ hs => .cond ht hs
  · next ht => exact (whileStmt_salvages us ht).cons
  · next ht => exact (forStmt_salvages us ht).cons
  · next ht => exact (repeatStmt_salvages us ht).cons
  · next ht => exact (functionStmt_salvages us ht).cons
  · next =>
    refine (exprStmt_reads stop (.inl ?_)).salvages hsimple
    cases hk : t.kind <;> simp_all [Kind.startsStmt]
termination_by 4 * us.length + 3

theorem statements_salvages (construct terminator : Kind) (ts : List Token) :
    (statements stop construct terminator ts).run.Salvages ts Salvage.Statements := by
  match ts with
  | [] =>
    rw [run_statements_nil]
    exact Outcome.reads_failed _ _
  | t :: us =>
    by_cases hend : t.kind.isBlockEnd = true
    · rw [run_statements_of_blockEnd stop _ _ us hend]
      exact Outcome.reads_done [] .nil
    by_cases hsep : t.kind.isSeparator = true
    · rw [run_statements_of_separator stop _ _ us hsep]
      apply Run.Salvages.cons
      exact Outcome.Reads.mono (statements_salvages construct terminator us)
        fun ss ts _ hss => .skip hss
    have hstmt := stmtFrom_salvages t us
    rcases hrun : (stmtFrom stop t us).run with ⟨log, ⟨s, rest⟩ | ⟨d, halt⟩⟩
    · rw [run_statements_of_done stop _ _ hend hsep hrun]
      have hlen := (Logged.suffix_of_run hrun).length_le
      rw [hrun] at hstmt
      obtain ⟨ts, hts, hs⟩ := hstmt s rest rfl
      rw [hts]
      intro ss rest' hdone
      obtain ⟨ss, hdone', rfl⟩ := Outcome.map_eq_done.1 hdone
      obtain ⟨us, rfl, hss⟩ := statements_salvages construct terminator rest ss rest' hdone'
      exact ⟨ts ++ us, (List.append_assoc ts us rest').symm, .cons hs hss⟩
    · -- The tokens of a failed statement are dropped, and the block goes on behind them.
      rw [run_statements_of_failed stop _ _ hend hsep hrun]
      have hwithin := Logged.within_of_run hrun
      have hlen : halt.resumeInBlock.length < us.length + 1 :=
        Halt.length_resumeInBlock_lt hwithin (by simpa using hend)
      obtain ⟨vs, hvs⟩ := Halt.resumeInBlock_suffix hwithin
      intro ss rest hdone
      obtain ⟨ts, hts, hss⟩ :=
        statements_salvages construct terminator halt.resumeInBlock ss rest hdone
      rw [← hvs, hts]
      exact ⟨vs ++ ts, (List.append_assoc vs ts rest).symm, hss.skips vs⟩
termination_by 4 * ts.length

theorem block_salvages (construct terminator : Kind) (opener : Token) (us : List Token) :
    (block stop construct terminator opener us).run.Salvages us
      fun b ts => b.token = opener ∧ Salvage.Statements b.body ts := by
  rw [run_block]
  exact (statements_salvages construct terminator us).map fun ss ts hss => ⟨rfl, hss⟩
termination_by 4 * us.length + 1

theorem condStmt_salvages (t : Token) (us : List Token) :
    (condStmt stop t us).run.Salvages us fun s ts => Salvage.Branch t s ts := by
  rw [run_condStmt]
  refine (expression_salvages stop us).bind ?_
  intro c cs vs hc hcond
  have hvs := (Attempt.suffix_of_outcome hc).length_le
  refine (expect_salvages stop _ _ vs).bind ?_
  rintro th _ ws hth ⟨hthen, rfl⟩
  have hws := (Attempt.suffix_of_outcome hth).length_le
  refine (block_salvages .kwIf .kwEnd th ws).bind ?_
  rintro ⟨opener, ss⟩ bs xs hb ⟨rfl, hss⟩
  have hxs := (Attempt.suffix_of_outcome hb).length_le
  refine (alternative_salvages xs).map fun a as ha => ?_
  have hbranch : Salvage.Branch t _ (cs ++ opener :: (bs ++ as)) := .mk hcond hthen hss ha
  exact hbranch
termination_by 4 * us.length + 2

theorem alternative_salvages (ts : List Token) :
    (alternative stop ts).run.Salvages ts Salvage.Alternative := by
  match ts with
  | [] =>
    rw [run_alternative_nil]
    exact closing_salvages stop fun e he => .none he
  | t :: us =>
    rw [run_alternative_cons]
    split
    · next ht => exact ((condStmt_salvages t us).map fun s ts hs => .branch ht hs).cons
    split
    · next ht =>
      apply Run.Salvages.cons
      refine (block_salvages .kwIf .kwEnd t us).bind ?_
      rintro ⟨_, ss⟩ bs vs - ⟨rfl, hss⟩
      exact closing_salvages stop fun e he => .block ht hss he
    · exact closing_salvages stop fun e he => .none he
termination_by 4 * ts.length + 1

theorem whileStmt_salvages {t : Token} (us : List Token) (ht : t.kind = .kwWhile) :
    (whileStmt stop t us).run.Salvages us fun s ts => Salvage.Statement s (t :: ts) := by
  rw [run_whileStmt]
  refine (expression_salvages stop us).bind ?_
  intro c cs vs hc hcond
  have hvs := (Attempt.suffix_of_outcome hc).length_le
  refine (expect_salvages stop _ _ vs).bind ?_
  rintro d _ ws hd ⟨hdo, rfl⟩
  have hws := (Attempt.suffix_of_outcome hd).length_le
  refine (block_salvages .kwWhile .kwEnd d ws).bind ?_
  rintro ⟨_, ss⟩ bs xs - ⟨rfl, hss⟩
  exact closing_salvages stop fun e he => .whileLoop ht hcond hdo hss he
termination_by 4 * us.length + 2

theorem forStmt_salvages {t : Token} (us : List Token) (ht : t.kind = .kwFor) :
    (forStmt stop t us).run.Salvages us fun s ts => Salvage.Statement s (t :: ts) := by
  rw [run_forStmt]
  refine Run.Salvages.bind (R := ForHead) (forHeader_reads stop us) ?_
  intro h hs vs hh hhead
  have hvs := (Attempt.suffix_of_outcome hh).length_le
  refine (block_salvages .kwFor .kwEnd h.opener vs).bind ?_
  rintro ⟨_, ss⟩ bs ws - ⟨rfl, hss⟩
  exact closing_salvages stop fun e he => .forLoop ht hhead hss he
termination_by 4 * us.length + 2

theorem repeatStmt_salvages {t : Token} (us : List Token) (ht : t.kind = .kwRepeat) :
    (repeatStmt stop t us).run.Salvages us fun s ts => Salvage.Statement s (t :: ts) := by
  rw [run_repeatStmt]
  refine (block_salvages .kwRepeat .kwUntil t us).bind ?_
  rintro ⟨_, ss⟩ bs vs - ⟨rfl, hss⟩
  refine Run.Salvages.bind (R := fun u ts => u.kind = .kwUntil ∧ ts = [u]) ?_ ?_
  · intro u rest hdone
    obtain ⟨rfl, hu⟩ := outcome_expectHere_eq_done.1 hdone
    exact ⟨[u], rfl, hu, rfl⟩
  rintro u _ ws - ⟨hu, rfl⟩
  exact (expression_salvages stop ws).map fun c cs hc => .repeatLoop ht hss hu hc
termination_by 4 * us.length + 2

theorem functionStmt_salvages {t : Token} (us : List Token) (ht : t.kind = .kwFunction) :
    (functionStmt stop t us).run.Salvages us fun s ts => Salvage.Statement s (t :: ts) := by
  rw [run_functionStmt]
  refine Run.Salvages.bind (R := FunctionHead) (functionHeader_reads stop us) ?_
  intro h hs vs hh hhead
  have hvs := (Attempt.suffix_of_outcome hh).length_le
  refine (block_salvages .kwFunction .kwEnd h.opener vs).bind ?_
  rintro ⟨_, ss⟩ bs ws - ⟨rfl, hss⟩
  exact closing_salvages stop fun e he => .function ht hhead hss he
termination_by 4 * us.length + 2

end

end Parse

theorem Parsed.salvage (stop : Position) (ts : List Token) :
    Salvage.Statements (ofTokens stop ts).program ts := by
  match ts with
  | [] =>
    rw [ofTokens_nil]
    exact .nil
  | t :: us =>
    by_cases hsep : t.kind.isSeparator = true
    · rw [ofTokens_of_separator stop us hsep]
      exact .skip (Parsed.salvage stop us)
    have hstmt := Parse.stmtFrom_salvages stop t us
    rcases hrun : (Parse.stmtFrom stop t us).run with ⟨log, ⟨s, rest⟩ | ⟨d, halt⟩⟩
    · rw [ofTokens_of_done stop hsep hrun]
      have hlen := (Logged.suffix_of_run hrun).length_le
      rw [hrun] at hstmt
      obtain ⟨ts, hts, hs⟩ := hstmt s rest rfl
      rw [hts]
      exact .cons hs (Parsed.salvage stop rest)
    · rw [ofTokens_of_failed stop hsep hrun]
      have hsuffix := Halt.resume_suffix (Logged.within_of_run hrun)
      have hlen := hsuffix.length_le
      exact (Parsed.salvage stop halt.resume).of_suffix (hsuffix.trans (List.suffix_cons t us))
termination_by ts.length

theorem salvage_parse (source : String) (file : Option String) :
    Salvage.Statements (parse source file).program (scan source file).tokens :=
  Parsed.salvage _ _

end LuaSyntax
