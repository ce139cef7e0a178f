import LuaSyntax.Proofs.Grammar
import LuaSyntax.Proofs.Outcome

/-! What is read without a diagnostic is spelled by the tokens that were taken for it. Every
reader is shown to take exactly a phrase of the grammar, by recursion along the readers. -/

namespace LuaSyntax

open Grammar

/-- A success takes tokens off the front of `us` that stand in the relation to its value and to
the kind of the token behind them. -/
def Outcome.Reads {α : Type} (o : Outcome α) (us : List Token)
    (R : α → List Token → Option Kind → Prop) : Prop :=
  ∀ v rest, o = .done v rest → ∃ ts, us = ts ++ rest ∧ R v ts (ahead rest none)

namespace Outcome

variable {α β : Type} {o : Outcome α} {us : List Token}
  {R : α → List Token → Option Kind → Prop} {S : β → List Token → Option Kind → Prop}

theorem reads_failed (d : Diagnostic) (halt : Halt) : (failed d halt : Outcome α).Reads us R := by
  rintro v rest ⟨⟩

theorem reads_done {v : α} (ts : List Token) {rest : List Token} (h : R v ts (ahead rest none)) :
    (done v rest).Reads (ts ++ rest) R := by
  rintro w rest' ⟨⟩
  exact ⟨ts, rfl, h⟩

theorem Reads.map {f : α → β} (h : o.Reads us R)
    (hf : ∀ v ts next, R v ts next → S (f v) ts next) : (o.map f).Reads us S := by
  intro w rest hw
  obtain ⟨v, hv, rfl⟩ := map_eq_done.1 hw
  obtain ⟨ts, hts, hR⟩ := h v rest hv
  exact ⟨ts, hts, hf v ts _ hR⟩

theorem Reads.bind {f : α → List Token → Outcome β} (h : o.Reads us R)
    (hf : ∀ v ts rest, o = done v rest → R v ts (ahead rest none) →
      (f v rest).Reads rest fun w vs next => S w (ts ++ vs) next) :
    (o.bind f).Reads us S := by
  intro w rest hw
  obtain ⟨v, mid, hv, hw⟩ := bind_eq_done.1 hw
  obtain ⟨ts, rfl, hR⟩ := h v mid hv
  obtain ⟨vs, rfl, hS⟩ := hf v ts mid hv hR w rest hw
  exact ⟨ts ++ vs, (List.append_assoc ts vs rest).symm, hS⟩

theorem Reads.cons {t : Token} (h : o.Reads us fun v ts next => R v (t :: ts) next) :
    o.Reads (t :: us) R := by
  intro v rest hv
  obtain ⟨ts, rfl, hR⟩ := h v rest hv
  exact ⟨t :: ts, rfl, hR⟩

theorem Reads.mono {R' : α → List Token → Option Kind → Prop} (h : o.Reads us R)
    (hR : ∀ v ts next, R v ts next → R' v ts next) : o.Reads us R' := by
  intro v rest hv
  obtain ⟨ts, hts, h⟩ := h v rest hv
  exact ⟨ts, hts, hR v ts _ h⟩

theorem Reads.ahead (h : o.Reads us R) :
    o.Reads us fun v ts next => R v ts next ∧ Grammar.ahead us none = Grammar.ahead ts next := by
  intro v rest hv
  obtain ⟨ts, rfl, hR⟩ := h v rest hv
  exact ⟨ts, rfl, hR, ahead_append ts rest none⟩

end Outcome

def Run.Reads {α : Type} (r : Run α) (us : List Token)
    (R : α → List Token → Option Kind → Prop) : Prop := r.log = [] → r.outcome.Reads us R

theorem Outcome.Reads.run {α : Type} {o : Outcome α} {us : List Token}
    {R : α → List Token → Option Kind → Prop} (h : o.Reads us R) : o.run.Reads us R := fun _ => h

namespace Run

variable {α β : Type} {r : Run α} {us : List Token}
  {R : α → List Token → Option Kind → Prop} {S : β → List Token → Option Kind → Prop}

theorem Reads.map {f : α → β} (h : r.Reads us R)
    (hf : ∀ v ts next, R v ts next → S (f v) ts next) : (r.map f).Reads us S :=
  fun hlog => (h hlog).map hf

theorem Reads.bind {f : α → List Token → Run β} (h : r.Reads us R)
    (hf : ∀ v ts rest, r.outcome = .done v rest → R v ts (ahead rest none) →
      (f v rest).Reads rest fun w vs next => S w (ts ++ vs) next) :
    (r.bind f).Reads us S := by
  obtain ⟨log, o⟩ := r
  intro hlog
  cases o with
  | failed d halt => exact Outcome.reads_failed d halt
  | done v mid =>
    obtain ⟨rfl, hlog⟩ := List.append_eq_nil_iff.1 hlog
    obtain ⟨ts, rfl, hR⟩ := h rfl v mid rfl
    intro w rest hw
    obtain ⟨vs, rfl, hS⟩ := hf v ts mid rfl hR hlog w rest hw
    exact ⟨ts ++ vs, (List.append_assoc ts vs rest).symm, hS⟩

theorem Reads.cons {t : Token} (h : r.Reads us fun v ts next => R v (t :: ts) next) :
    r.Reads (t :: us) R := fun hlog => (h hlog).cons

theorem Reads.mono {R' : α → List Token → Option Kind → Prop} (h : r.Reads us R)
    (hR : ∀ v ts next, R v ts next → R' v ts next) : r.Reads us R' := fun hlog => (h hlog).mono hR

theorem Reads.ahead (h : r.Reads us R) :
    r.Reads us fun v ts next => R v ts next ∧ Grammar.ahead us none = Grammar.ahead ts next :=
  fun hlog => (h hlog).ahead

end Run

theorem expect_reads (stop : Position) (kind : Kind) (problem : Token → Problem)
    (us : List Token) :
    (expect stop kind problem us).outcome.Reads us fun t ts _ => t.kind = kind ∧ ts = [t] := by
  intro t rest h
  obtain ⟨rfl, hk⟩ := outcome_expect_eq_done.1 h
  exact ⟨[t], rfl, hk, rfl⟩

namespace Parse

variable (stop : Position)

/-- The tokens spell an expression whose operators bind tighter than the level, and no such
operator is next. -/
def AtLevel (level : Precedence) (e : Expr Token) (ts : List Token) (next : Option Kind) : Prop :=
  ∃ s, Phrase e ts s ∧ s.Above level ∧ Stops level next

def IsOperand (e : Expr Token) (ts : List Token) (next : Option Kind) : Prop :=
  ∃ s, Phrase e ts s ∧ (∀ level, s.Above level) ∧ s.Ends next

mutual

theorem expr_reads (level : Precedence) (ts : List Token) :
    (expr stop level ts).outcome.Reads ts (AtLevel level) := by
  match ts with
  | [] =>
    rw [outcome_expr_nil]
    exact Outcome.reads_failed _ _
  | t :: us =>
    rw [outcome_expr_cons]
    exact exprFrom_reads level t us
termination_by 4 * ts.length

theorem exprFrom_reads (level : Precedence) (t : Token) (us : List Token) :
    (exprFrom stop level t us).outcome.Reads (t :: us) (AtLevel level) := by
  rw [outcome_exprFrom]
  refine (operand_reads t us).bind fun left ls vs hdone ⟨s, hleft, habove, hends⟩ => ?_
  have hlen := (Attempt.suffix_of_outcome hdone).length_le
  exact extend_reads level left vs hleft (habove level) hends
termination_by 4 * us.length + 3

theorem operand_reads (t : Token) (us : List Token) :
    (operand stop t us).outcome.Reads (t :: us) IsOperand := by
  rcases operand_cases t with ⟨e | e, hlit⟩ | hun | hparen | hnone
  · rw [outcome_operand_of_literal stop us hlit]
    exact Outcome.reads_failed _ _
  · rw [outcome_operand_of_literal stop us hlit]
    exact Outcome.reads_done [t] ⟨.closed, .literal hlit, fun _ => trivial, trivial⟩
  · rw [outcome_operand_of_isUnary stop us hun, outcome_unary]
    refine ((expr_reads .unary us).map ?_).cons
    rintro e ts next ⟨s, he, habove, hstops⟩
    exact ⟨.unary, .unary hun he habove, fun _ => trivial, hstops⟩
  · rw [outcome_operand_of_leftParen stop us hparen, outcome_grouped]
    refine ((expr_reads .lowest us).bind ?_).cons
    rintro e ts vs - ⟨s, he, -, -⟩
    refine (expect_reads stop _ _ vs).map ?_
    rintro rp _ next ⟨hrp, rfl⟩
    exact ⟨.closed, .group hparen he hrp, fun _ => trivial, trivial⟩
  · rw [outcome_operand_of_not_startsExpr stop us hnone]
    exact Outcome.reads_failed _ _
termination_by 4 * us.length + 2

theorem extend_reads (level : Precedence) (left : Expr Token) (ts : List Token)
    {ls : List Token} {s : Shape} (hleft : Phrase left ls s) (habove : s.Above level)
    (hends : s.Ends (ahead ts none)) :
    (extend stop level left ts).outcome.Reads ts
      fun e us next => AtLevel level e (ls ++ us) next := by
  match ts with
  | [] =>
    rw [outcome_extend_nil]
    refine Outcome.reads_done [] ⟨s, ?_, habove, stops_none level⟩
    rwa [List.append_nil]
  | op :: us =>
    by_cases hlt : level < .of op.kind
    · rw [outcome_extend_of_lt stop left us hlt]
      have hfits : s.LeftOf op.kind := (hleft.leftOf_iff op.kind).2 hends
      refine (extendOnce_reads level left op us hleft hfits hlt).bind ?_
      rintro e vs rest hdone ⟨s', he, habove', hends'⟩
      have hlen := (Attempt.suffix_of_outcome hdone).length_le
      refine (extend_reads level e rest he habove' hends').mono ?_
      intro e' ws next h
      rwa [List.append_assoc] at h
    · rw [outcome_extend_of_not_lt stop left us hlt]
      refine Outcome.reads_done [] ⟨s, ?_, habove, stops_some.2 hlt⟩
      rwa [List.append_nil]
termination_by 4 * ts.length

theorem extendOnce_reads (level : Precedence) (left : Expr Token) (op : Token) (us : List Token)
    {ls : List Token} {s : Shape} (hleft : Phrase left ls s) (hfits : s.LeftOf op.kind)
    (hlt : level < .of op.kind) :
    (extendOnce stop left op us).outcome.Reads (op :: us) fun e vs next =>
      ∃ s, Phrase e (ls ++ vs) s ∧ s.Above level ∧ s.Ends next := by
  rw [outcome_extendOnce]
  split
  · next hparen =>
    by_cases hname : ∃ n, left = .name n
    · obtain ⟨n, rfl⟩ := hname
      rw [outcome_call_name]
      refine ((arguments_reads us).map ?_).cons
      intro es vs next hes
      exact ⟨.closed, .call hleft hparen hes, trivial, trivial⟩
    · rw [outcome_call_of_not_name stop op us (not_exists.1 hname)]
      exact Outcome.reads_failed _ _
  · next hparen =>
    have hbinary : op.kind.isBinary = true :=
      (Kind.isBinary_iff _).2 ⟨Nat.lt_of_le_of_lt (Nat.zero_le _) hlt, hparen⟩
    rw [outcome_binary]
    refine ((expr_reads op.kind.operandLevel us).map ?_).cons
    rintro r rs next ⟨s', hr, habove, hstops⟩
    exact ⟨.binary op.kind, .binary hbinary hleft hfits hr ((s'.rightOf_iff hbinary).2 habove),
      hlt, hstops⟩
termination_by 4 * us.length + 3

theorem arguments_reads (us : List Token) :
    (arguments stop us).outcome.Reads us fun es ts _ => Arguments es ts := by
  match us with
  | [] =>
    rw [outcome_arguments_nil]
    exact Outcome.reads_failed _ _
  | t :: vs =>
    rw [outcome_arguments_cons]
    split
    · next hclose => exact Outcome.reads_done [t] (.none hclose)
    · refine (expr_reads .lowest (t :: vs)).bind ?_
      rintro e ts rest hdone ⟨s, he, -, -⟩
      have hlen : rest.length ≤ vs.length + 1 := (Attempt.suffix_of_outcome hdone).length_le
      refine (moreArguments_reads rest).map ?_
      intro es ws next hes
      exact .some he hes
termination_by 4 * us.length + 1

theorem moreArguments_reads (us : List Token) :
    (moreArguments stop us).outcome.Reads us fun es ts _ => MoreArguments es ts := by
  match us with
  | [] =>
    rw [outcome_moreArguments_nil]
    exact Outcome.reads_failed _ _
  | t :: vs =>
    rw [outcome_moreArguments_cons]
    split
    · next hcomma =>
      refine Outcome.Reads.cons ((expr_reads .lowest vs).bind ?_)
      rintro e ts rest hdone ⟨s, he, -, -⟩
      have hlen := (Attempt.suffix_of_outcome hdone).length_le
      refine (moreArguments_reads rest).map ?_
      intro es ws next hes
      exact .comma hcomma he hes
    · refine (expect_reads stop _ _ (t :: vs)).map ?_
      rintro rp _ next ⟨hrp, rfl⟩
      exact .close hrp
termination_by 4 * us.length

end

theorem expression_reads (us : List Token) :
    (expr stop .lowest us).outcome.Reads us
      fun e ts next => Expression e ts ∧ Stops .lowest next := by
  refine (expr_reads stop .lowest us).mono ?_
  rintro e ts next ⟨s, he, -, hstops⟩
  exact ⟨⟨s, he⟩, hstops⟩

theorem exprStmt_reads {t : Token} {us : List Token} (h : StartsBare t (ahead us none)) :
    (exprStmt stop t us).outcome.Reads (t :: us) Statement := by
  rw [outcome_exprStmt]
  intro s rest hdone
  obtain ⟨e, hexpr, rfl⟩ := Outcome.map_eq_done.1 hdone
  obtain ⟨ts, hts, s, he, -, hstops⟩ := exprFrom_reads stop .lowest t us e rest hexpr
  obtain ⟨u, vs, rfl, -⟩ := he.exists_cons
  rw [List.cons_append] at hts
  obtain ⟨rfl, rfl⟩ := List.cons.inj hts
  rw [ahead_append] at h
  exact ⟨t :: vs, rfl, .expression ⟨s, he⟩ h hstops⟩

theorem nameStmt_reads {t : Token} (us : List Token) (ht : t.kind = .identifier) :
    (nameStmt stop t us).outcome.Reads (t :: us) Statement := by
  cases us with
  | nil =>
    rw [outcome_nameStmt_nil]
    exact exprStmt_reads stop (.inr ⟨ht, nofun, nofun⟩)
  | cons u vs =>
    rw [outcome_nameStmt_cons]
    split
    · next hu =>
      rw [outcome_assignment, Outcome.map_map]
      refine ((expression_reads stop vs).map ?_).cons.cons
      rintro e ts next ⟨he, hstops⟩
      exact .assign ht hu he hstops
    split
    · next hu =>
      rw [outcome_callStmt]
      refine ((arguments_reads stop vs).map ?_).cons.cons
      intro es ts next hes
      exact .call ht hu hes
    · next hassign hparen =>
      refine exprStmt_reads stop (.inr ⟨ht, ?_, ?_⟩)
      · simpa using hassign
      · simpa using hparen

theorem localStmt_reads {t : Token} (us : List Token) (ht : t.kind = .kwLocal) :
    (localStmt stop t us).outcome.Reads (t :: us) Statement := by
  rw [outcome_localStmt]
  refine Outcome.Reads.cons ((expect_reads stop _ _ us).bind ?_)
  rintro n _ vs - ⟨hn, rfl⟩
  refine (expect_reads stop _ _ vs).bind ?_
  rintro eq _ ws - ⟨heq, rfl⟩
  rw [outcome_assignment, Outcome.map_map]
  refine (expression_reads stop ws).map ?_
  rintro e ts next ⟨he, hstops⟩
  exact .localAssign ht hn heq he hstops

theorem returnStmt_reads {t : Token} (us : List Token) (ht : t.kind = .kwReturn) :
    (returnStmt stop t us).outcome.Reads (t :: us) Statement := by
  rw [outcome_returnStmt]
  split
  · next hends => exact Outcome.reads_done [t] (.ret ht ((endsStmt_iff us).1 hends))
  · refine Outcome.Reads.cons ((expression_reads stop us).bind ?_)
    rintro e ts vs - ⟨he, -⟩
    rw [outcome_expectEnd]
    split
    · next hends =>
      refine Outcome.reads_done [] ?_
      rw [List.append_nil]
      exact .retValue ht he ((endsStmt_iff vs).1 hends)
    · exact Outcome.reads_failed _ _

/-! Headers. -/

theorem moreParameters_reads (us : List Token) :
    (moreParameters stop us).outcome.Reads us fun r ts _ => MoreParameters r.2 r.1 ts := by
  match us with
  | [] =>
    rw [outcome_moreParameters_nil]
    exact Outcome.reads_failed _ _
  | t :: vs =>
    rw [outcome_moreParameters_cons]
    split
    · next hcomma =>
      refine Outcome.Reads.cons ((expect_reads stop _ _ vs).bind ?_)
      rintro p _ rest hdone ⟨hp, rfl⟩
      have hlen := (Attempt.suffix_of_outcome hdone).length_le
      refine (moreParameters_reads rest).map ?_
      intro r ts next hps
      exact .comma hcomma hp hps
    · refine (expect_reads stop _ _ (t :: vs)).map ?_
      rintro rp _ next ⟨hrp, rfl⟩
      exact .close hrp
termination_by us.length

theorem parameters_reads (us : List Token) :
    (parameters stop us).outcome.Reads us fun r ts _ => Parameters r.2 r.1 ts := by
  cases us with
  | nil =>
    rw [outcome_parameters_nil]
    exact Outcome.reads_failed _ _
  | cons t vs =>
    rw [outcome_parameters_cons]
    split
    · next hclose => exact Outcome.reads_done [t] (.none hclose)
    · refine (expect_reads stop _ _ (t :: vs)).bind ?_
      rintro p _ rest - ⟨hp, rfl⟩
      refine (moreParameters_reads stop rest).map ?_
      intro r ts next hps
      exact .some hp hps

theorem step_reads {us rest : List Token} {d : Token} {st : Expr Token}
    (h : (step stop us).outcome = .done st (d :: rest)) :
    ∃ sts, us = sts ++ d :: rest ∧ Step d st sts := by
  cases us with
  | nil => simp at h
  | cons t vs =>
    rw [outcome_step_cons] at h
    split at h
    · next hcomma =>
      obtain ⟨ts, rfl, he, -⟩ := expression_reads stop vs st (d :: rest) h
      exact ⟨t :: ts, rfl, .given hcomma he⟩
    · cases h
      exact ⟨[], rfl, .omitted⟩

theorem forHeader_reads (us : List Token) :
    (forHeader stop us).outcome.Reads us fun h ts _ => ForHead h ts := by
  rw [outcome_forHeader]
  refine (expect_reads stop _ _ us).bind ?_
  rintro n _ us - ⟨hn, rfl⟩
  refine (expect_reads stop _ _ us).bind ?_
  rintro eq _ us - ⟨heq, rfl⟩
  rw [outcome_assignment]
  refine ((expression_reads stop us).map (S := fun a ts _ =>
    ∃ i, a = ⟨n, .ofToken n, i, false⟩ ∧ Expression i ts) ?_).bind ?_
  · rintro i ts next ⟨hi, -⟩
    exact ⟨i, rfl, hi⟩
  rintro _ is us - ⟨i, rfl, hi⟩
  refine (expect_reads stop _ _ us).bind ?_
  rintro c _ us - ⟨hc, rfl⟩
  refine (expression_reads stop us).bind ?_
  rintro l ls us - ⟨hl, -⟩
  -- The default step stands at the token that opens the block, so both are read together.
  intro h rest hdone
  obtain ⟨st, vs, hstep, hopen⟩ := Outcome.bind_eq_done.1 hdone
  obtain ⟨d, hdo, rfl⟩ := Outcome.map_eq_done.1 hopen
  obtain ⟨rfl, hd⟩ := outcome_expect_eq_done.1 hdo
  obtain ⟨sts, rfl, hst⟩ := step_reads stop hstep
  exact ⟨sts ++ [d], by simp, .mk hn heq hi hc hl hst hd⟩

theorem functionHeader_reads (us : List Token) :
    (functionHeader stop us).outcome.Reads us fun h ts _ => FunctionHead h ts := by
  rw [outcome_functionHeader]
  refine (expect_reads stop _ _ us).bind ?_
  rintro n _ us - ⟨hn, rfl⟩
  refine (expect_reads stop _ _ us).bind ?_
  rintro lp _ us - ⟨hlp, rfl⟩
  refine (parameters_reads stop us).map ?_
  intro r ts next hps
  exact .mk hn hlp hps

/-! Statements and blocks. -/

theorem closing_reads {α : Type} {form : Form} {kind : Kind} {what : String} {ts : List Token}
    {v : α} {R : α → List Token → Option Kind → Prop}
    (h : ∀ e rest, ts = e :: rest → e.kind = kind → R v [e] (ahead rest none)) :
    ((closing stop form kind what ts).outcome.map fun _ => v).Reads ts R := by
  intro w rest hdone
  obtain ⟨e, hhere, rfl⟩ := Outcome.map_eq_done.1 hdone
  obtain ⟨rfl, hk⟩ := outcome_expectHere_eq_done.1 hhere
  exact ⟨[e], rfl, h e rest rfl hk⟩

mutual

theorem stmtFrom_reads (t : Token) (us : List Token) :
    (stmtFrom stop t us).run.Reads (t :: us) Statement := by
  rw [run_stmtFrom]
  split
  · next ht => exact (nameStmt_reads stop us ht).run
  · next ht => exact (localStmt_reads stop us ht).run
  · next ht => exact (returnStmt_reads stop us ht).run
  · next ht => exact ((condStmt_reads t us).mono fun s ts next hs => .cond ht hs).cons
  · next ht => exact (whileStmt_reads us ht).cons
  · next ht => exact (forStmt_reads us ht).cons
  · next ht => exact (repeatStmt_reads us ht).cons
  · next ht => exact (functionStmt_reads us ht).cons
  · next =>
    refine (exprStmt_reads stop (.inl ?_)).run
    cases hk : t.kind <;> simp_all [Kind.startsStmt]
termination_by 4 * us.length + 3

theorem statements_reads (construct terminator : Kind) (ts : List Token) :
    (statements stop construct terminator ts).run.Reads ts Statements := by
  match ts with
  | [] =>
    rw [run_statements_nil]
    exact fun _ => Outcome.reads_failed _ _
  | t :: us =>
    by_cases hend : t.kind.isBlockEnd = true
    · rw [run_statements_of_blockEnd stop _ _ us hend]
      exact fun _ => Outcome.reads_done [] .nil
    by_cases hsep : t.kind.isSeparator = true
    · rw [run_statements_of_separator stop _ _ us hsep]
      exact ((statements_reads construct terminator us).mono
        fun ss ts next hss => .separator hsep hss).cons
    rcases hrun : (stmtFrom stop t us).run with ⟨log, ⟨s, rest⟩ | ⟨d, halt⟩⟩
    · rw [run_statements_of_done stop _ _ hend hsep hrun]
      intro hlog
      obtain ⟨rfl, hlog⟩ := List.append_eq_nil_iff.1 hlog
      have hlen := (Logged.suffix_of_run hrun).length_le
      have hstmt := stmtFrom_reads t us
      rw [hrun] at hstmt
      obtain ⟨ts, hts, hs⟩ := hstmt rfl s rest rfl
      rw [hts]
      intro ss rest' hdone
      obtain ⟨ss, hdone', rfl⟩ := Outcome.map_eq_done.1 hdone
      obtain ⟨us, rfl, hss⟩ := statements_reads construct terminator rest hlog ss rest' hdone'
      rw [ahead_append] at hs
      exact ⟨ts ++ us, (List.append_assoc ts us rest').symm, .cons hs hss⟩
    · rw [run_statements_of_failed stop _ _ hend hsep hrun]
      intro hlog
      simp [Run.after] at hlog
termination_by 4 * ts.length

theorem block_reads (construct terminator : Kind) (opener : Token) (us : List Token) :
    (block stop construct terminator opener us).run.Reads us
      fun b ts next => b.token = opener ∧ Statements b.body ts next := by
  rw [run_block]
  exact (statements_reads construct terminator us).map fun ss ts next hss => ⟨rfl, hss⟩
termination_by 4 * us.length + 1

theorem condStmt_reads (t : Token) (us : List Token) :
    (condStmt stop t us).run.Reads us fun s ts _ => Branch t s ts := by
  rw [run_condStmt]
  refine (expression_reads stop us).run.bind ?_
  rintro c cs vs hc ⟨hcond, -⟩
  have hvs := (Attempt.suffix_of_outcome hc).length_le
  refine (expect_reads stop _ _ vs).run.bind ?_
  rintro th _ ws hth ⟨hthen, rfl⟩
  have hws := (Attempt.suffix_of_outcome hth).length_le
  refine (block_reads .kwIf .kwEnd th ws).bind ?_
  rintro ⟨opener, ss⟩ bs xs hb ⟨rfl, hss⟩
  have hxs := (Attempt.suffix_of_outcome hb).length_le
  refine (alternative_reads xs).ahead.map ?_
  rintro a as next ⟨ha, hahead⟩
  obtain ⟨u, as, rfl, -⟩ := ha.exists_cons
  rw [hahead] at hss
  have hbranch : Branch t _ (cs ++ opener :: (bs ++ u :: as)) := .mk hcond hthen hss ha
  exact hbranch
termination_by 4 * us.length + 2

theorem alternative_reads (ts : List Token) :
    (alternative stop ts).run.Reads ts fun a us _ => Alternative a us := by
  match ts with
  | [] =>
    rw [run_alternative_nil]
    exact (closing_reads stop fun e rest h => absurd h (by simp)).run
  | t :: us =>
    rw [run_alternative_cons]
    split
    · next ht =>
      exact ((condStmt_reads t us).map fun s ts next hs => .branch ht hs).cons
    split
    · next ht =>
      refine Run.Reads.cons ((block_reads .kwIf .kwEnd t us).bind ?_)
      rintro ⟨_, ss⟩ bs vs - ⟨rfl, hss⟩
      refine (closing_reads stop ?_).run
      rintro e rest rfl he
      rw [ahead_cons, he] at hss
      exact .block ht hss he
    · refine (closing_reads stop ?_).run
      rintro e rest - he
      exact .none he
termination_by 4 * ts.length + 1

theorem whileStmt_reads {t : Token} (us : List Token) (ht : t.kind = .kwWhile) :
    (whileStmt stop t us).run.Reads us fun s ts next => Statement s (t :: ts) next := by
  rw [run_whileStmt]
  refine (expression_reads stop us).run.bind ?_
  rintro c cs vs hc ⟨hcond, -⟩
  have hvs := (Attempt.suffix_of_outcome hc).length_le
  refine (expect_reads stop _ _ vs).run.bind ?_
  rintro d _ ws hd ⟨hdo, rfl⟩
  have hws := (Attempt.suffix_of_outcome hd).length_le
  refine (block_reads .kwWhile .kwEnd d ws).bind ?_
  rintro ⟨_, ss⟩ bs xs - ⟨rfl, hss⟩
  refine (closing_reads stop ?_).run
  rintro e rest rfl he
  rw [ahead_cons, he] at hss
  exact .whileLoop ht hcond hdo hss he
termination_by 4 * us.length + 2

theorem forStmt_reads {t : Token} (us : List Token) (ht : t.kind = .kwFor) :
    (forStmt stop t us).run.Reads us fun s ts next => Statement s (t :: ts) next := by
  rw [run_forStmt]
  refine (forHeader_reads stop us).run.bind ?_
  intro h hs vs hh hhead
  have hvs := (Attempt.suffix_of_outcome hh).length_le
  refine (block_reads .kwFor .kwEnd h.opener vs).bind ?_
  rintro ⟨_, ss⟩ bs ws - ⟨rfl, hss⟩
  refine (closing_reads stop ?_).run
  rintro e rest rfl he
  rw [ahead_cons, he] at hss
  exact .forLoop ht hhead hss he
termination_by 4 * us.length + 2

theorem repeatStmt_reads {t : Token} (us : List Token) (ht : t.kind = .kwRepeat) :
    (repeatStmt stop t us).run.Reads us fun s ts next => Statement s (t :: ts) next := by
  rw [run_repeatStmt]
  refine (block_reads .kwRepeat .kwUntil t us).bind ?_
  rintro ⟨_, ss⟩ bs vs - ⟨rfl, hss⟩
  refine Outcome.Reads.run (R := fun u ts _ => u.kind = .kwUntil ∧ ts = [u] ∧
    Statements ss bs (some .kwUntil)) ?_ |>.bind ?_
  · intro u rest hdone
    obtain ⟨rfl, hu⟩ := outcome_expectHere_eq_done.1 hdone
    rw [ahead_cons, hu] at hss
    exact ⟨[u], rfl, hu, rfl, hss⟩
  rintro u _ ws - ⟨hu, rfl, hss⟩
  refine ((expression_reads stop ws).map ?_).run
  rintro c cs next ⟨hc, hstops⟩
  exact .repeatLoop ht hss hu hc hstops
termination_by 4 * us.length + 2

theorem functionStmt_reads {t : Token} (us : List Token) (ht : t.kind = .kwFunction) :
    (functionStmt stop t us).run.Reads us fun s ts next => Statement s (t :: ts) next := by
  rw [run_functionStmt]
  refine (functionHeader_reads stop us).run.bind ?_
  intro h hs vs hh hhead
  have hvs := (Attempt.suffix_of_outcome hh).length_le
  refine (block_reads .kwFunction .kwEnd h.opener vs).bind ?_
  rintro ⟨_, ss⟩ bs ws - ⟨rfl, hss⟩
  refine (closing_reads stop ?_).run
  rintro e rest rfl he
  rw [ahead_cons, he] at hss
  exact .function ht hhead hss he
termination_by 4 * us.length + 2

end

end Parse

theorem Parsed.sentence_of_clean (stop : Position) (ts : List Token)
    (h : (ofTokens stop ts).diagnostics = []) : Sentence (ofTokens stop ts).program ts := by
  match ts with
  | [] =>
    rw [ofTokens_nil]
    exact .nil
  | t :: us =>
    by_cases hsep : t.kind.isSeparator = true
    · rw [ofTokens_of_separator stop us hsep] at h ⊢
      exact .separator hsep (sentence_of_clean stop us h)
    have hstmt := Parse.stmtFrom_reads stop t us
    rcases hrun : (Parse.stmtFrom stop t us).run with ⟨log, ⟨s, rest⟩ | ⟨d, halt⟩⟩
    · rw [ofTokens_of_done stop hsep hrun] at h ⊢
      obtain ⟨rfl, hmore⟩ := List.append_eq_nil_iff.1 h
      have hlen := (Logged.suffix_of_run hrun).length_le
      rw [hrun] at hstmt
      obtain ⟨ts, hts, hs⟩ := hstmt rfl s rest rfl
      rw [hts]
      exact .cons hs (sentence_of_clean stop rest hmore)
    · rw [ofTokens_of_failed stop hsep hrun] at h
      simp at h
termination_by ts.length

end LuaSyntax
