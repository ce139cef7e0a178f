import Mathlib.Data.List.Nodup
import LuaSyntax.Proofs.EmbeddedProgram
import LuaSyntax.Proofs.Lexicon
import LuaSyntax.Proofs.Places

/-! Where diagnostics are. A failure is reported at the token where reading stops, and reading goes
on no earlier than that, so the diagnostics of a source stand in its order. -/

namespace LuaSyntax

open Outcome

def Problem.Describes (t : Token) : Problem → Prop
  | noExpression kind text => kind = t.kind ∧ text = t.value
  | numeral text => text = t.value
  | boolean _ => False
  | unclosedBlock _ _ => t.kind = .endOfInput
  | unclosedGroup _ | malformed _ _ | unexpected _ _ => True

section

variable (stop : Position)

def Diagnostic.Meets (d : Diagnostic) (ts : List Token) : Prop :=
  d.position = (ts.headD (.eof stop)).start ∧ d.problem.Describes (ts.headD (.eof stop))

/-- The diagnostics of a reading that goes from `ts` to `us`, both the ends of one list of tokens:
each is at a token between the one before it and `us`. -/
inductive Trail : List Token → List Diagnostic → List Token → Prop
  | nil {ts us} (h : us <:+ ts) : Trail ts [] us
  | cons {ts us vs d ds} (h : us <:+ ts) (hd : d.Meets stop us) (hds : Trail us ds vs) :
      Trail ts (d :: ds) vs

end

variable {stop : Position}

namespace Trail

variable {ts us vs : List Token} {ds es : List Diagnostic}

theorem weaken (h : Trail stop us ds vs) (hus : us <:+ ts) : Trail stop ts ds vs := by
  cases h with
  | nil hvs => exact .nil (hvs.trans hus)
  | cons hmid hd hds => exact .cons (hmid.trans hus) hd hds

theorem append (h : Trail stop ts ds us) (h' : Trail stop us es vs) :
    Trail stop ts (ds ++ es) vs := by
  induction h with
  | nil hus => exact h'.weaken hus
  | cons hmid hd _ ih => exact .cons hmid hd (ih h')

theorem single {d : Diagnostic} (hus : us <:+ ts) (hd : d.Meets stop us) :
    Trail stop ts [d] us := .cons hus hd (.nil List.suffix_rfl)

theorem shorten (h : Trail stop ts ds us) (hvs : vs <:+ us) : Trail stop ts ds vs := by
  have happend := h.append (.nil hvs)
  rwa [List.append_nil] at happend

end Trail

/-! Attempts and runs. -/

def Outcome.Halts {α : Type} (stop : Position) (o : Outcome α) : Prop :=
  ∀ d halt, o = .failed d halt → d.Meets stop halt.rest

namespace Outcome

variable {α β : Type} {o : Outcome α}

theorem halts_done (a : α) (rest : List Token) : (done a rest).Halts stop := by
  intro d halt h
  cases h

theorem halts_failed {d : Diagnostic} {halt : Halt} (h : d.Meets stop halt.rest) :
    (failed d halt : Outcome α).Halts stop := by
  intro d' halt' heq
  cases heq
  exact h

theorem Halts.map (h : o.Halts stop) (f : α → β) : (o.map f).Halts stop := by
  cases o with
  | done a rest => exact halts_done _ _
  | failed d halt => exact halts_failed (h d halt rfl)

theorem Halts.bind {f : α → List Token → Outcome β} (h : o.Halts stop)
    (hf : ∀ a rest, o = done a rest → (f a rest).Halts stop) : (o.bind f).Halts stop := by
  cases o with
  | done a rest => exact hf a rest rfl
  | failed d halt => exact halts_failed (h d halt rfl)

end Outcome

def Run.Trails {α : Type} (stop : Position) (ts : List Token) (r : Run α) : Prop :=
  Trail stop ts r.diagnostics r.outcome.rest

namespace Run

variable {α β : Type} {r : Run α} {ts us : List Token}

theorem Trails.weaken (h : r.Trails stop us) (hus : us <:+ ts) : r.Trails stop ts :=
  Trail.weaken h hus

theorem Trails.map (h : r.Trails stop ts) (f : α → β) : (r.map f).Trails stop ts := by
  obtain ⟨log, o⟩ := r
  cases o <;> exact h

theorem Trails.after {log : List Diagnostic} (h : r.Trails stop us)
    (hlog : Trail stop ts log us) : (r.after log).Trails stop ts := by
  rw [Run.Trails, diagnostics_after]
  exact hlog.append h

theorem Trails.bind {f : α → List Token → Run β} (h : r.Trails stop ts)
    (hf : ∀ a rest, r.outcome = .done a rest → (f a rest).Trails stop rest) :
    (r.bind f).Trails stop ts := by
  obtain ⟨log, o⟩ := r
  cases o with
  | done a rest => exact (hf a rest rfl).after h
  | failed d halt => exact h

end Run

theorem Attempt.trails {α : Type} {lead us : List Token} {a : Attempt α lead us}
    (h : a.outcome.Halts stop) : a.outcome.run.Trails stop (lead ++ us) := by
  cases a with
  | done v rest hrest => exact .nil (hrest.trans (List.suffix_append lead us))
  | failed d halt hw =>
    have hd : d.Meets stop halt.rest := h d halt rfl
    cases halt with
    | on rest => exact Trail.single hw hd
    | before rest => exact Trail.single (List.IsSuffix.trans hw (List.suffix_append lead us)) hd

theorem Halt.resume_suffix_rest (halt : Halt) : halt.resume <:+ halt.rest := by
  cases halt with
  | on rest =>
    cases rest with
    | nil => exact List.suffix_rfl
    | cons t ts =>
      rw [resume]
      split
      · exact List.suffix_cons t ts
      · exact (skipLine_suffix ts).trans (List.suffix_cons t ts)
  | before rest => exact skipLine_suffix rest

theorem Halt.resumeInBlock_suffix_rest (halt : Halt) : halt.resumeInBlock <:+ halt.rest := by
  unfold resumeInBlock
  split
  · split
    · exact List.suffix_rfl
    · exact resume_suffix_rest _
  · exact resume_suffix_rest _

def AllSpelled (ts : List Token) : Prop := ∀ t ∈ ts, t.Spelled

theorem AllSpelled.of_suffix {ts us : List Token} (h : AllSpelled ts) (hus : us <:+ ts) :
    AllSpelled us := fun t ht => h t (hus.subset ht)

theorem AllSpelled.tail {t : Token} {ts : List Token} (h : AllSpelled (t :: ts)) :
    AllSpelled ts := h.of_suffix (List.suffix_cons t ts)

/-- A token that denotes no expression is a numeral: the words for truth values all denote one. -/
theorem describes_of_ofToken? {t : Token} {p : Problem} (h : Expr.ofToken? t = some (.error p))
    (ht : t.Spelled) : p.Describes t := by
  have hboolean : t.kind = .kwTrue ∨ t.kind = .kwFalse → Expr.ofBoolean t ≠ .error p := by
    intro hk
    have hvalue := ht (by rcases hk with hk | hk <;> rw [hk] <;> decide)
    unfold Expr.ofBoolean
    rcases hk with hk | hk <;> simp [hvalue, hk, Kind.text]
  unfold Expr.ofToken? at h
  split at h
  · cases h
  · unfold Expr.ofNumeral at h
    split at h <;> cases h
    rfl
  · next hk => exact absurd (Option.some.inj h) (hboolean (.inl hk))
  · next hk => exact absurd (Option.some.inj h) (hboolean (.inr hk))
  · cases h
  · cases h
  · cases h

theorem expect_halts (stop : Position) (kind : Kind) (problem : Token → Problem) (ts : List Token)
    (hproblem : ∀ t, (problem t).Describes t := by exact fun _ => trivial) :
    (expect stop kind problem ts).outcome.Halts stop := by
  cases ts with
  | nil => exact halts_failed ⟨rfl, hproblem _⟩
  | cons t us =>
    rw [outcome_expect_cons]
    split
    · exact halts_done t us
    · exact halts_failed ⟨rfl, hproblem t⟩

namespace Parse

variable (stop : Position)

theorem closing_halts (form : Form) (kind : Kind) (what : String) (ts : List Token) :
    (closing stop form kind what ts).outcome.Halts stop := by
  rw [closing]
  cases ts with
  | nil => exact halts_failed ⟨rfl, trivial⟩
  | cons t us =>
    rw [outcome_expectHere_cons]
    split
    · exact halts_done t us
    · exact halts_failed ⟨rfl, trivial⟩

mutual

theorem expr_halts (level : Precedence) (ts : List Token) (hts : AllSpelled ts) :
    (expr stop level ts).outcome.Halts stop := by
  match ts with
  | [] =>
    rw [outcome_expr_nil]
    exact halts_failed ⟨rfl, rfl, rfl⟩
  | t :: us =>
    rw [outcome_expr_cons]
    exact exprFrom_halts level t us hts
termination_by 4 * ts.length

theorem exprFrom_halts (level : Precedence) (t : Token) (us : List Token)
    (hts : AllSpelled (t :: us)) : (exprFrom stop level t us).outcome.Halts stop := by
  rw [outcome_exprFrom]
  apply (operand_halts t us hts).bind
  intro left vs hdone
  have hsuffix := Attempt.suffix_of_outcome hdone
  have hlen := hsuffix.length_le
  exact extend_halts level left vs (hts.tail.of_suffix hsuffix)
termination_by 4 * us.length + 3

theorem operand_halts (t : Token) (us : List Token) (hts : AllSpelled (t :: us)) :
    (operand stop t us).outcome.Halts stop := by
  rcases operand_cases t with ⟨p | e, hlit⟩ | hun | hparen | hnone
  · rw [outcome_operand_of_literal stop us hlit]
    have hdescribes := describes_of_ofToken? hlit (hts t List.mem_cons_self)
    exact halts_failed ⟨rfl, hdescribes⟩
  · rw [outcome_operand_of_literal stop us hlit]
    exact halts_done e us
  · rw [outcome_operand_of_isUnary stop us hun, outcome_unary]
    exact (expr_halts .unary us hts.tail).map _
  · rw [outcome_operand_of_leftParen stop us hparen, outcome_grouped]
    apply (expr_halts .lowest us hts.tail).bind
    intro e vs _
    exact (expect_halts stop _ _ vs).map _
  · rw [outcome_operand_of_not_startsExpr stop us hnone]
    exact halts_failed ⟨rfl, rfl, rfl⟩
termination_by 4 * us.length + 2

theorem extend_halts (level : Precedence) (left : Expr Token) (ts : List Token)
    (hts : AllSpelled ts) : (extend stop level left ts).outcome.Halts stop := by
  match ts with
  | [] =>
    rw [outcome_extend_nil]
    exact halts_done left []
  | op :: us =>
    by_cases hlt : level < .of op.kind
    · rw [outcome_extend_of_lt stop left us hlt]
      apply (extendOnce_halts left op us hts.tail).bind
      intro e rest hdone
      have hsuffix := Attempt.suffix_of_outcome hdone
      have hlen := hsuffix.length_le
      exact extend_halts level e rest (hts.tail.of_suffix hsuffix)
    · rw [outcome_extend_of_not_lt stop left us hlt]
      exact halts_done left _
termination_by 4 * ts.length

theorem extendOnce_halts (left : Expr Token) (op : Token) (us : List Token)
    (hus : AllSpelled us) : (extendOnce stop left op us).outcome.Halts stop := by
  rw [outcome_extendOnce]
  split
  · by_cases hname : ∃ n, left = .name n
    · obtain ⟨n, rfl⟩ := hname
      rw [outcome_call_name]
      exact (arguments_halts us hus).map _
    · rw [outcome_call_of_not_name stop op us (not_exists.1 hname)]
      exact halts_failed ⟨rfl, trivial⟩
  · rw [outcome_binary]
    exact (expr_halts op.kind.operandLevel us hus).map _
termination_by 4 * us.length + 3

theorem arguments_halts (us : List Token) (hus : AllSpelled us) :
    (arguments stop us).outcome.Halts stop := by
  match us with
  | [] =>
    rw [outcome_arguments_nil]
    exact halts_failed ⟨rfl, rfl, rfl⟩
  | t :: vs =>
    rw [outcome_arguments_cons]
    split
    · exact halts_done [] vs
    · apply (expr_halts .lowest (t :: vs) hus).bind
      intro e rest hdone
      have hsuffix := Attempt.suffix_of_outcome hdone
      have hlen : rest.length ≤ vs.length + 1 := hsuffix.length_le
      exact (moreArguments_halts rest (hus.of_suffix hsuffix)).map _
termination_by 4 * us.length + 1

theorem moreArguments_halts (us : List Token) (hus : AllSpelled us) :
    (moreArguments stop us).outcome.Halts stop := by
  match us with
  | [] =>
    rw [outcome_moreArguments_nil]
    exact halts_failed ⟨rfl, trivial⟩
  | t :: vs =>
    rw [outcome_moreArguments_cons]
    split
    · apply (expr_halts .lowest vs hus.tail).bind
      intro e rest hdone
      have hsuffix := Attempt.suffix_of_outcome hdone
      have hlen := hsuffix.length_le
      exact (moreArguments_halts rest (hus.tail.of_suffix hsuffix)).map _
    · exact (expect_halts stop _ _ (t :: vs)).map _
termination_by 4 * us.length

end

theorem exprStmt_halts (t : Token) (us : List Token) (hts : AllSpelled (t :: us)) :
    (exprStmt stop t us).outcome.Halts stop := by
  rw [outcome_exprStmt]
  exact (exprFrom_halts stop .lowest t us hts).map _

theorem assignment_halts (t : Token) (name : Name Token) (isLocal : Bool) (us : List Token)
    (hus : AllSpelled us) : (assignment stop t name isLocal us).outcome.Halts stop := by
  rw [outcome_assignment]
  exact (expr_halts stop .lowest us hus).map _

theorem nameStmt_halts (t : Token) (us : List Token) (hts : AllSpelled (t :: us)) :
    (nameStmt stop t us).outcome.Halts stop := by
  cases us with
  | nil =>
    rw [outcome_nameStmt_nil]
    exact exprStmt_halts stop t [] hts
  | cons u vs =>
    have hvs := hts.tail.tail
    rw [outcome_nameStmt_cons]
    split
    · exact (assignment_halts stop t _ false vs hvs).map _
    split
    · rw [outcome_callStmt]
      exact (arguments_halts stop vs hvs).map _
    · exact exprStmt_halts stop t (u :: vs) hts

theorem localStmt_halts (t : Token) (us : List Token) (hus : AllSpelled us) :
    (localStmt stop t us).outcome.Halts stop := by
  rw [outcome_localStmt]
  refine (expect_halts stop _ _ us).bind ?_
  intro name vs hname
  have hvs := hus.of_suffix (Attempt.suffix_of_outcome hname)
  refine (expect_halts stop _ _ vs).bind ?_
  intro eq ws heq
  have hws := hvs.of_suffix (Attempt.suffix_of_outcome heq)
  exact (assignment_halts stop t _ true ws hws).map _

theorem returnStmt_halts (t : Token) (us : List Token) (hus : AllSpelled us) :
    (returnStmt stop t us).outcome.Halts stop := by
  rw [outcome_returnStmt]
  split
  · exact halts_done _ us
  · apply (expr_halts stop .lowest us hus).bind
    intro value vs _
    apply Halts.map
    rw [outcome_expectEnd]
    split
    · exact halts_done () vs
    · exact halts_failed ⟨rfl, trivial⟩

theorem moreParameters_halts (us : List Token) : (moreParameters stop us).outcome.Halts stop := by
  cases us with
  | nil =>
    rw [outcome_moreParameters_nil]
    exact halts_failed ⟨rfl, trivial⟩
  | cons t vs =>
    rw [outcome_moreParameters_cons]
    split
    · refine (expect_halts stop _ _ vs).bind ?_
      intro name rest hdone
      have hlen := (Attempt.suffix_of_outcome hdone).length_le
      exact (moreParameters_halts rest).map _
    · exact (expect_halts stop _ _ (t :: vs)).map _
termination_by us.length

theorem parameters_halts (us : List Token) : (parameters stop us).outcome.Halts stop := by
  cases us with
  | nil =>
    rw [outcome_parameters_nil]
    exact halts_failed ⟨rfl, trivial⟩
  | cons t vs =>
    rw [outcome_parameters_cons]
    split
    · exact halts_done _ vs
    · refine (expect_halts stop _ _ (t :: vs)).bind ?_
      intro name ws _
      exact (moreParameters_halts stop ws).map _

theorem step_halts (us : List Token) (hus : AllSpelled us) :
    (step stop us).outcome.Halts stop := by
  cases us with
  | nil =>
    rw [outcome_step_nil]
    exact halts_done _ []
  | cons t vs =>
    rw [outcome_step_cons]
    split
    · exact expr_halts stop .lowest vs hus.tail
    · exact halts_done _ _

theorem forHeader_halts (us : List Token) (hus : AllSpelled us) :
    (forHeader stop us).outcome.Halts stop := by
  rw [outcome_forHeader]
  refine (expect_halts stop _ _ us).bind ?_
  intro name us hname
  replace hus := hus.of_suffix (Attempt.suffix_of_outcome hname)
  refine (expect_halts stop _ _ us).bind ?_
  intro eq us heq
  replace hus := hus.of_suffix (Attempt.suffix_of_outcome heq)
  apply (assignment_halts stop name _ false us hus).bind
  intro init us hinit
  replace hus := hus.of_suffix (Attempt.suffix_of_outcome hinit)
  refine (expect_halts stop _ _ us).bind ?_
  intro comma us hcomma
  replace hus := hus.of_suffix (Attempt.suffix_of_outcome hcomma)
  apply (expr_halts stop .lowest us hus).bind
  intro limit us hlimit
  replace hus := hus.of_suffix (Attempt.suffix_of_outcome hlimit)
  apply (step_halts stop us hus).bind
  intro st us _
  exact (expect_halts stop _ _ us).map _

theorem functionHeader_halts (us : List Token) : (functionHeader stop us).outcome.Halts stop := by
  rw [outcome_functionHeader]
  refine (expect_halts stop _ _ us).bind ?_
  intro name us _
  refine (expect_halts stop _ _ us).bind ?_
  intro paren us _
  exact (parameters_halts stop us).map _

/-! Statements and blocks. -/

theorem closing_trails {α : Type} (form : Form) (kind : Kind) (what : String) (ts : List Token)
    (a : α) : ((closing stop form kind what ts).outcome.map fun _ => a).run.Trails stop ts :=
  (Attempt.trails (closing_halts stop form kind what ts)).map _

mutual

theorem stmtFrom_trails (t : Token) (us : List Token) (hts : AllSpelled (t :: us)) :
    (stmtFrom stop t us).run.Trails stop (t :: us) := by
  have hus := hts.tail
  have hsuffix := List.suffix_cons t us
  rw [run_stmtFrom]
  split
  · exact Attempt.trails (nameStmt_halts stop t us hts)
  · exact (Attempt.trails (localStmt_halts stop t us hus)).weaken hsuffix
  · exact (Attempt.trails (returnStmt_halts stop t us hus)).weaken hsuffix
  · exact (condStmt_trails t us hus).weaken hsuffix
  · exact (whileStmt_trails t us hus).weaken hsuffix
  · exact (forStmt_trails t us hus).weaken hsuffix
  · exact (repeatStmt_trails t us hus).weaken hsuffix
  · exact (functionStmt_trails t us hus).weaken hsuffix
  · exact Attempt.trails (exprStmt_halts stop t us hts)
termination_by 4 * us.length + 3

theorem statements_trails (construct terminator : Kind) (ts : List Token) (hts : AllSpelled ts) :
    (statements stop construct terminator ts).run.Trails stop ts := by
  match ts with
  | [] =>
    rw [run_statements_nil]
    exact Trail.single List.suffix_rfl ⟨rfl, rfl⟩
  | t :: us =>
    by_cases hend : t.kind.isBlockEnd = true
    · rw [run_statements_of_blockEnd stop _ _ us hend]
      exact .nil List.suffix_rfl
    by_cases hsep : t.kind.isSeparator = true
    · rw [run_statements_of_separator stop _ _ us hsep]
      exact (statements_trails construct terminator us hts.tail).weaken (List.suffix_cons t us)
    have hstmt := stmtFrom_trails t us hts
    rcases hrun : (stmtFrom stop t us).run with ⟨log, ⟨s, rest⟩ | ⟨d, halt⟩⟩
    · rw [hrun] at hstmt
      rw [run_statements_of_done stop _ _ hend hsep hrun]
      have hsuffix := Logged.suffix_of_run hrun
      have hlen := hsuffix.length_le
      have hmore := statements_trails construct terminator rest (hts.tail.of_suffix hsuffix)
      exact (hmore.map _).after hstmt
    · rw [hrun] at hstmt
      rw [run_statements_of_failed stop _ _ hend hsep hrun]
      have hwithin := Logged.within_of_run hrun
      have hsuffix := Halt.resumeInBlock_suffix hwithin
      have hlen : halt.resumeInBlock.length < us.length + 1 :=
        Halt.length_resumeInBlock_lt hwithin (by simpa using hend)
      have hmore := statements_trails construct terminator halt.resumeInBlock
        (hts.of_suffix hsuffix)
      exact hmore.after (Trail.shorten hstmt halt.resumeInBlock_suffix_rest)
termination_by 4 * ts.length

theorem block_trails (construct terminator : Kind) (opener : Token) (us : List Token)
    (hus : AllSpelled us) : (block stop construct terminator opener us).run.Trails stop us := by
  rw [run_block]
  exact (statements_trails construct terminator us hus).map _
termination_by 4 * us.length + 1

theorem condStmt_trails (t : Token) (us : List Token) (hus : AllSpelled us) :
    (condStmt stop t us).run.Trails stop us := by
  rw [run_condStmt]
  refine (Attempt.trails (expr_halts stop .lowest us hus)).bind fun c vs hc => ?_
  have hcsuffix := Attempt.suffix_of_outcome hc
  refine (Attempt.trails (expect_halts stop _ _ vs)).bind fun th ws hth => ?_
  have hthsuffix := Attempt.suffix_of_outcome hth
  have hws := (hus.of_suffix hcsuffix).of_suffix hthsuffix
  have hlen := (hthsuffix.trans hcsuffix).length_le
  refine (block_trails .kwIf .kwEnd th ws hws).bind fun b xs hb => ?_
  have hbsuffix := Attempt.suffix_of_outcome hb
  have hxlen := hbsuffix.length_le
  exact (alternative_trails xs (hws.of_suffix hbsuffix)).map _
termination_by 4 * us.length + 2

theorem alternative_trails (ts : List Token) (hts : AllSpelled ts) :
    (alternative stop ts).run.Trails stop ts := by
  match ts with
  | [] =>
    rw [run_alternative_nil]
    exact closing_trails stop _ _ _ [] _
  | t :: us =>
    have hsuffix := List.suffix_cons t us
    rw [run_alternative_cons]
    split
    · exact ((condStmt_trails t us hts.tail).map _).weaken hsuffix
    split
    · refine Run.Trails.weaken ?_ hsuffix
      refine (block_trails .kwIf .kwEnd t us hts.tail).bind fun b vs _ => ?_
      exact closing_trails stop _ _ _ vs _
    · exact closing_trails stop _ _ _ (t :: us) _
termination_by 4 * ts.length + 1

theorem whileStmt_trails (t : Token) (us : List Token) (hus : AllSpelled us) :
    (whileStmt stop t us).run.Trails stop us := by
  rw [run_whileStmt]
  refine (Attempt.trails (expr_halts stop .lowest us hus)).bind fun c vs hc => ?_
  have hcsuffix := Attempt.suffix_of_outcome hc
  refine (Attempt.trails (expect_halts stop _ _ vs)).bind fun d ws hd => ?_
  have hdsuffix := Attempt.suffix_of_outcome hd
  have hws := (hus.of_suffix hcsuffix).of_suffix hdsuffix
  have hlen := (hdsuffix.trans hcsuffix).length_le
  refine (block_trails .kwWhile .kwEnd d ws hws).bind fun b xs _ => ?_
  exact closing_trails stop _ _ _ xs _
termination_by 4 * us.length + 2

theorem forStmt_trails (t : Token) (us : List Token) (hus : AllSpelled us) :
    (forStmt stop t us).run.Trails stop us := by
  rw [run_forStmt]
  refine (Attempt.trails (forHeader_halts stop us hus)).bind fun header vs hheader => ?_
  have hsuffix := Attempt.suffix_of_outcome hheader
  have hlen := hsuffix.length_le
  refine (block_trails .kwFor .kwEnd header.opener vs (hus.of_suffix hsuffix)).bind fun b ws _ => ?_
  exact closing_trails stop _ _ _ ws _
termination_by 4 * us.length + 2

theorem repeatStmt_trails (t : Token) (us : List Token) (hus : AllSpelled us) :
    (repeatStmt stop t us).run.Trails stop us := by
  rw [run_repeatStmt]
  refine (block_trails .kwRepeat .kwUntil t us hus).bind fun b vs hb => ?_
  have hvs := hus.of_suffix (Attempt.suffix_of_outcome hb)
  refine (Attempt.trails (closing_halts stop _ _ _ vs)).bind fun u ws hu => ?_
  have hws := hvs.of_suffix (Attempt.suffix_of_outcome hu)
  exact (Attempt.trails (expr_halts stop .lowest ws hws)).map _
termination_by 4 * us.length + 2

theorem functionStmt_trails (t : Token) (us : List Token) (hus : AllSpelled us) :
    (functionStmt stop t us).run.Trails stop us := by
  rw [run_functionStmt]
  refine (Attempt.trails (functionHeader_halts stop us)).bind fun header vs hheader => ?_
  have hsuffix := Attempt.suffix_of_outcome hheader
  have hlen := hsuffix.length_le
  refine (block_trails .kwFunction .kwEnd header.opener vs (hus.of_suffix hsuffix)).bind
    fun b ws _ => ?_
  exact closing_trails stop _ _ _ ws _
termination_by 4 * us.length + 2

end

end Parse

theorem Parsed.trail (stop : Position) (ts : List Token) (hts : AllSpelled ts) :
    Trail stop ts (ofTokens stop ts).diagnostics [] := by
  match ts with
  | [] =>
    rw [ofTokens_nil]
    exact .nil List.suffix_rfl
  | t :: us =>
    by_cases hsep : t.kind.isSeparator = true
    · rw [ofTokens_of_separator stop us hsep]
      exact (trail stop us hts.tail).weaken (List.suffix_cons t us)
    have hstmt := Parse.stmtFrom_trails stop t us hts
    rcases hrun : (Parse.stmtFrom stop t us).run with ⟨log, ⟨s, rest⟩ | ⟨d, halt⟩⟩
    · rw [hrun] at hstmt
      rw [ofTokens_of_done stop hsep hrun]
      have hsuffix := Logged.suffix_of_run hrun
      have hlen := hsuffix.length_le
      exact Trail.append hstmt (trail stop rest (hts.tail.of_suffix hsuffix))
    · rw [hrun] at hstmt
      rw [ofTokens_of_failed stop hsep hrun]
      have hsuffix := Halt.resume_suffix (Logged.within_of_run hrun)
      have hlen := hsuffix.length_le
      have hmore := trail stop halt.resume (hts.tail.of_suffix hsuffix)
      have hall := Trail.append (Trail.shorten hstmt halt.resume_suffix_rest) hmore
      rwa [Run.diagnostics, List.append_assoc] at hall
termination_by ts.length

/-! The diagnostics among the tokens of a source. -/

theorem headD_mem_append (ts : List Token) (e : Token) : ts.headD e ∈ ts ++ [e] := by
  cases ts with
  | nil => exact List.mem_singleton_self e
  | cons t us => exact List.mem_cons_self

theorem key_le_of_suffix {ts us : List Token} {e : Token}
    (h : (ts ++ [e]).Pairwise Token.Precedes) (hus : us <:+ ts) :
    (ts.headD e).start.key ≤ (us.headD e).start.key := by
  obtain ⟨front, rfl⟩ := hus
  cases front with
  | nil => exact le_rfl
  | cons t front =>
    have hmem : us.headD e ∈ front ++ us ++ [e] := by
      rw [List.append_assoc]
      exact List.mem_append_right _ (headD_mem_append us e)
    exact (List.rel_of_pairwise_cons h hmem).1.le

theorem eq_of_start_eq {ts : List Token} (h : ts.Pairwise Token.Precedes) {t u : Token}
    (ht : t ∈ ts) (hu : u ∈ ts) (heq : t.start = u.start) : t = u := by
  have hnodup : (ts.map Token.start).Nodup := by
    apply List.pairwise_map.2
    apply h.imp
    intro t u hprecedes hstart
    exact absurd (congrArg Position.key hstart) hprecedes.1.ne
  exact List.inj_on_of_nodup_map hnodup ht hu heq

theorem sublist_of_suffix {ts us : List Token} (h : us <:+ ts) (e : Token) :
    (us ++ [e]).Sublist (ts ++ [e]) := h.sublist.append (List.Sublist.refl [e])

namespace Trail

variable {ts us : List Token} {ds : List Diagnostic}

theorem exists_mem (h : Trail stop ts ds us) {d : Diagnostic} (hd : d ∈ ds) :
    ∃ t ∈ ts ++ [Token.eof stop], d.position = t.start ∧ d.problem.Describes t := by
  induction h with
  | nil hus => cases hd
  | @cons ts us vs d ds hmid hmeets _ ih =>
    have hsubset := (sublist_of_suffix hmid (.eof stop)).subset
    rcases List.mem_cons.1 hd with rfl | hd
    · exact ⟨_, hsubset (headD_mem_append us _), hmeets⟩
    · obtain ⟨t, ht, hmeets⟩ := ih hd
      exact ⟨t, hsubset ht, hmeets⟩

theorem pairwise (h : Trail stop ts ds us)
    (hts : (ts ++ [Token.eof stop]).Pairwise Token.Precedes) :
    (∀ d ∈ ds, (ts.headD (.eof stop)).start.key ≤ d.position.key) ∧
      ds.Pairwise fun d e => d.position.key ≤ e.position.key := by
  induction h with
  | nil hus => exact ⟨List.forall_mem_nil _, .nil⟩
  | @cons ts us vs d ds hmid hmeets _ ih =>
    have hle := key_le_of_suffix hts hmid
    obtain ⟨hfirst, hds⟩ := ih (hts.sublist (sublist_of_suffix hmid _))
    rw [← hmeets.1] at hle hfirst
    refine ⟨?_, .cons hfirst hds⟩
    rw [List.forall_mem_cons]
    exact ⟨hle, fun e he => hle.trans (hfirst e he)⟩

end Trail

theorem trail_parse (source : String) (file : Option String) :
    Trail (scan source file).stop (scan source file).tokens (parse source file).diagnostics [] :=
  Parsed.trail _ _ fun _ => spelled_of_token

/-- The diagnostics of a source of fewer than `2 ^ 32 - 1` characters come in its order, and each is
at a token that it describes. -/
theorem parse_reports (source : String) (file : Option String)
    (h : source.length < UInt32.size - 1) :
    (parse source file).diagnostics.Pairwise (fun d e => d.position.key ≤ e.position.key) ∧
      ∀ d ∈ (parse source file).diagnostics, ∃ t ∈ tokenize source file,
        d.position = t.start ∧ (∀ u ∈ tokenize source file, u.start = d.position → u = t) ∧
        d.problem.Describes t := by
  have htrail := trail_parse source file
  have hpairwise : (tokenize source file).Pairwise Token.Precedes := pairwise_tokenize h
  refine ⟨(htrail.pairwise hpairwise).2, fun d hd => ?_⟩
  obtain ⟨t, ht, hposition, hdescribes⟩ := htrail.exists_mem hd
  refine ⟨t, ht, hposition, fun u hu hstart => ?_, hdescribes⟩
  exact eq_of_start_eq hpairwise hu ht (hstart.trans hposition)

theorem parse_reports_unclosed :
    (parse "x = = 1\nwhile y do\nf(0x8000000000000000\nrepeat" none).diagnostics.Pairwise
        (fun d e => d.position.key ≤ e.position.key) ∧
      ∀ d ∈ (parse "x = = 1\nwhile y do\nf(0x8000000000000000\nrepeat" none).diagnostics,
        ∃ t ∈ tokenize "x = = 1\nwhile y do\nf(0x8000000000000000\nrepeat" none,
          d.position = t.start ∧
          (∀ u ∈ tokenize "x = = 1\nwhile y do\nf(0x8000000000000000\nrepeat" none,
            u.start = d.position → u = t) ∧
          d.problem.Describes t :=
  parse_reports _ none (by decide)

end LuaSyntax
