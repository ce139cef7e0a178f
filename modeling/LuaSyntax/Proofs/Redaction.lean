import LuaSyntax.Proofs.Embedding

/-! Illegal tokens. No reader takes one, so a program does not depend on what they say. What is
wrong with it is the same in name and place; only the wording of a diagnostic may quote them. -/

namespace LuaSyntax

def Token.redacted (t : Token) : Token := if t.kind = .illegal then { t with value := "" } else t

namespace Token

theorem redacted_of_kind {t : Token} {k : Kind} (h : t.kind = k) (hk : k ≠ .illegal) :
    t.redacted = t := if_neg (by rwa [h])

@[simp] theorem redacted_kind (t : Token) : t.redacted.kind = t.kind := by
  unfold redacted
  split <;> rfl

@[simp] theorem redacted_start (t : Token) : t.redacted.start = t.start := by
  unfold redacted
  split <;> rfl

end Token

def redact (ts : List Token) : List Token := ts.map Token.redacted

@[simp] theorem redact_nil : redact [] = [] := rfl

@[simp] theorem redact_cons (t : Token) (ts : List Token) :
    redact (t :: ts) = t.redacted :: redact ts := rfl

def Diagnostic.label (d : Diagnostic) : String × Position := (d.problem.name, d.position)

/-! Outcomes on tokens and on the same tokens redacted. -/

/-- The second outcome is the first one on redacted tokens. -/
inductive Outcome.Redacts {α : Type} : Outcome α → Outcome α → Prop
  | done (a : α) (ts : List Token) : Redacts (.done a ts) (.done a (redact ts))
  | failed {d d' : Diagnostic} (hd : d'.label = d.label) (halt : Halt) :
      Redacts (.failed d halt) (.failed d' (halt.map redact))

structure Run.Redacts {α : Type} (r r' : Run α) : Prop where
  log : r'.log.map Diagnostic.label = r.log.map Diagnostic.label
  outcome : r.outcome.Redacts r'.outcome

section

variable {α β : Type}

theorem Outcome.Redacts.map {o o' : Outcome α} (h : o.Redacts o') (f : α → β) :
    (o.map f).Redacts (o'.map f) := by
  cases h with
  | done a ts => exact .done (f a) ts
  | failed hd halt => exact .failed hd halt

theorem Outcome.Redacts.bind {o o' : Outcome α} (h : o.Redacts o')
    {f f' : α → List Token → Outcome β}
    (hf : ∀ a ts, o = .done a ts → (f a ts).Redacts (f' a (redact ts))) :
    (o.bind f).Redacts (o'.bind f') := by
  cases h with
  | done a ts => exact hf a ts rfl
  | failed hd halt => exact .failed hd halt

theorem Outcome.Redacts.run {o o' : Outcome α} (h : o.Redacts o') : o.run.Redacts o'.run := ⟨rfl, h⟩

theorem Run.Redacts.map {r r' : Run α} (h : r.Redacts r') (f : α → β) :
    (r.map f).Redacts (r'.map f) := ⟨h.log, h.outcome.map f⟩

theorem Run.Redacts.after {r r' : Run α} (h : r.Redacts r') {log log' : List Diagnostic}
    (hlog : log'.map Diagnostic.label = log.map Diagnostic.label) :
    (r.after log).Redacts (r'.after log') := by
  refine ⟨?_, h.outcome⟩
  simp only [Run.after, List.map_append, hlog, h.log]

theorem Run.Redacts.bind {r r' : Run α} (h : r.Redacts r') {f f' : α → List Token → Run β}
    (hf : ∀ a ts, r.outcome = .done a ts → (f a ts).Redacts (f' a (redact ts))) :
    (r.bind f).Redacts (r'.bind f') := by
  obtain ⟨log, o⟩ := r
  obtain ⟨log', o'⟩ := r'
  obtain ⟨hlog, houtcome⟩ := h
  cases houtcome with
  | done a ts => exact (hf a ts rfl).after hlog
  | failed hd halt => exact ⟨hlog, .failed hd halt⟩

end

namespace Halt

theorem skipLine_redact (ts : List Token) : skipLine (redact ts) = redact (skipLine ts) := by
  rw [skipLine, redact, List.dropWhile_map]
  congr 2
  funext t
  simp [stopsRecovery]

theorem resume_redact (halt : Halt) : (halt.map redact).resume = redact halt.resume := by
  match halt with
  | .before ts => exact skipLine_redact ts
  | .on [] => rfl
  | .on (t :: ts) =>
    rw [map, redact_cons, resume, resume, Token.redacted_kind]
    split
    · rfl
    · exact skipLine_redact ts

theorem resumeInBlock_redact (halt : Halt) :
    (halt.map redact).resumeInBlock = redact halt.resumeInBlock := by
  match halt with
  | .before ts => exact skipLine_redact ts
  | .on [] => rfl
  | .on (t :: ts) =>
    have hresume := resume_redact (.on (t :: ts))
    rw [map, redact_cons] at hresume ⊢
    rw [resumeInBlock, resumeInBlock, Token.redacted_kind]
    split
    · rfl
    · exact hresume

end Halt

open Outcome

variable (stop : Position)

theorem expect_redacts {kind : Kind} (hkind : kind ≠ .illegal) {problem : Token → Problem}
    (hproblem : ∀ t u, (problem t).name = (problem u).name) (ts : List Token) :
    (expect stop kind problem ts).outcome.Redacts
      (expect stop kind problem (redact ts)).outcome := by
  cases ts with
  | nil => exact .failed rfl (.before [])
  | cons t us =>
    rw [redact_cons, outcome_expect_cons, outcome_expect_cons, Token.redacted_kind]
    split
    · next ht =>
      rw [Token.redacted_of_kind ht hkind]
      exact .done t us
    · refine .failed ?_ (.before (t :: us))
      simp only [Diagnostic.label, hproblem _ t, Token.redacted_start]

theorem expectHere_redacts {kind : Kind} (hkind : kind ≠ .illegal) {problem : Token → Problem}
    (hproblem : ∀ t u, (problem t).name = (problem u).name) (ts : List Token) :
    (expectHere stop kind problem ts).outcome.Redacts
      (expectHere stop kind problem (redact ts)).outcome := by
  cases ts with
  | nil => exact .failed rfl (.on [])
  | cons t us =>
    rw [redact_cons, outcome_expectHere_cons, outcome_expectHere_cons, Token.redacted_kind]
    split
    · next ht =>
      rw [Token.redacted_of_kind ht hkind]
      exact .done t us
    · refine .failed ?_ (.on (t :: us))
      simp only [Diagnostic.label, hproblem _ t, Token.redacted_start]

namespace Parse

theorem ne_illegal_of_startsExpr {k : Kind} (h : k.startsExpr = true) : k ≠ .illegal := by
  rintro rfl
  cases h

theorem ne_illegal_of_lt {k : Kind} {level : Precedence} (h : level < .of k) : k ≠ .illegal := by
  rintro rfl
  exact Nat.not_lt_zero _ h

/-! Expressions. -/

mutual

theorem expr_redacts (level : Precedence) (ts : List Token) :
    (expr stop level ts).outcome.Redacts (expr stop level (redact ts)).outcome := by
  match ts with
  | [] =>
    rw [redact_nil, outcome_expr_nil]
    exact .failed rfl (.on [])
  | t :: us =>
    rw [redact_cons, outcome_expr_cons, outcome_expr_cons]
    exact exprFrom_redacts level t us
termination_by 4 * ts.length

theorem exprFrom_redacts (level : Precedence) (t : Token) (us : List Token) :
    (exprFrom stop level t us).outcome.Redacts
      (exprFrom stop level t.redacted (redact us)).outcome := by
  rw [outcome_exprFrom, outcome_exprFrom]
  refine (operand_redacts t us).bind ?_
  intro left vs hdone
  have hlen := (Attempt.suffix_of_outcome hdone).length_le
  exact extend_redacts level left vs
termination_by 4 * us.length + 3

theorem operand_redacts (t : Token) (us : List Token) :
    (operand stop t us).outcome.Redacts (operand stop t.redacted (redact us)).outcome := by
  by_cases hstart : t.kind.startsExpr = true
  · -- a token that starts an operand is not illegal, so it goes into the tree as it is
    have hsame := Token.redacted_of_kind rfl (ne_illegal_of_startsExpr hstart)
    rw [hsame]
    rcases operand_cases t with ⟨e, hlit⟩ | hun | hparen | hnone
    · rw [outcome_operand_of_literal _ us hlit, outcome_operand_of_literal _ _ hlit]
      cases e with
      | error p =>
        have hfailed := Redacts.failed (α := Expr Token) (d := ⟨p, t.start⟩) rfl (.on (t :: us))
        rwa [Halt.map, redact_cons, hsame] at hfailed
      | ok e => exact .done e us
    · rw [outcome_operand_of_isUnary _ us hun, outcome_operand_of_isUnary _ _ hun, outcome_unary,
        outcome_unary]
      exact (expr_redacts .unary us).map _
    · rw [outcome_operand_of_leftParen _ us hparen, outcome_operand_of_leftParen _ _ hparen,
        outcome_grouped, outcome_grouped]
      refine (expr_redacts .lowest us).bind ?_
      intro e vs _
      exact (expect_redacts stop (by decide) (fun _ _ => rfl) vs).map _
    · rw [hnone] at hstart
      cases hstart
  · have hnone : t.kind.startsExpr = false := Bool.eq_false_iff.2 hstart
    have hnone' : t.redacted.kind.startsExpr = false := by rwa [Token.redacted_kind]
    rw [outcome_operand_of_not_startsExpr _ us hnone, outcome_operand_of_not_startsExpr _ _ hnone']
    refine .failed ?_ (.on (t :: us))
    rw [Diagnostic.label, Token.redacted_start]
    rfl
termination_by 4 * us.length + 2

theorem extend_redacts (level : Precedence) (left : Expr Token) (ts : List Token) :
    (extend stop level left ts).outcome.Redacts (extend stop level left (redact ts)).outcome := by
  match ts with
  | [] =>
    rw [redact_nil, outcome_extend_nil]
    exact .done left []
  | op :: us =>
    rw [redact_cons]
    by_cases hlt : level < .of op.kind
    · rw [Token.redacted_of_kind rfl (ne_illegal_of_lt hlt), outcome_extend_of_lt _ left us hlt,
        outcome_extend_of_lt _ left _ hlt]
      refine (extendOnce_redacts left op us (ne_illegal_of_lt hlt)).bind ?_
      intro e rest hdone
      have hlen := (Attempt.suffix_of_outcome hdone).length_le
      exact extend_redacts level e rest
    · have hlt' : ¬level < .of op.redacted.kind := by rwa [Token.redacted_kind]
      rw [outcome_extend_of_not_lt _ left us hlt, outcome_extend_of_not_lt _ left _ hlt']
      exact .done left (op :: us)
termination_by 4 * ts.length

theorem extendOnce_redacts (left : Expr Token) (op : Token) (us : List Token)
    (hop : op.kind ≠ .illegal) :
    (extendOnce stop left op us).outcome.Redacts
      (extendOnce stop left op (redact us)).outcome := by
  rw [outcome_extendOnce, outcome_extendOnce]
  split
  · by_cases hname : ∃ n, left = .name n
    · obtain ⟨n, rfl⟩ := hname
      rw [outcome_call_name, outcome_call_name]
      exact (arguments_redacts us).map _
    · have hname := not_exists.1 hname
      rw [outcome_call_of_not_name _ op us hname, outcome_call_of_not_name _ op _ hname]
      have hfailed := Redacts.failed (α := Expr Token) (d := ⟨notCallable left, op.start⟩) rfl
        (.on (op :: us))
      rwa [Halt.map, redact_cons, Token.redacted_of_kind rfl hop] at hfailed
  · rw [outcome_binary, outcome_binary]
    exact (expr_redacts op.kind.operandLevel us).map _
termination_by 4 * us.length + 3

theorem arguments_redacts (us : List Token) :
    (arguments stop us).outcome.Redacts (arguments stop (redact us)).outcome := by
  match us with
  | [] =>
    rw [redact_nil, outcome_arguments_nil]
    exact .failed rfl (.on [])
  | t :: vs =>
    rw [redact_cons, outcome_arguments_cons, outcome_arguments_cons, Token.redacted_kind]
    split
    · exact .done [] vs
    · refine (expr_redacts .lowest (t :: vs)).bind ?_
      intro e rest hdone
      have hlen : rest.length ≤ vs.length + 1 := (Attempt.suffix_of_outcome hdone).length_le
      exact (moreArguments_redacts rest).map _
termination_by 4 * us.length + 1

theorem moreArguments_redacts (us : List Token) :
    (moreArguments stop us).outcome.Redacts (moreArguments stop (redact us)).outcome := by
  match us with
  | [] =>
    rw [redact_nil, outcome_moreArguments_nil]
    exact .failed rfl (.before [])
  | t :: vs =>
    rw [redact_cons, outcome_moreArguments_cons, outcome_moreArguments_cons, Token.redacted_kind]
    split
    · refine (expr_redacts .lowest vs).bind ?_
      intro e rest hdone
      have hlen := (Attempt.suffix_of_outcome hdone).length_le
      exact (moreArguments_redacts rest).map _
    · exact (expect_redacts stop (by decide) (fun _ _ => rfl) (t :: vs)).map _
termination_by 4 * us.length

end

/-! Statements that hold no others. -/

theorem exprStmt_redacts (t : Token) (us : List Token) :
    (exprStmt stop t us).outcome.Redacts (exprStmt stop t.redacted (redact us)).outcome := by
  have hexpr := exprFrom_redacts stop .lowest t us
  rw [outcome_exprStmt, outcome_exprStmt]
  by_cases ht : t.kind = .illegal
  · rw [outcome_exprFrom, outcome_operand_of_not_startsExpr _ us (by rw [ht]; rfl)] at hexpr ⊢
    generalize (exprFrom stop .lowest t.redacted (redact us)).outcome = o' at hexpr ⊢
    cases hexpr with
    | failed hd halt => exact .failed hd _
  · have hsame := Token.redacted_of_kind rfl ht
    rw [hsame] at hexpr ⊢
    exact hexpr.map _

theorem assignment_redacts (t : Token) (name : Name Token) (isLocal : Bool) (us : List Token) :
    (assignment stop t name isLocal us).outcome.Redacts
      (assignment stop t name isLocal (redact us)).outcome := by
  rw [outcome_assignment, outcome_assignment]
  exact (expr_redacts stop .lowest us).map _

theorem nameStmt_redacts {t : Token} (ht : t.kind = .identifier) (us : List Token) :
    (nameStmt stop t us).outcome.Redacts (nameStmt stop t (redact us)).outcome := by
  have hexpr := exprStmt_redacts stop t us
  rw [Token.redacted_of_kind ht (by decide)] at hexpr
  cases us with
  | nil => exact hexpr
  | cons u vs =>
    rw [redact_cons] at hexpr ⊢
    rw [outcome_nameStmt_cons, outcome_nameStmt_cons, Token.redacted_kind]
    split
    · exact (assignment_redacts stop t _ false vs).map _
    split
    · next hu =>
      rw [Token.redacted_of_kind hu (by decide), outcome_callStmt, outcome_callStmt]
      exact (arguments_redacts stop vs).map _
    · exact hexpr

theorem localStmt_redacts (t : Token) (us : List Token) :
    (localStmt stop t us).outcome.Redacts (localStmt stop t (redact us)).outcome := by
  rw [outcome_localStmt, outcome_localStmt]
  refine (expect_redacts stop (by decide) (fun _ _ => rfl) us).bind ?_
  intro n vs _
  refine (expect_redacts stop (by decide) (fun _ _ => rfl) vs).bind ?_
  intro _ ws _
  exact (assignment_redacts stop t _ true ws).map _

theorem endsStmt_redact (ts : List Token) : endsStmt (redact ts) = endsStmt ts := by
  cases ts with
  | nil => rfl
  | cons t us => rw [redact_cons, endsStmt, endsStmt, Token.redacted_kind]

theorem expectEnd_redacts (ts : List Token) :
    (expectEnd stop ts).outcome.Redacts (expectEnd stop (redact ts)).outcome := by
  rw [outcome_expectEnd, outcome_expectEnd, endsStmt_redact]
  split
  · exact .done () ts
  · refine .failed ?_ (.before ts)
    cases ts with
    | nil => rfl
    | cons t us =>
      simp only [redact_cons, List.headD_cons, Diagnostic.label, Token.redacted_start]
      rfl

theorem returnStmt_redacts (t : Token) (us : List Token) :
    (returnStmt stop t us).outcome.Redacts (returnStmt stop t (redact us)).outcome := by
  rw [outcome_returnStmt, outcome_returnStmt, endsStmt_redact]
  split
  · exact .done (Stmt.ret t none) us
  refine (expr_redacts stop .lowest us).bind ?_
  intro e vs _
  exact (expectEnd_redacts stop vs).map _

/-! Headers. -/

theorem moreParameters_redacts (us : List Token) :
    (moreParameters stop us).outcome.Redacts (moreParameters stop (redact us)).outcome := by
  match us with
  | [] =>
    rw [redact_nil, outcome_moreParameters_nil]
    exact .failed rfl (.before [])
  | t :: vs =>
    rw [redact_cons, outcome_moreParameters_cons, outcome_moreParameters_cons, Token.redacted_kind]
    split
    · refine (expect_redacts stop (by decide) (fun _ _ => rfl) vs).bind ?_
      intro p rest hdone
      have hlen := (Attempt.suffix_of_outcome hdone).length_le
      exact (moreParameters_redacts rest).map _
    · exact (expect_redacts stop (by decide) (fun _ _ => rfl) (t :: vs)).map _
termination_by us.length

theorem parameters_redacts (us : List Token) :
    (parameters stop us).outcome.Redacts (parameters stop (redact us)).outcome := by
  cases us with
  | nil =>
    rw [redact_nil, outcome_parameters_nil]
    exact .failed rfl (.before [])
  | cons t vs =>
    rw [redact_cons, outcome_parameters_cons, outcome_parameters_cons, Token.redacted_kind]
    split
    · next hclose =>
      rw [Token.redacted_of_kind hclose (by decide)]
      exact .done ([], t) vs
    refine (expect_redacts stop (by decide) (fun _ _ => rfl) (t :: vs)).bind ?_
    intro p rest _
    exact (moreParameters_redacts stop rest).map _

theorem step_redacts (us : List Token) :
    (step stop us).outcome.Redacts (step stop (redact us)).outcome := by
  cases us with
  | nil =>
    rw [redact_nil, outcome_step_nil]
    exact .done (defaultStep stop) []
  | cons t vs =>
    rw [redact_cons, outcome_step_cons, outcome_step_cons, Token.redacted_kind,
      Token.redacted_start]
    split
    · exact expr_redacts stop .lowest vs
    · exact .done (defaultStep t.start) (t :: vs)

theorem forHeader_redacts (us : List Token) :
    (forHeader stop us).outcome.Redacts (forHeader stop (redact us)).outcome := by
  rw [outcome_forHeader, outcome_forHeader]
  refine (expect_redacts stop (by decide) (fun _ _ => rfl) us).bind ?_
  intro n us _
  refine (expect_redacts stop (by decide) (fun _ _ => rfl) us).bind ?_
  intro _ us _
  refine (assignment_redacts stop n _ false us).bind ?_
  intro init us _
  refine (expect_redacts stop (by decide) (fun _ _ => rfl) us).bind ?_
  intro _ us _
  refine (expr_redacts stop .lowest us).bind ?_
  intro limit us _
  refine (step_redacts stop us).bind ?_
  intro st us _
  exact (expect_redacts stop (by decide) (fun _ _ => rfl) us).map _

theorem functionHeader_redacts (us : List Token) :
    (functionHeader stop us).outcome.Redacts (functionHeader stop (redact us)).outcome := by
  rw [outcome_functionHeader, outcome_functionHeader]
  refine (expect_redacts stop (by decide) (fun _ _ => rfl) us).bind ?_
  intro n us _
  refine (expect_redacts stop (by decide) (fun _ _ => rfl) us).bind ?_
  intro _ us _
  exact (parameters_redacts stop us).map _

/-! Statements and blocks. -/

theorem closing_redacts (form : Form) {kind : Kind} (hkind : kind ≠ .illegal) (what : String)
    (ts : List Token) :
    (closing stop form kind what ts).outcome.Redacts
      (closing stop form kind what (redact ts)).outcome :=
  expectHere_redacts stop hkind (fun _ _ => rfl) ts

mutual

theorem stmtFrom_redacts (t : Token) (us : List Token) :
    (stmtFrom stop t us).run.Redacts (stmtFrom stop t.redacted (redact us)).run := by
  by_cases ht : t.kind = .illegal
  · have ht' : t.redacted.kind = .illegal := by rwa [Token.redacted_kind]
    rw [stmtFrom_of_not_startsStmt _ us (by rw [ht]; rfl),
      stmtFrom_of_not_startsStmt _ _ (by rw [ht']; rfl)]
    exact (exprStmt_redacts stop t us).run
  have hexpr := exprStmt_redacts stop t us
  rw [Token.redacted_of_kind rfl ht] at hexpr ⊢
  rw [run_stmtFrom, run_stmtFrom]
  split
  · next hk => exact (nameStmt_redacts stop hk us).run
  · exact (localStmt_redacts stop t us).run
  · exact (returnStmt_redacts stop t us).run
  · exact condStmt_redacts t us
  · exact whileStmt_redacts t us
  · exact forStmt_redacts t us
  · exact repeatStmt_redacts t us
  · exact functionStmt_redacts t us
  · exact hexpr.run
termination_by 4 * us.length + 3

theorem statements_redacts (construct terminator : Kind) (ts : List Token) :
    (statements stop construct terminator ts).run.Redacts
      (statements stop construct terminator (redact ts)).run := by
  match ts with
  | [] =>
    rw [redact_nil, run_statements_nil]
    exact ⟨rfl, .failed rfl (.on [])⟩
  | t :: us =>
    rw [redact_cons]
    by_cases hend : t.kind.isBlockEnd = true
    · have hend' : t.redacted.kind.isBlockEnd = true := by rwa [Token.redacted_kind]
      rw [run_statements_of_blockEnd _ _ _ us hend, run_statements_of_blockEnd _ _ _ _ hend']
      exact ⟨rfl, .done [] (t :: us)⟩
    have hend' : ¬t.redacted.kind.isBlockEnd = true := by rwa [Token.redacted_kind]
    by_cases hsep : t.kind.isSeparator = true
    · have hsep' : t.redacted.kind.isSeparator = true := by rwa [Token.redacted_kind]
      rw [run_statements_of_separator _ _ _ us hsep, run_statements_of_separator _ _ _ _ hsep']
      exact statements_redacts construct terminator us
    have hsep' : ¬t.redacted.kind.isSeparator = true := by rwa [Token.redacted_kind]
    have hstmt := stmtFrom_redacts t us
    rcases hrun : (stmtFrom stop t us).run with ⟨log, o⟩
    rcases hrun' : (stmtFrom stop t.redacted (redact us)).run with ⟨log', o'⟩
    rw [hrun, hrun'] at hstmt
    obtain ⟨hlog, houtcome⟩ := hstmt
    cases houtcome with
    | done s rest =>
      have hlen := (Logged.suffix_of_run hrun).length_le
      rw [run_statements_of_done _ _ _ hend hsep hrun,
        run_statements_of_done _ _ _ hend' hsep' hrun']
      exact ((statements_redacts construct terminator rest).map _).after hlog
    | failed hd halt =>
      have hlen := Nat.le_of_lt_succ
        (Halt.length_resumeInBlock_lt (Logged.within_of_run hrun) (by simpa using hend))
      rw [run_statements_of_failed _ _ _ hend hsep hrun,
        run_statements_of_failed _ _ _ hend' hsep' hrun', Halt.resumeInBlock_redact]
      refine (statements_redacts construct terminator halt.resumeInBlock).after ?_
      rw [List.map_append, List.map_append, hlog, List.map_singleton, List.map_singleton, hd]
termination_by 4 * ts.length

theorem block_redacts (construct terminator : Kind) (opener : Token) (us : List Token) :
    (block stop construct terminator opener us).run.Redacts
      (block stop construct terminator opener (redact us)).run := by
  rw [run_block, run_block]
  exact (statements_redacts construct terminator us).map _
termination_by 4 * us.length + 1

theorem condStmt_redacts (t : Token) (us : List Token) :
    (condStmt stop t us).run.Redacts (condStmt stop t (redact us)).run := by
  rw [run_condStmt, run_condStmt]
  refine (expr_redacts stop .lowest us).run.bind ?_
  intro c vs hc
  have hlen := (Attempt.suffix_of_outcome hc).length_le
  refine (expect_redacts stop (by decide) (fun _ _ => rfl) vs).run.bind ?_
  intro th ws hth
  have hlen' := (Attempt.suffix_of_outcome hth).length_le
  refine (block_redacts .kwIf .kwEnd th ws).bind ?_
  intro b xs hb
  have hlen'' := (Attempt.suffix_of_outcome hb).length_le
  exact (alternative_redacts xs).map _
termination_by 4 * us.length + 2

theorem alternative_redacts (ts : List Token) :
    (alternative stop ts).run.Redacts (alternative stop (redact ts)).run := by
  match ts with
  | [] =>
    rw [redact_nil, run_alternative_nil]
    exact ⟨rfl, .failed rfl (.on [])⟩
  | t :: us =>
    rw [redact_cons, run_alternative_cons, run_alternative_cons, Token.redacted_kind]
    split
    · next hk =>
      rw [Token.redacted_of_kind hk (by decide)]
      exact (condStmt_redacts t us).map _
    split
    · next hk =>
      rw [Token.redacted_of_kind hk (by decide)]
      refine (block_redacts .kwIf .kwEnd t us).bind ?_
      intro b vs _
      exact ((closing_redacts stop .conditional (by decide) "else block" vs).map _).run
    · exact ((closing_redacts stop .conditional (by decide) "if" (t :: us)).map _).run
termination_by 4 * ts.length + 1

theorem whileStmt_redacts (t : Token) (us : List Token) :
    (whileStmt stop t us).run.Redacts (whileStmt stop t (redact us)).run := by
  rw [run_whileStmt, run_whileStmt]
  refine (expr_redacts stop .lowest us).run.bind ?_
  intro c vs hc
  have hlen := (Attempt.suffix_of_outcome hc).length_le
  refine (expect_redacts stop (by decide) (fun _ _ => rfl) vs).run.bind ?_
  intro d ws hd
  have hlen' := (Attempt.suffix_of_outcome hd).length_le
  refine (block_redacts .kwWhile .kwEnd d ws).bind ?_
  intro b xs _
  exact ((closing_redacts stop .whileLoop (by decide) "while" xs).map _).run
termination_by 4 * us.length + 2

theorem forStmt_redacts (t : Token) (us : List Token) :
    (forStmt stop t us).run.Redacts (forStmt stop t (redact us)).run := by
  rw [run_forStmt, run_forStmt]
  refine (forHeader_redacts stop us).run.bind ?_
  intro header vs hheader
  have hlen := (Attempt.suffix_of_outcome hheader).length_le
  refine (block_redacts .kwFor .kwEnd header.opener vs).bind ?_
  intro b ws _
  exact ((closing_redacts stop .forLoop (by decide) "for" ws).map _).run
termination_by 4 * us.length + 2

theorem repeatStmt_redacts (t : Token) (us : List Token) :
    (repeatStmt stop t us).run.Redacts (repeatStmt stop t (redact us)).run := by
  rw [run_repeatStmt, run_repeatStmt]
  refine (block_redacts .kwRepeat .kwUntil t us).bind ?_
  intro b vs _
  refine (closing_redacts stop .repeatLoop (by decide) "repeat" vs).run.bind ?_
  intro _ ws _
  exact ((expr_redacts stop .lowest ws).map _).run
termination_by 4 * us.length + 2

theorem functionStmt_redacts (t : Token) (us : List Token) :
    (functionStmt stop t us).run.Redacts (functionStmt stop t (redact us)).run := by
  rw [run_functionStmt, run_functionStmt]
  refine (functionHeader_redacts stop us).run.bind ?_
  intro header vs hheader
  have hlen := (Attempt.suffix_of_outcome hheader).length_le
  refine (block_redacts .kwFunction .kwEnd header.opener vs).bind ?_
  intro b ws _
  exact ((closing_redacts stop .function (by decide) _ ws).map _).run
termination_by 4 * us.length + 2

end

end Parse

/-- What the illegal tokens say matters neither for the program nor for the names and places of the
diagnostics. -/
theorem Parsed.ofTokens_redact (ts : List Token) :
    (ofTokens stop (redact ts)).program = (ofTokens stop ts).program ∧
      (ofTokens stop (redact ts)).diagnostics.map Diagnostic.label =
        (ofTokens stop ts).diagnostics.map Diagnostic.label := by
  match ts with
  | [] => exact ⟨rfl, rfl⟩
  | t :: us =>
    rw [redact_cons]
    by_cases hsep : t.kind.isSeparator = true
    · have hsep' : t.redacted.kind.isSeparator = true := by rwa [Token.redacted_kind]
      rw [ofTokens_of_separator _ us hsep, ofTokens_of_separator _ _ hsep']
      exact ofTokens_redact us
    have hsep' : ¬t.redacted.kind.isSeparator = true := by rwa [Token.redacted_kind]
    have hstmt := Parse.stmtFrom_redacts stop t us
    rcases hrun : (Parse.stmtFrom stop t us).run with ⟨log, o⟩
    rcases hrun' : (Parse.stmtFrom stop t.redacted (redact us)).run with ⟨log', o'⟩
    rw [hrun, hrun'] at hstmt
    obtain ⟨hlog, houtcome⟩ := hstmt
    cases houtcome with
    | done s rest =>
      have hlen := (Logged.suffix_of_run hrun).length_le
      obtain ⟨hprogram, hdiagnostics⟩ := ofTokens_redact rest
      rw [ofTokens_of_done _ hsep hrun, ofTokens_of_done _ hsep' hrun']
      exact ⟨congrArg (s :: ·) hprogram, by simp only [List.map_append, hlog, hdiagnostics]⟩
    | failed hd halt =>
      have hlen := (Halt.resume_suffix (Logged.within_of_run hrun)).length_le
      obtain ⟨hprogram, hdiagnostics⟩ := ofTokens_redact halt.resume
      rw [ofTokens_of_failed _ hsep hrun, ofTokens_of_failed _ hsep' hrun', Halt.resume_redact]
      exact ⟨hprogram, by
        simp only [List.map_append, List.map_cons, hlog, hd, hdiagnostics]⟩
termination_by ts.length

end LuaSyntax
