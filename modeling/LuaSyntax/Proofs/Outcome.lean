import LuaSyntax.Parse.Program
import LuaSyntax.Proofs.Operator

/-! What an attempt gave, without the evidence that its rest is a suffix, and every
reader as an equation between such outcomes. Proofs about readers rewrite with these
equations and do not look inside an attempt. -/

namespace LuaSyntax

/-- The value and the rest of an attempt that succeeded, or the diagnostic of one that failed
and the place where it stopped. -/
inductive Outcome (α : Type) where
  | done (value : α) (rest : List Token)
  | failed (diagnostic : Diagnostic) (halt : Halt)

namespace Outcome

variable {α β : Type}

def map (f : α → β) : Outcome α → Outcome β
  | done a rest => done (f a) rest
  | failed d halt => failed d halt

def bind (o : Outcome α) (f : α → List Token → Outcome β) : Outcome β :=
  match o with
  | done a rest => f a rest
  | failed d halt => failed d halt

@[simp] theorem map_done (f : α → β) (a : α) (rest : List Token) :
    (done a rest).map f = done (f a) rest := rfl

@[simp] theorem map_failed (f : α → β) (d : Diagnostic) (halt : Halt) :
    (failed d halt).map f = failed d halt := rfl

@[simp] theorem bind_done (a : α) (rest : List Token) (f : α → List Token → Outcome β) :
    (done a rest).bind f = f a rest := rfl

@[simp] theorem bind_failed (d : Diagnostic) (halt : Halt) (f : α → List Token → Outcome β) :
    (failed d halt).bind f = failed d halt := rfl

theorem map_map {γ : Type} (f : α → β) (g : β → γ) (o : Outcome α) :
    (o.map f).map g = o.map fun a => g (f a) := by
  cases o <;> rfl

theorem map_eq_done {f : α → β} {o : Outcome α} {b : β} {rest : List Token} :
    o.map f = done b rest ↔ ∃ a, o = done a rest ∧ f a = b := by
  cases o with
  | done a ts =>
    simp only [map_done, done.injEq]
    constructor
    · rintro ⟨rfl, rfl⟩
      exact ⟨a, ⟨rfl, rfl⟩, rfl⟩
    · rintro ⟨c, ⟨rfl, rfl⟩, rfl⟩
      exact ⟨rfl, rfl⟩
  | failed d halt => simp

theorem bind_eq_done {f : α → List Token → Outcome β} {o : Outcome α} {b : β}
    {rest : List Token} :
    o.bind f = done b rest ↔ ∃ a ts, o = done a ts ∧ f a ts = done b rest := by
  cases o with
  | done a ts =>
    constructor
    · intro h
      exact ⟨a, ts, rfl, h⟩
    · rintro ⟨c, us, h, hf⟩
      cases h
      exact hf
  | failed d halt => simp

end Outcome

/-- An outcome, after the diagnostics of statements that were dropped on the way. -/
structure Run (α : Type) where
  log : List Diagnostic
  outcome : Outcome α

namespace Run

variable {α β : Type}

def map (f : α → β) (r : Run α) : Run β := ⟨r.log, r.outcome.map f⟩

def after (log : List Diagnostic) (r : Run α) : Run α := ⟨log ++ r.log, r.outcome⟩

def bind (r : Run α) (f : α → List Token → Run β) : Run β :=
  match r.outcome with
  | .done a rest => (f a rest).after r.log
  | .failed d halt => ⟨r.log, .failed d halt⟩

@[simp] theorem map_mk (f : α → β) (log : List Diagnostic) (o : Outcome α) :
    (⟨log, o⟩ : Run α).map f = ⟨log, o.map f⟩ := rfl

@[simp] theorem after_mk (front log : List Diagnostic) (o : Outcome α) :
    (⟨log, o⟩ : Run α).after front = ⟨front ++ log, o⟩ := rfl

@[simp] theorem after_nil (r : Run α) : r.after [] = r := rfl

@[simp] theorem bind_done (log : List Diagnostic) (a : α) (rest : List Token)
    (f : α → List Token → Run β) : (⟨log, .done a rest⟩ : Run α).bind f = (f a rest).after log :=
  rfl

@[simp] theorem bind_failed (log : List Diagnostic) (d : Diagnostic) (halt : Halt)
    (f : α → List Token → Run β) :
    (⟨log, .failed d halt⟩ : Run α).bind f = ⟨log, .failed d halt⟩ := rfl

end Run

theorem Run.map_map {α β γ : Type} (f : α → β) (g : β → γ) (r : Run α) :
    (r.map f).map g = r.map fun a => g (f a) := by
  simp [Run.map, Outcome.map_map]

@[simp] theorem Run.map_id {α : Type} (r : Run α) : r.map (fun a => a) = r := by
  obtain ⟨log, o⟩ := r
  cases o <;> rfl

def Outcome.run {α : Type} (o : Outcome α) : Run α := ⟨[], o⟩

@[simp] theorem Outcome.bind_run_done {α β : Type} (a : α) (rest : List Token)
    (f : α → List Token → Run β) : (Outcome.done a rest).run.bind f = f a rest := rfl

theorem Outcome.run_after {α : Type} (log : List Diagnostic) (o : Outcome α) :
    o.run.after log = ⟨log, o⟩ := congrArg (Run.mk · o) (List.append_nil log)

namespace Attempt

variable {α β : Type} {lead us : List Token}

def outcome : Attempt α lead us → Outcome α
  | done a rest _ => .done a rest
  | failed d halt _ => .failed d halt

theorem suffix_of_outcome {a : Attempt α lead us} {v : α} {rest : List Token}
    (h : a.outcome = .done v rest) : rest <:+ us := by
  cases a with
  | done w ts hts =>
    cases h
    exact hts
  | failed d halt hw => cases h

@[simp] theorem outcome_map (f : α → β) (a : Attempt α lead us) :
    (a.map f).outcome = a.outcome.map f := by
  cases a <;> rfl

@[simp] theorem outcome_ofRest {rest : List Token} (h : rest <:+ us) (a : Attempt α [] rest) :
    (a.ofRest h : Attempt α lead us).outcome = a.outcome := by
  cases a <;> rfl

@[simp] theorem outcome_whole {t : Token} (a : Attempt α [t] us) :
    a.whole.outcome = a.outcome := by
  cases a <;> rfl

@[simp] theorem outcome_taking (t : Token) (a : Attempt α [] us) :
    (a.taking t).outcome = a.outcome := outcome_ofRest _ a

@[simp] theorem outcome_past (t : Token) (a : Attempt α [] us) :
    (a.past t).outcome = a.outcome := outcome_ofRest _ a

@[simp] theorem outcome_bind (a : Attempt α lead us)
    (f : α → (rest : List Token) → Attempt β [] rest) :
    (a.bind fun v rest _ => f v rest).outcome =
      a.outcome.bind fun v rest => (f v rest).outcome := by
  cases a with
  | done v rest h => exact outcome_ofRest h (f v rest)
  | failed d halt h => rfl

@[simp] theorem outcome_pure (a : α) (ts : List Token) :
    (Attempt.pure a ts).outcome = .done a ts := rfl

@[simp] theorem outcome_failOn (d : Diagnostic) (ts : List Token) :
    (failOn d ts : Attempt α [] ts).outcome = .failed d (.on ts) := rfl

@[simp] theorem outcome_failBefore (d : Diagnostic) (ts : List Token) :
    (failBefore d ts : Attempt α [] ts).outcome = .failed d (.before ts) := rfl

@[simp] theorem outcome_ofToken_ok (t : Token) (a : α) :
    (ofToken t us (.ok a)).outcome = .done a us := rfl

@[simp] theorem outcome_ofToken_error (t : Token) (p : Problem) :
    (ofToken t us (.error p) : Attempt α [t] us).outcome =
      .failed ⟨p, t.start⟩ (.on (t :: us)) := rfl

end Attempt

namespace Logged

variable {α β : Type} {lead us : List Token}

def run (a : Logged α lead us) : Run α := ⟨a.log, a.attempt.outcome⟩

theorem suffix_of_run {a : Logged α lead us} {log : List Diagnostic} {v : α} {rest : List Token}
    (h : a.run = ⟨log, .done v rest⟩) : rest <:+ us :=
  Attempt.suffix_of_outcome (congrArg Run.outcome h)

theorem within_of_run {a : Logged α lead us} {log : List Diagnostic} {d : Diagnostic} {halt : Halt}
    (h : a.run = ⟨log, .failed d halt⟩) : halt.Within lead us := by
  obtain ⟨log', v | ⟨d', halt', hw⟩⟩ := a <;> cases h
  exact hw

@[simp] theorem run_map (f : α → β) (a : Logged α lead us) : (a.map f).run = a.run.map f := by
  simp [run, map, Run.map]

@[simp] theorem run_whole {t : Token} (a : Logged α [t] us) : a.whole.run = a.run := by
  simp [run, whole]

@[simp] theorem run_taking (t : Token) (a : Logged α [] us) : (a.taking t).run = a.run := by
  simp [run, taking]

@[simp] theorem run_past (t : Token) (a : Logged α [] us) : (a.past t).run = a.run := by
  simp [run, past]

@[simp] theorem run_after {rest : List Token} (log : List Diagnostic) (h : rest <:+ us)
    (a : Logged α [] rest) : (a.after log h : Logged α lead us).run = a.run.after log := by
  simp [run, after, Run.after]

@[simp] theorem run_logged (a : Attempt α lead us) : a.logged.run = a.outcome.run := rfl

@[simp] theorem run_andThen (a : Logged α lead us)
    (f : α → (rest : List Token) → Logged β [] rest) :
    (a.andThen fun v rest _ => f v rest).run = a.run.bind fun v rest => (f v rest).run := by
  obtain ⟨log, attempt⟩ := a
  cases attempt with
  | done v rest h => exact run_after log h (f v rest)
  | failed d halt h => rfl

@[simp] theorem run_attempt_andThen (a : Attempt α lead us)
    (f : α → (rest : List Token) → Logged β [] rest) :
    (a.andThen fun v rest _ => f v rest).run = a.outcome.run.bind fun v rest => (f v rest).run :=
  run_andThen a.logged f

end Logged

/-! Tokens that are required. -/

@[simp] theorem outcome_expect_nil (stop : Position) (kind : Kind) (problem : Token → Problem) :
    (expect stop kind problem []).outcome =
      .failed ⟨problem (.eof stop), stop⟩ (.before []) := rfl

theorem outcome_expect_cons (stop : Position) (kind : Kind) (problem : Token → Problem) (t : Token)
    (ts : List Token) :
    (expect stop kind problem (t :: ts)).outcome =
      if t.kind = kind then .done t ts else .failed ⟨problem t, t.start⟩ (.before (t :: ts)) := by
  rw [expect]
  split <;> rfl

@[simp] theorem outcome_expectHere_nil (stop : Position) (kind : Kind)
    (problem : Token → Problem) :
    (expectHere stop kind problem []).outcome =
      .failed ⟨problem (.eof stop), stop⟩ (.on []) := rfl

theorem outcome_expectHere_cons (stop : Position) (kind : Kind) (problem : Token → Problem)
    (t : Token) (ts : List Token) :
    (expectHere stop kind problem (t :: ts)).outcome =
      if t.kind = kind then .done t ts else .failed ⟨problem t, t.start⟩ (.on (t :: ts)) := by
  rw [expectHere]
  split <;> rfl

theorem Outcome.required_eq_done {kind : Kind} {t u : Token} {ts rest : List Token}
    {d : Diagnostic} {halt : Halt} :
    (if t.kind = kind then Outcome.done t ts else .failed d halt) = .done u rest ↔
      t :: ts = u :: rest ∧ u.kind = kind := by
  split
  · next h =>
    simp only [done.injEq, List.cons.injEq]
    constructor
    · rintro ⟨rfl, rfl⟩
      exact ⟨⟨rfl, rfl⟩, h⟩
    · exact And.left
  · next h =>
    simp only [List.cons.injEq, reduceCtorEq, false_iff, not_and]
    rintro ⟨rfl, -⟩
    exact h

theorem outcome_expect_of_kind {kind : Kind} {t : Token} (h : t.kind = kind) (stop : Position)
    (problem : Token → Problem) (ts : List Token) :
    (expect stop kind problem (t :: ts)).outcome = .done t ts := by
  rw [outcome_expect_cons, if_pos h]

theorem outcome_expect_eq_done {stop : Position} {kind : Kind} {problem : Token → Problem}
    {ts rest : List Token} {t : Token} :
    (expect stop kind problem ts).outcome = .done t rest ↔ ts = t :: rest ∧ t.kind = kind := by
  cases ts with
  | nil => simp
  | cons u us => rw [outcome_expect_cons, Outcome.required_eq_done]

theorem outcome_expectHere_eq_done {stop : Position} {kind : Kind} {problem : Token → Problem}
    {ts rest : List Token} {t : Token} :
    (expectHere stop kind problem ts).outcome = .done t rest ↔ ts = t :: rest ∧ t.kind = kind := by
  cases ts with
  | nil => simp
  | cons u us => rw [outcome_expectHere_cons, Outcome.required_eq_done]

namespace Parse

variable (stop : Position)

/-! Expressions. -/

@[simp] theorem outcome_expr_nil (level : Precedence) :
    (expr stop level []).outcome = .failed ⟨noExpression (.eof stop), stop⟩ (.on []) := by
  rw [expr, Attempt.outcome_failOn]

theorem outcome_expr_cons (level : Precedence) (t : Token) (us : List Token) :
    (expr stop level (t :: us)).outcome = (exprFrom stop level t us).outcome := by
  rw [expr, Attempt.outcome_whole]

theorem outcome_exprFrom (level : Precedence) (t : Token) (us : List Token) :
    (exprFrom stop level t us).outcome =
      (operand stop t us).outcome.bind fun left vs => (extend stop level left vs).outcome := by
  rw [exprFrom, Attempt.outcome_bind]

theorem outcome_unary (op : Token) (us : List Token) :
    (unary stop op us).outcome = (expr stop .unary us).outcome.map (.unary op op.value) := by
  rw [unary, Attempt.outcome_map]

theorem outcome_grouped (us : List Token) :
    (grouped stop us).outcome = (expr stop .lowest us).outcome.bind fun e vs =>
      (expect stop .rightParen unclosedGroup vs).outcome.map fun _ => e := by
  simp only [grouped, Attempt.outcome_bind, Attempt.outcome_map]

theorem outcome_operand_of_literal {t : Token} {e : Except Problem (Expr Token)}
    (us : List Token) (h : Expr.ofToken? t = some e) :
    (operand stop t us).outcome = (Attempt.ofToken t us e).outcome := by
  rw [operand, h]

theorem ofToken?_of_isUnary {t : Token} (h : t.kind.isUnary = true) : Expr.ofToken? t = none := by
  unfold Expr.ofToken?
  cases hk : t.kind <;> simp_all [Kind.isUnary]

theorem ofToken?_of_leftParen {t : Token} (h : t.kind = .leftParen) : Expr.ofToken? t = none := by
  simp only [Expr.ofToken?, h]

theorem outcome_operand_of_isUnary {t : Token} (us : List Token) (h : t.kind.isUnary = true) :
    (operand stop t us).outcome = (unary stop t us).outcome := by
  rw [operand, ofToken?_of_isUnary h]
  cases hk : t.kind <;> simp_all [Kind.isUnary]

theorem outcome_operand_of_leftParen {t : Token} (us : List Token) (h : t.kind = .leftParen) :
    (operand stop t us).outcome = (grouped stop us).outcome := by
  rw [operand, ofToken?_of_leftParen h]
  simp only [h, Attempt.outcome_taking]

theorem outcome_operand_of_not_startsExpr {t : Token} (us : List Token)
    (h : t.kind.startsExpr = false) :
    (operand stop t us).outcome = .failed ⟨noExpression t, t.start⟩ (.on (t :: us)) := by
  rw [operand_of_not_startsExpr stop us h, Attempt.outcome_ofToken_error]

theorem operand_cases (t : Token) :
    (∃ e, Expr.ofToken? t = some e) ∨ t.kind.isUnary = true ∨ t.kind = .leftParen ∨
      t.kind.startsExpr = false := by
  unfold Expr.ofToken?
  cases t.kind <;> simp [Kind.isUnary, Kind.startsExpr]

@[simp] theorem outcome_extend_nil (level : Precedence) (left : Expr Token) :
    (extend stop level left []).outcome = .done left [] := by
  rw [extend, Attempt.outcome_pure]

theorem outcome_extend_of_lt {level : Precedence} {op : Token} (left : Expr Token)
    (us : List Token) (h : level < .of op.kind) :
    (extend stop level left (op :: us)).outcome =
      (extendOnce stop left op us).outcome.bind fun e rest =>
        (extend stop level e rest).outcome := by
  rw [extend, if_pos h, Attempt.outcome_whole, Attempt.outcome_bind]

theorem outcome_extend_of_not_lt {level : Precedence} {op : Token} (left : Expr Token)
    (us : List Token) (h : ¬level < .of op.kind) :
    (extend stop level left (op :: us)).outcome = .done left (op :: us) := by
  rw [extend, if_neg h, Attempt.outcome_pure]

theorem outcome_extendOnce (left : Expr Token) (op : Token) (us : List Token) :
    (extendOnce stop left op us).outcome =
      if op.kind = .leftParen then (call stop left op us).outcome
      else (binary stop left op us).outcome := by
  rw [extendOnce]
  split
  · rfl
  · exact Attempt.outcome_taking op _

theorem outcome_binary (left : Expr Token) (op : Token) (us : List Token) :
    (binary stop left op us).outcome =
      (expr stop op.kind.operandLevel us).outcome.map (.binary op op.value left) := by
  rw [binary, Attempt.outcome_map]

theorem outcome_call_name (n : Name Token) (op : Token) (us : List Token) :
    (call stop (.name n) op us).outcome = (arguments stop us).outcome.map (.call op n) := by
  rw [call, Attempt.outcome_taking, Attempt.outcome_map]

theorem outcome_call_of_not_name {callee : Expr Token} (op : Token) (us : List Token)
    (h : ∀ n, callee ≠ .name n) :
    (call stop callee op us).outcome =
      .failed ⟨notCallable callee, op.start⟩ (.on (op :: us)) := by
  cases callee with
  | name n => exact absurd rfl (h n)
  | _ => rw [call, Attempt.outcome_ofToken_error]; simp

@[simp] theorem outcome_arguments_nil :
    (arguments stop []).outcome = .failed ⟨noExpression (.eof stop), stop⟩ (.on []) := by
  rw [arguments, Attempt.outcome_map, outcome_expr_nil, Outcome.map_failed]

theorem outcome_arguments_cons (t : Token) (vs : List Token) :
    (arguments stop (t :: vs)).outcome =
      if t.kind = .rightParen then .done [] vs
      else (expr stop .lowest (t :: vs)).outcome.bind fun e rest =>
        (moreArguments stop rest).outcome.map (e :: ·) := by
  rw [arguments]
  split
  · rfl
  · simp only [Attempt.outcome_bind, Attempt.outcome_map]

@[simp] theorem outcome_moreArguments_nil :
    (moreArguments stop []).outcome =
      .failed ⟨notExpected .rightParen (.eof stop), stop⟩ (.before []) := by
  rw [moreArguments, Attempt.outcome_map, outcome_expect_nil, Outcome.map_failed]

theorem outcome_moreArguments_cons (t : Token) (vs : List Token) :
    (moreArguments stop (t :: vs)).outcome =
      if t.kind = .comma then
        (expr stop .lowest vs).outcome.bind fun e rest =>
          (moreArguments stop rest).outcome.map (e :: ·)
      else
        (expect stop .rightParen (notExpected .rightParen) (t :: vs)).outcome.map fun _ => [] := by
  rw [moreArguments]
  split
  · simp only [Attempt.outcome_past, Attempt.outcome_bind, Attempt.outcome_map]
  · exact Attempt.outcome_map _ _

/-! Statements that hold no others. -/

theorem outcome_exprStmt (t : Token) (us : List Token) :
    (exprStmt stop t us).outcome = (exprFrom stop .lowest t us).outcome.map (.expression t) := by
  rw [exprStmt, Attempt.outcome_map]

theorem outcome_assignment (t : Token) (name : Name Token) (isLocal : Bool) (us : List Token) :
    (assignment stop t name isLocal us).outcome =
      (expr stop .lowest us).outcome.map fun value => ⟨t, name, value, isLocal⟩ := by
  rw [assignment, Attempt.outcome_map]

theorem outcome_callStmt (t op : Token) (us : List Token) :
    (callStmt stop t op us).outcome =
      (arguments stop us).outcome.map fun es => .expression t (.call op (.ofToken t) es) := by
  rw [callStmt, Attempt.outcome_map]

theorem outcome_nameStmt_nil (t : Token) :
    (nameStmt stop t []).outcome = (exprStmt stop t []).outcome := rfl

theorem outcome_nameStmt_cons (t u : Token) (vs : List Token) :
    (nameStmt stop t (u :: vs)).outcome =
      if u.kind = .assign then (assignment stop t (.ofToken t) false vs).outcome.map .assign
      else if u.kind = .leftParen then (callStmt stop t u vs).outcome
      else (exprStmt stop t (u :: vs)).outcome := by
  rw [nameStmt]
  split
  · simp only [Attempt.outcome_taking, Attempt.outcome_past, Attempt.outcome_map]
  split
  · simp only [Attempt.outcome_taking, Attempt.outcome_past]
  · rfl

theorem outcome_localStmt (t : Token) (us : List Token) :
    (localStmt stop t us).outcome =
      (expect stop .identifier (.wanted .assignment "identifier after `local`") us).outcome.bind
        fun name vs =>
      (expect stop .assign
        (.wanted .assignment ("`=` after local `" ++ name.value ++ "`")) vs).outcome.bind
        fun _ ws =>
      (assignment stop t (.ofToken name) true ws).outcome.map .assign := by
  simp only [localStmt, Attempt.outcome_bind, Attempt.outcome_map]

theorem outcome_expectEnd (ts : List Token) :
    (expectEnd stop ts).outcome =
      if endsStmt ts then .done () ts
      else .failed ⟨.wanted .returning "end of statement after return" (ts.headD (.eof stop)),
        (ts.headD (.eof stop)).start⟩ (.before ts) := by
  rw [expectEnd]
  split <;> rfl

theorem outcome_returnStmt (t : Token) (us : List Token) :
    (returnStmt stop t us).outcome =
      if endsStmt us then .done (.ret t none) us
      else (expr stop .lowest us).outcome.bind fun value vs =>
        (expectEnd stop vs).outcome.map fun _ => .ret t (some value) := by
  rw [returnStmt]
  split
  · rfl
  · simp only [Attempt.outcome_bind, Attempt.outcome_map]

/-! Headers. -/

@[simp] theorem outcome_moreParameters_nil :
    (moreParameters stop []).outcome =
      .failed ⟨unclosedParameters (.eof stop), stop⟩ (.before []) := by
  rw [moreParameters, Attempt.outcome_map, outcome_expect_nil, Outcome.map_failed]

theorem outcome_moreParameters_cons (t : Token) (vs : List Token) :
    (moreParameters stop (t :: vs)).outcome =
      if t.kind = .comma then
        (expect stop .identifier noParameter vs).outcome.bind fun name rest =>
          (moreParameters stop rest).outcome.map fun r => (.ofToken name :: r.1, r.2)
      else (expect stop .rightParen unclosedParameters (t :: vs)).outcome.map
        fun closer => ([], closer) := by
  rw [moreParameters]
  split
  · simp only [Attempt.outcome_past, Attempt.outcome_bind, Attempt.outcome_map]
  · exact Attempt.outcome_map _ _

@[simp] theorem outcome_parameters_nil :
    (parameters stop []).outcome = .failed ⟨noParameter (.eof stop), stop⟩ (.before []) := rfl

theorem outcome_parameters_cons (t : Token) (vs : List Token) :
    (parameters stop (t :: vs)).outcome =
      if t.kind = .rightParen then .done ([], t) vs
      else (expect stop .identifier noParameter (t :: vs)).outcome.bind fun name ws =>
        (moreParameters stop ws).outcome.map fun r => (.ofToken name :: r.1, r.2) := by
  rw [parameters]
  split
  · rfl
  · simp only [Attempt.outcome_bind, Attempt.outcome_map]

@[simp] theorem outcome_step_nil : (step stop []).outcome = .done (defaultStep stop) [] := rfl

theorem outcome_step_cons (t : Token) (vs : List Token) :
    (step stop (t :: vs)).outcome =
      if t.kind = .comma then (expr stop .lowest vs).outcome
      else .done (defaultStep t.start) (t :: vs) := by
  rw [step]
  split
  · exact Attempt.outcome_past t _
  · rfl

theorem outcome_forHeader (us : List Token) :
    (forHeader stop us).outcome =
      (expect stop .identifier (.wanted .forLoop "loop variable after `for`") us).outcome.bind
        fun name vs =>
      (expect stop .assign (.wanted .forLoop ("`=` after `" ++ name.value ++ "`")) vs).outcome.bind
        fun _ vs =>
      (assignment stop name (.ofToken name) false vs).outcome.bind
        fun init vs =>
      (expect stop .comma (.wanted .forLoop "`,` after for initial value") vs).outcome.bind
        fun _ vs =>
      (expr stop .lowest vs).outcome.bind
        fun limit vs =>
      (step stop vs).outcome.bind
        fun step vs =>
      (expect stop .kwDo (.wanted .forLoop "`do` after for header") vs).outcome.map
        fun opener => ⟨init, limit, step, opener⟩ := by
  simp only [forHeader, Attempt.outcome_bind, Attempt.outcome_map]

theorem outcome_functionHeader (us : List Token) :
    (functionHeader stop us).outcome =
      (expect stop .identifier (.wanted .function "function name") us).outcome.bind
        fun name vs =>
      (expect stop .leftParen (.wanted .function ("`(` after `" ++ name.value ++ "`"))
          vs).outcome.bind
        fun _ vs =>
      (parameters stop vs).outcome.map fun r => ⟨name, r.1, r.2⟩ := by
  simp only [functionHeader, Attempt.outcome_bind, Attempt.outcome_map]

/-! Statements and blocks. -/

theorem run_stmtFrom (t : Token) (us : List Token) :
    (stmtFrom stop t us).run =
      match t.kind with
      | .identifier => (nameStmt stop t us).outcome.run
      | .kwLocal => (localStmt stop t us).outcome.run
      | .kwReturn => (returnStmt stop t us).outcome.run
      | .kwIf => (condStmt stop t us).run
      | .kwWhile => (whileStmt stop t us).run
      | .kwFor => (forStmt stop t us).run
      | .kwRepeat => (repeatStmt stop t us).run
      | .kwFunction => (functionStmt stop t us).run
      | _ => (exprStmt stop t us).outcome.run := by
  rw [stmtFrom]
  cases t.kind <;> simp only [Logged.run_logged, Logged.run_taking, Attempt.outcome_taking]

theorem outcome_closing_of_kind {kind : Kind} {t : Token} (h : t.kind = kind) (form : Form)
    (what : String) (ts : List Token) :
    (closing stop form kind what (t :: ts)).outcome = .done t ts := by
  rw [closing, outcome_expectHere_cons, if_pos h]

@[simp] theorem run_statements_nil (construct terminator : Kind) :
    (statements stop construct terminator []).run =
      ⟨[], .failed ⟨.unclosedBlock construct.text terminator.text, stop⟩ (.on [])⟩ := by
  rw [statements]
  rfl

theorem run_statements_of_blockEnd {t : Token} (construct terminator : Kind) (us : List Token)
    (h : t.kind.isBlockEnd = true) :
    (statements stop construct terminator (t :: us)).run = ⟨[], .done [] (t :: us)⟩ := by
  rw [statements, if_pos h]
  rfl

theorem run_statements_of_separator {t : Token} (construct terminator : Kind) (us : List Token)
    (h : t.kind.isSeparator = true) :
    (statements stop construct terminator (t :: us)).run =
      (statements stop construct terminator us).run := by
  have hend : ¬t.kind.isBlockEnd = true := by
    cases hk : t.kind <;> simp_all [Kind.isSeparator, Kind.isBlockEnd]
  rw [statements, if_neg hend, if_pos h, Logged.run_past]

theorem run_statements_of_done {t : Token} {us rest : List Token} {log : List Diagnostic}
    {s : Stmt Token} (construct terminator : Kind) (hend : ¬t.kind.isBlockEnd = true)
    (hsep : ¬t.kind.isSeparator = true) (h : (stmtFrom stop t us).run = ⟨log, .done s rest⟩) :
    (statements stop construct terminator (t :: us)).run =
      ((statements stop construct terminator rest).run.map (s :: ·)).after log := by
  rw [statements, if_neg hend, if_neg hsep]
  rcases hs : stmtFrom stop t us with ⟨log', s' | ⟨d, halt⟩⟩ <;> rw [hs] at h <;> cases h
  simp only [Logged.run_whole, Logged.run_after, Logged.run_map]

theorem run_statements_of_failed {t : Token} {us : List Token} {log : List Diagnostic}
    {d : Diagnostic} {halt : Halt} (construct terminator : Kind)
    (hend : ¬t.kind.isBlockEnd = true) (hsep : ¬t.kind.isSeparator = true)
    (h : (stmtFrom stop t us).run = ⟨log, .failed d halt⟩) :
    (statements stop construct terminator (t :: us)).run =
      (statements stop construct terminator halt.resumeInBlock).run.after (log ++ [d]) := by
  rw [statements, if_neg hend, if_neg hsep]
  rcases hs : stmtFrom stop t us with ⟨log', s' | ⟨d', halt'⟩⟩ <;> rw [hs] at h <;> cases h
  exact Logged.run_after _ _ _

theorem run_block (construct terminator : Kind) (opener : Token) (us : List Token) :
    (block stop construct terminator opener us).run =
      (statements stop construct terminator us).run.map (⟨opener, ·⟩) := by
  rw [block, Logged.run_map]

theorem run_condStmt (t : Token) (us : List Token) :
    (condStmt stop t us).run =
      (expr stop .lowest us).outcome.run.bind fun condition vs =>
      (expect stop .kwThen
        (.wanted .conditional "`then` after if condition") vs).outcome.run.bind fun opener ws =>
      (block stop .kwIf .kwEnd opener ws).run.bind fun consequence xs =>
      (alternative stop xs).run.map (.cond t condition consequence) := by
  simp only [condStmt, Logged.run_attempt_andThen, Logged.run_andThen, Logged.run_map]

theorem run_alternative_nil :
    (alternative stop []).run =
      ((closing stop .conditional .kwEnd "if" []).outcome.map fun _ => none).run := by
  rw [alternative, Logged.run_logged, Attempt.outcome_map]

theorem run_alternative_cons (t : Token) (us : List Token) :
    (alternative stop (t :: us)).run =
      if t.kind = .kwElseif then (condStmt stop t us).run.map fun s => some ⟨t, [s]⟩
      else if t.kind = .kwElse then
        (block stop .kwIf .kwEnd t us).run.bind fun b vs =>
        ((closing stop .conditional .kwEnd "else block" vs).outcome.map fun _ => some b).run
      else ((closing stop .conditional .kwEnd "if" (t :: us)).outcome.map fun _ => none).run := by
  rw [alternative]
  split
  · simp only [Logged.run_past, Logged.run_map]
  split
  · simp only [Logged.run_past, Logged.run_andThen, Logged.run_logged, Attempt.outcome_map]
  · simp only [Logged.run_logged, Attempt.outcome_map]

theorem run_whileStmt (t : Token) (us : List Token) :
    (whileStmt stop t us).run =
      (expr stop .lowest us).outcome.run.bind fun condition vs =>
      (expect stop .kwDo
        (.wanted .whileLoop "`do` after while condition") vs).outcome.run.bind fun opener ws =>
      (block stop .kwWhile .kwEnd opener ws).run.bind fun body xs =>
      ((closing stop .whileLoop .kwEnd "while" xs).outcome.map
        fun _ => .whileLoop t condition body).run := by
  simp only [whileStmt, Logged.run_attempt_andThen, Logged.run_andThen, Logged.run_logged,
    Attempt.outcome_map]

theorem run_forStmt (t : Token) (us : List Token) :
    (forStmt stop t us).run =
      (forHeader stop us).outcome.run.bind fun header vs =>
      (block stop .kwFor .kwEnd header.opener vs).run.bind fun body ws =>
      ((closing stop .forLoop .kwEnd "for" ws).outcome.map fun _ =>
        .forLoop t header.init header.limit header.step body).run := by
  simp only [forStmt, Logged.run_attempt_andThen, Logged.run_andThen, Logged.run_logged,
    Attempt.outcome_map]

theorem run_repeatStmt (t : Token) (us : List Token) :
    (repeatStmt stop t us).run =
      (block stop .kwRepeat .kwUntil t us).run.bind fun body vs =>
      (closing stop .repeatLoop .kwUntil "repeat" vs).outcome.run.bind fun _ ws =>
      ((expr stop .lowest ws).outcome.map fun condition => .repeatLoop t body condition).run := by
  simp only [repeatStmt, Logged.run_attempt_andThen, Logged.run_andThen, Logged.run_logged,
    Attempt.outcome_map]

theorem run_functionStmt (t : Token) (us : List Token) :
    (functionStmt stop t us).run =
      (functionHeader stop us).outcome.run.bind fun header vs =>
      (block stop .kwFunction .kwEnd header.opener vs).run.bind fun body ws =>
      ((closing stop .function .kwEnd ("`" ++ header.name.value ++ "`") ws).outcome.map fun _ =>
        .function t (.ofToken header.name) header.parameters body).run := by
  simp only [functionStmt, Logged.run_attempt_andThen, Logged.run_andThen, Logged.run_logged,
    Attempt.outcome_map]

end Parse

namespace Parsed

variable (stop : Position)

@[simp] theorem ofTokens_nil : ofTokens stop [] = ⟨[], []⟩ := by
  rw [ofTokens]

theorem ofTokens_of_separator {t : Token} (us : List Token) (h : t.kind.isSeparator = true) :
    ofTokens stop (t :: us) = ofTokens stop us := by
  rw [ofTokens, if_pos h]

theorem ofTokens_of_done {t : Token} {us rest : List Token} {log : List Diagnostic}
    {s : Stmt Token} (hsep : ¬t.kind.isSeparator = true)
    (h : (Parse.stmtFrom stop t us).run = ⟨log, .done s rest⟩) :
    ofTokens stop (t :: us) =
      ⟨s :: (ofTokens stop rest).program, log ++ (ofTokens stop rest).diagnostics⟩ := by
  rw [ofTokens, if_neg hsep]
  rcases hs : Parse.stmtFrom stop t us with ⟨log', s' | ⟨d, halt⟩⟩ <;> rw [hs] at h <;> cases h
  rfl

theorem ofTokens_of_failed {t : Token} {us : List Token} {log : List Diagnostic}
    {d : Diagnostic} {halt : Halt} (hsep : ¬t.kind.isSeparator = true)
    (h : (Parse.stmtFrom stop t us).run = ⟨log, .failed d halt⟩) :
    ofTokens stop (t :: us) =
      ⟨(ofTokens stop halt.resume).program,
        log ++ d :: (ofTokens stop halt.resume).diagnostics⟩ := by
  rw [ofTokens, if_neg hsep]
  rcases hs : Parse.stmtFrom stop t us with ⟨log', s' | ⟨d', halt'⟩⟩ <;> rw [hs] at h <;> cases h
  rfl

end Parsed

theorem dropLast_tokenize (text : String) (file : Option String) :
    (tokenize text file).dropLast = (scan text file).tokens := by
  simp [tokenize, Scanned.toList]

end LuaSyntax
