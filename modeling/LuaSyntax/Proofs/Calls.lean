import LuaSyntax.Proofs.Reports

/-! The calls that the readers make. Every reader is written once more, one level deep, with the
calls it makes noted in their order; what the calls give is taken from the readers themselves, and
what is made of it is what the reader gives. -/

namespace LuaSyntax

/-- What is called again and again: routines that call themselves, and the passes of loops. -/
inductive Routine where
  | program
  | pass
  | statement
  | branch
  | block
  | expr
  | extension
  | argument
  | parameter
  | recovery
deriving DecidableEq

/-- The order of the routines where a call takes no token. -/
def Routine.rank : Routine → Nat
  | block => 3
  | program | pass => 2
  | statement | branch => 1
  | expr | extension | argument | parameter | recovery => 0

theorem Routine.rank_lt (r : Routine) : r.rank < 4 := by
  cases r <;> decide

/-- A call of a routine or a pass of a loop, with what it is given. -/
inductive Visit where
  | program (ts : List Token)
  | pass (construct terminator : Kind) (ts : List Token)
  | statement (t : Token) (us : List Token)
  | branch (t : Token) (us : List Token)
  | block (construct terminator : Kind) (opener : Token) (us : List Token)
  | expr (level : Precedence) (ts : List Token)
  | extension (level : Precedence) (left : Expr Token) (ts : List Token)
  | argument (us : List Token)
  | parameter (us : List Token)
  | recovery (ts : List Token)

namespace Visit

def routine : Visit → Routine
  | program _ => .program
  | pass _ _ _ => .pass
  | statement _ _ => .statement
  | branch _ _ => .branch
  | block _ _ _ _ => .block
  | expr _ _ => .expr
  | extension _ _ _ => .extension
  | argument _ => .argument
  | parameter _ => .parameter
  | recovery _ => .recovery

/-- The tokens that are left when the visit begins. The end of input is none of them. -/
def remaining : Visit → List Token
  | program ts | pass _ _ ts | expr _ ts | extension _ _ ts | recovery ts => ts
  | statement t us => t :: us
  | branch _ us | block _ _ _ us | argument us | parameter us => us

end Visit

def Run.rest {α : Type} (r : Run α) : List Token := r.outcome.rest

@[simp] theorem Run.rest_map {α β : Type} (f : α → β) (r : Run α) : (r.map f).rest = r.rest := by
  obtain ⟨log, o⟩ := r
  cases o <;> rfl

@[simp] theorem Run.rest_after {α : Type} (log : List Diagnostic) (r : Run α) :
    (r.after log).rest = r.rest := rfl

/-- A run, and the visits it is made of that are called directly. -/
structure Traced (α : Type) where
  calls : List Visit
  run : Run α

namespace Traced

variable {α β : Type}

def quiet (o : Outcome α) : Traced α := ⟨[], o.run⟩

def map (f : α → β) (x : Traced α) : Traced β := ⟨x.calls, x.run.map f⟩

def bind (x : Traced α) (f : α → List Token → Traced β) : Traced β :=
  match x.run.outcome with
  | .done a rest => ⟨x.calls ++ (f a rest).calls, (f a rest).run.after x.run.log⟩
  | .failed d halt => ⟨x.calls, ⟨x.run.log, .failed d halt⟩⟩

@[simp] theorem run_quiet (o : Outcome α) : (quiet o).run = o.run := rfl

@[simp] theorem run_map (f : α → β) (x : Traced α) : (x.map f).run = x.run.map f := rfl

@[simp] theorem run_bind (x : Traced α) (f : α → List Token → Traced β) :
    (x.bind f).run = x.run.bind fun a rest => (f a rest).run := by
  obtain ⟨calls, log, o⟩ := x
  cases o <;> rfl

theorem mem_calls_bind {x : Traced α} {f : α → List Token → Traced β} {w : Visit}
    (h : w ∈ (x.bind f).calls) :
    w ∈ x.calls ∨ ∃ a rest, x.run.outcome = .done a rest ∧ w ∈ (f a rest).calls := by
  obtain ⟨calls, log, o⟩ := x
  cases o with
  | done a rest =>
    rcases List.mem_append.1 h with hx | hf
    · exact .inl hx
    · exact .inr ⟨a, rest, rfl, hf⟩
  | failed d halt => exact .inl h

end Traced

theorem Outcome.run_map {α β : Type} (f : α → β) (o : Outcome α) :
    (o.map f).run = o.run.map f := rfl

theorem Outcome.run_bind {α β : Type} (o : Outcome α) (f : α → List Token → Outcome β) :
    (o.bind f).run = o.run.bind fun a rest => (f a rest).run := by
  cases o <;> rfl

namespace Traced

variable (stop : Position)

/-! Single calls. -/

def expr (level : Precedence) (ts : List Token) : Traced (Expr Token) :=
  ⟨[.expr level ts], (Parse.expr stop level ts).outcome.run⟩

def extension (level : Precedence) (left : Expr Token) (ts : List Token) : Traced (Expr Token) :=
  ⟨[.extension level left ts], (Parse.extend stop level left ts).outcome.run⟩

def argument (us : List Token) : Traced (List (Expr Token)) :=
  ⟨[.argument us], (Parse.moreArguments stop us).outcome.run⟩

def parameter (us : List Token) : Traced (List (Name Token) × Token) :=
  ⟨[.parameter us], (Parse.moreParameters stop us).outcome.run⟩

def pass (construct terminator : Kind) (ts : List Token) : Traced (List (Stmt Token)) :=
  ⟨[.pass construct terminator ts], (Parse.statements stop construct terminator ts).run⟩

def block (construct terminator : Kind) (opener : Token) (us : List Token) :
    Traced (Block Token (Stmt Token)) :=
  ⟨[.block construct terminator opener us], (Parse.block stop construct terminator opener us).run⟩

def branch (t : Token) (us : List Token) : Traced (Stmt Token) :=
  ⟨[.branch t us], (Parse.condStmt stop t us).run⟩

def required (kind : Kind) (problem : Token → Problem) (ts : List Token) : Traced Token :=
  quiet (expect stop kind problem ts).outcome

def closing (form : Form) (kind : Kind) (what : String) (ts : List Token) : Traced Token :=
  quiet (Parse.closing stop form kind what ts).outcome

/-! Expressions. -/

def ofOperand (t : Token) (us : List Token) : Traced (Expr Token) :=
  match Expr.ofToken? t with
  | some e => quiet (Attempt.ofToken t us e).outcome
  | none =>
    if t.kind.isUnary then (expr stop .unary us).map (.unary t t.value)
    else if t.kind = .leftParen then
      (expr stop .lowest us).bind fun e vs =>
      (required stop .rightParen Parse.unclosedGroup vs).map fun _ => e
    else quiet (.failed ⟨Parse.noExpression t, t.start⟩ (.on (t :: us)))

def ofExprFrom (level : Precedence) (t : Token) (us : List Token) : Traced (Expr Token) :=
  (ofOperand stop t us).bind fun left vs => extension stop level left vs

def ofExpr (level : Precedence) : List Token → Traced (Expr Token)
  | [] => quiet (Parse.expr stop level []).outcome
  | t :: us => ofExprFrom stop level t us

def ofArguments : List Token → Traced (List (Expr Token))
  | [] => (expr stop .lowest []).map fun e => [e]
  | t :: vs =>
    if t.kind = .rightParen then quiet (.done [] vs)
    else (expr stop .lowest (t :: vs)).bind fun e rest => (argument stop rest).map (e :: ·)

def ofArgument : List Token → Traced (List (Expr Token))
  | [] => (required stop .rightParen (Parse.notExpected .rightParen) []).map fun _ => []
  | t :: vs =>
    if t.kind = .comma then
      (expr stop .lowest vs).bind fun e rest => (argument stop rest).map (e :: ·)
    else (required stop .rightParen (Parse.notExpected .rightParen) (t :: vs)).map fun _ => []

def ofCall (callee : Expr Token) (op : Token) (us : List Token) : Traced (Expr Token) :=
  match callee with
  | .name n => (ofArguments stop us).map (.call op n)
  | _ => quiet (.failed ⟨Parse.notCallable callee, op.start⟩ (.on (op :: us)))

def ofExtendOnce (left : Expr Token) (op : Token) (us : List Token) : Traced (Expr Token) :=
  if op.kind = .leftParen then ofCall stop left op us
  else (expr stop op.kind.operandLevel us).map (.binary op op.value left)

def ofExtension (level : Precedence) (left : Expr Token) : List Token → Traced (Expr Token)
  | [] => quiet (.done left [])
  | op :: us =>
    if level < .of op.kind then
      (ofExtendOnce stop left op us).bind fun e rest => extension stop level e rest
    else quiet (.done left (op :: us))

/-! Statements that hold no others, and headers. -/

def ofExprStmt (t : Token) (us : List Token) : Traced (Stmt Token) :=
  (expr stop .lowest (t :: us)).map (.expression t)

def ofAssignment (t : Token) (name : Name Token) (isLocal : Bool) (us : List Token) :
    Traced (Assign Token) :=
  (expr stop .lowest us).map fun value => ⟨t, name, value, isLocal⟩

def ofNameStmt (t : Token) : List Token → Traced (Stmt Token)
  | [] => ofExprStmt stop t []
  | u :: vs =>
    if u.kind = .assign then (ofAssignment stop t (.ofToken t) false vs).map .assign
    else if u.kind = .leftParen then
      (ofArguments stop vs).map fun es => .expression t (.call u (.ofToken t) es)
    else ofExprStmt stop t (u :: vs)

def ofLocalStmt (t : Token) (us : List Token) : Traced (Stmt Token) :=
  (required stop .identifier (.wanted .assignment "identifier after `local`") us).bind
    fun name vs =>
  (required stop .assign (.wanted .assignment ("`=` after local `" ++ name.value ++ "`")) vs).bind
    fun _ ws =>
  (ofAssignment stop t (.ofToken name) true ws).map .assign

def ofReturnStmt (t : Token) (us : List Token) : Traced (Stmt Token) :=
  if Parse.endsStmt us then quiet (.done (.ret t none) us)
  else
    (expr stop .lowest us).bind fun value vs =>
    (quiet (Parse.expectEnd stop vs).outcome).map fun _ => .ret t (some value)

def ofParameter : List Token → Traced (List (Name Token) × Token)
  | [] => (required stop .rightParen Parse.unclosedParameters []).map fun closer => ([], closer)
  | t :: vs =>
    if t.kind = .comma then
      (required stop .identifier Parse.noParameter vs).bind fun name rest =>
      (parameter stop rest).map fun r => (.ofToken name :: r.1, r.2)
    else (required stop .rightParen Parse.unclosedParameters (t :: vs)).map
      fun closer => ([], closer)

def ofParameters : List Token → Traced (List (Name Token) × Token)
  | [] => (required stop .identifier Parse.noParameter []).map fun t => ([], t)
  | t :: vs =>
    if t.kind = .rightParen then quiet (.done ([], t) vs)
    else
      (required stop .identifier Parse.noParameter (t :: vs)).bind fun name ws =>
      (parameter stop ws).map fun r => (.ofToken name :: r.1, r.2)

def ofStep : List Token → Traced (Expr Token)
  | [] => quiet (.done (Parse.defaultStep stop) [])
  | t :: vs =>
    if t.kind = .comma then expr stop .lowest vs
    else quiet (.done (Parse.defaultStep t.start) (t :: vs))

def ofForHeader (us : List Token) : Traced Parse.ForHeader :=
  (required stop .identifier (.wanted .forLoop "loop variable after `for`") us).bind
    fun name vs =>
  (required stop .assign (.wanted .forLoop ("`=` after `" ++ name.value ++ "`")) vs).bind
    fun _ vs =>
  (ofAssignment stop name (.ofToken name) false vs).bind
    fun init vs =>
  (required stop .comma (.wanted .forLoop "`,` after for initial value") vs).bind
    fun _ vs =>
  (expr stop .lowest vs).bind
    fun limit vs =>
  (ofStep stop vs).bind
    fun step vs =>
  (required stop .kwDo (.wanted .forLoop "`do` after for header") vs).map
    fun opener => ⟨init, limit, step, opener⟩

def ofFunctionHeader (us : List Token) : Traced Parse.FunctionHeader :=
  (required stop .identifier (.wanted .function "function name") us).bind
    fun name vs =>
  (required stop .leftParen (.wanted .function ("`(` after `" ++ name.value ++ "`")) vs).bind
    fun _ vs =>
  (ofParameters stop vs).map fun r => ⟨name, r.1, r.2⟩

/-! Statements and blocks. -/

def ofAlternative : List Token → Traced (Option (Block Token (Stmt Token)))
  | [] => (closing stop .conditional .kwEnd "if" []).map fun _ => none
  | t :: us =>
    if t.kind = .kwElseif then (branch stop t us).map fun s => some ⟨t, [s]⟩
    else if t.kind = .kwElse then
      (block stop .kwIf .kwEnd t us).bind fun b vs =>
      (closing stop .conditional .kwEnd "else block" vs).map fun _ => some b
    else (closing stop .conditional .kwEnd "if" (t :: us)).map fun _ => none

def ofConsequence (t : Token) (condition : Expr Token) (vs : List Token) : Traced (Stmt Token) :=
  (required stop .kwThen (.wanted .conditional "`then` after if condition") vs).bind
    fun opener ws =>
  (block stop .kwIf .kwEnd opener ws).bind fun consequence xs =>
  (ofAlternative stop xs).map (.cond t condition consequence)

def ofBranch (t : Token) (us : List Token) : Traced (Stmt Token) :=
  (expr stop .lowest us).bind fun condition vs => ofConsequence stop t condition vs

def ofWhileStmt (t : Token) (us : List Token) : Traced (Stmt Token) :=
  (expr stop .lowest us).bind fun condition vs =>
  (required stop .kwDo (.wanted .whileLoop "`do` after while condition") vs).bind fun opener ws =>
  (block stop .kwWhile .kwEnd opener ws).bind fun body xs =>
  (closing stop .whileLoop .kwEnd "while" xs).map fun _ => .whileLoop t condition body

def ofForStmt (t : Token) (us : List Token) : Traced (Stmt Token) :=
  (ofForHeader stop us).bind fun header vs =>
  (block stop .kwFor .kwEnd header.opener vs).bind fun body ws =>
  (closing stop .forLoop .kwEnd "for" ws).map fun _ =>
    .forLoop t header.init header.limit header.step body

def ofRepeatStmt (t : Token) (us : List Token) : Traced (Stmt Token) :=
  (block stop .kwRepeat .kwUntil t us).bind fun body vs =>
  (closing stop .repeatLoop .kwUntil "repeat" vs).bind fun _ ws =>
  (expr stop .lowest ws).map fun condition => .repeatLoop t body condition

def ofFunctionStmt (t : Token) (us : List Token) : Traced (Stmt Token) :=
  (ofFunctionHeader stop us).bind fun header vs =>
  (block stop .kwFunction .kwEnd header.opener vs).bind fun body ws =>
  (closing stop .function .kwEnd ("`" ++ header.name.value ++ "`") ws).map fun _ =>
    .function t (.ofToken header.name) header.parameters body

def ofStmt (t : Token) (us : List Token) : Traced (Stmt Token) :=
  match t.kind with
  | .identifier => ofNameStmt stop t us
  | .kwLocal => ofLocalStmt stop t us
  | .kwReturn => ofReturnStmt stop t us
  | .kwIf => branch stop t us
  | .kwWhile => ofWhileStmt stop t us
  | .kwFor => ofForStmt stop t us
  | .kwRepeat => ofRepeatStmt stop t us
  | .kwFunction => ofFunctionStmt stop t us
  | _ => ofExprStmt stop t us

def ofBlock (construct terminator : Kind) (opener : Token) (us : List Token) :
    Traced (Block Token (Stmt Token)) :=
  (pass stop construct terminator us).map (⟨opener, ·⟩)

end Traced

def Halt.recoveries : Halt → List Visit
  | on [] => []
  | on (t :: ts) => if t.kind = .newline then [] else [.recovery ts]
  | before ts => [.recovery ts]

def Halt.recoveriesInBlock : Halt → List Visit
  | on (t :: ts) => if t.kind.isBlockEnd then [] else recoveries (on (t :: ts))
  | halt => halt.recoveries

/-- A pass over a block. A separator is visited as a statement too, and is none. -/
def Traced.ofPass (stop : Position) (construct terminator : Kind) :
    List Token → Traced (List (Stmt Token))
  | [] => quiet (Parse.statements stop construct terminator []).run.outcome
  | t :: us =>
    if t.kind.isBlockEnd then quiet (.done [] (t :: us))
    else if t.kind.isSeparator then
      ⟨[.statement t us, .pass construct terminator us],
        (Parse.statements stop construct terminator us).run⟩
    else
      match (Parse.stmtFrom stop t us).run with
      | ⟨log, .done s rest⟩ =>
        ⟨[.statement t us, .pass construct terminator rest],
          ((Parse.statements stop construct terminator rest).run.map (s :: ·)).after log⟩
      -- What stopped on a closing keyword or at the end goes on there, without a recovery.
      | ⟨log, .failed d halt⟩ =>
        ⟨.statement t us ::
            (halt.recoveriesInBlock ++ [.pass construct terminator halt.resumeInBlock]),
          (Parse.statements stop construct terminator halt.resumeInBlock).run.after (log ++ [d])⟩

def Parsed.ofPass (stop : Position) : List Token → List Visit × Parsed
  | [] => ([], ⟨[], []⟩)
  | t :: us =>
    if t.kind.isSeparator then ([.statement t us, .program us], ofTokens stop us)
    else
      match (Parse.stmtFrom stop t us).run with
      | ⟨log, .done s rest⟩ =>
        ([.statement t us, .program rest],
          ⟨s :: (ofTokens stop rest).program, log ++ (ofTokens stop rest).diagnostics⟩)
      | ⟨log, .failed d halt⟩ =>
        (.statement t us :: (halt.recoveries ++ [.program halt.resume]),
          ⟨(ofTokens stop halt.resume).program,
            log ++ d :: (ofTokens stop halt.resume).diagnostics⟩)

/-! What is made of the calls is what the reader gives. -/

namespace Traced

variable (stop : Position)

@[simp] theorem run_expr (level : Precedence) (ts : List Token) :
    (expr stop level ts).run = (Parse.expr stop level ts).outcome.run := rfl

@[simp] theorem run_extension (level : Precedence) (left : Expr Token) (ts : List Token) :
    (extension stop level left ts).run = (Parse.extend stop level left ts).outcome.run := rfl

@[simp] theorem run_argument (us : List Token) :
    (argument stop us).run = (Parse.moreArguments stop us).outcome.run := rfl

@[simp] theorem run_parameter (us : List Token) :
    (parameter stop us).run = (Parse.moreParameters stop us).outcome.run := rfl

@[simp] theorem run_pass (construct terminator : Kind) (ts : List Token) :
    (pass stop construct terminator ts).run =
      (Parse.statements stop construct terminator ts).run := rfl

@[simp] theorem run_block (construct terminator : Kind) (opener : Token) (us : List Token) :
    (block stop construct terminator opener us).run =
      (Parse.block stop construct terminator opener us).run := rfl

@[simp] theorem run_branch (t : Token) (us : List Token) :
    (branch stop t us).run = (Parse.condStmt stop t us).run := rfl

@[simp] theorem run_required (kind : Kind) (problem : Token → Problem) (ts : List Token) :
    (required stop kind problem ts).run = (expect stop kind problem ts).outcome.run := rfl

@[simp] theorem run_closing (form : Form) (kind : Kind) (what : String) (ts : List Token) :
    (closing stop form kind what ts).run = (Parse.closing stop form kind what ts).outcome.run := rfl

theorem run_ofOperand (t : Token) (us : List Token) :
    (ofOperand stop t us).run = (Parse.operand stop t us).outcome.run := by
  rw [ofOperand]
  rcases Parse.operand_cases t with ⟨e, he⟩ | hunary | hparen | hnone
  · rw [he, Parse.outcome_operand_of_literal stop us he]
    rfl
  · rw [Parse.ofToken?_of_isUnary hunary, Parse.outcome_operand_of_isUnary stop us hunary]
    simp only [hunary, if_true, Parse.outcome_unary, Outcome.run_map, run_map, run_expr]
  · rw [Parse.ofToken?_of_leftParen hparen, Parse.outcome_operand_of_leftParen stop us hparen,
      Parse.outcome_grouped]
    simp only [hparen, Kind.isUnary, Outcome.run_bind, Outcome.run_map, run_bind, run_map,
      run_expr, run_required, if_true, Bool.false_eq_true, if_false]
  · rw [Parse.outcome_operand_of_not_startsExpr stop us hnone, Expr.ofToken?]
    cases hk : t.kind <;> simp_all [Kind.startsExpr, Kind.isUnary]

theorem run_ofExpr (level : Precedence) (ts : List Token) :
    (ofExpr stop level ts).run = (Parse.expr stop level ts).outcome.run := by
  cases ts with
  | nil => rfl
  | cons t us =>
    rw [ofExpr, ofExprFrom, run_bind, run_ofOperand, Parse.outcome_expr_cons,
      Parse.outcome_exprFrom, Outcome.run_bind]
    simp only [run_extension]

theorem run_ofArguments (us : List Token) :
    (ofArguments stop us).run = (Parse.arguments stop us).outcome.run := by
  cases us with
  | nil => simp only [ofArguments, run_map, run_expr, Parse.arguments, Attempt.outcome_map,
      Outcome.run_map]
  | cons t vs =>
    rw [ofArguments, Parse.outcome_arguments_cons]
    split
    · rfl
    · simp only [run_bind, run_expr, run_map, run_argument, Outcome.run_bind, Outcome.run_map]

theorem run_ofArgument (us : List Token) :
    (ofArgument stop us).run = (Parse.moreArguments stop us).outcome.run := by
  cases us with
  | nil => simp only [ofArgument, run_map, run_required, Parse.moreArguments, Attempt.outcome_map,
      Outcome.run_map]
  | cons t vs =>
    rw [ofArgument, Parse.outcome_moreArguments_cons]
    split
    · simp only [run_bind, run_expr, run_map, run_argument, Outcome.run_bind, Outcome.run_map]
    · rfl

theorem run_ofCall (callee : Expr Token) (op : Token) (us : List Token) :
    (ofCall stop callee op us).run = (Parse.call stop callee op us).outcome.run := by
  unfold ofCall
  split
  · rw [Parse.outcome_call_name, run_map, run_ofArguments, Outcome.run_map]
  · next h =>
    rw [Parse.outcome_call_of_not_name stop op us h]
    rfl

theorem run_ofExtendOnce (left : Expr Token) (op : Token) (us : List Token) :
    (ofExtendOnce stop left op us).run = (Parse.extendOnce stop left op us).outcome.run := by
  rw [ofExtendOnce, Parse.outcome_extendOnce]
  split
  · exact run_ofCall stop left op us
  · rw [Parse.outcome_binary, run_map, run_expr, Outcome.run_map]

theorem run_ofExtension (level : Precedence) (left : Expr Token) (ts : List Token) :
    (ofExtension stop level left ts).run = (Parse.extend stop level left ts).outcome.run := by
  cases ts with
  | nil => rw [ofExtension, Parse.outcome_extend_nil, run_quiet]
  | cons op us =>
    rw [ofExtension]
    split
    · next h =>
      rw [Parse.outcome_extend_of_lt stop left us h, run_bind, run_ofExtendOnce, Outcome.run_bind]
      simp only [run_extension]
    · next h => rw [Parse.outcome_extend_of_not_lt stop left us h, run_quiet]

theorem run_ofExprStmt (t : Token) (us : List Token) :
    (ofExprStmt stop t us).run = (Parse.exprStmt stop t us).outcome.run := by
  rw [ofExprStmt, run_map, run_expr, Parse.outcome_expr_cons, Parse.outcome_exprStmt,
    Outcome.run_map]

theorem run_ofAssignment (t : Token) (name : Name Token) (isLocal : Bool) (us : List Token) :
    (ofAssignment stop t name isLocal us).run =
      (Parse.assignment stop t name isLocal us).outcome.run := by
  rw [ofAssignment, run_map, run_expr, Parse.outcome_assignment, Outcome.run_map]

theorem run_ofNameStmt (t : Token) (us : List Token) :
    (ofNameStmt stop t us).run = (Parse.nameStmt stop t us).outcome.run := by
  cases us with
  | nil => exact run_ofExprStmt stop t []
  | cons u vs =>
    rw [ofNameStmt, Parse.outcome_nameStmt_cons]
    split
    · rw [run_map, run_ofAssignment, Outcome.run_map]
    split
    · rw [run_map, run_ofArguments, Parse.outcome_callStmt, Outcome.run_map]
    · exact run_ofExprStmt stop t (u :: vs)

theorem run_ofLocalStmt (t : Token) (us : List Token) :
    (ofLocalStmt stop t us).run = (Parse.localStmt stop t us).outcome.run := by
  simp only [ofLocalStmt, Parse.outcome_localStmt, run_bind, run_required, run_map,
    run_ofAssignment, Outcome.run_bind, Outcome.run_map]

theorem run_ofReturnStmt (t : Token) (us : List Token) :
    (ofReturnStmt stop t us).run = (Parse.returnStmt stop t us).outcome.run := by
  rw [ofReturnStmt, Parse.outcome_returnStmt]
  split
  · rfl
  · simp only [run_bind, run_expr, run_map, run_quiet, Outcome.run_bind, Outcome.run_map]

theorem run_ofParameter (us : List Token) :
    (ofParameter stop us).run = (Parse.moreParameters stop us).outcome.run := by
  cases us with
  | nil => simp only [ofParameter, run_map, run_required, Parse.moreParameters,
      Attempt.outcome_map, Outcome.run_map]
  | cons t vs =>
    rw [ofParameter, Parse.outcome_moreParameters_cons]
    split
    · simp only [run_bind, run_required, run_map, run_parameter, Outcome.run_bind, Outcome.run_map]
    · rfl

theorem run_ofParameters (us : List Token) :
    (ofParameters stop us).run = (Parse.parameters stop us).outcome.run := by
  cases us with
  | nil => rfl
  | cons t vs =>
    rw [ofParameters, Parse.outcome_parameters_cons]
    split
    · rfl
    · simp only [run_bind, run_required, run_map, run_parameter, Outcome.run_bind, Outcome.run_map]

theorem run_ofStep (us : List Token) :
    (ofStep stop us).run = (Parse.step stop us).outcome.run := by
  cases us with
  | nil => rfl
  | cons t vs =>
    rw [ofStep, Parse.outcome_step_cons]
    split <;> rfl

theorem run_ofForHeader (us : List Token) :
    (ofForHeader stop us).run = (Parse.forHeader stop us).outcome.run := by
  simp only [ofForHeader, Parse.outcome_forHeader, run_bind, run_required, run_map, run_expr,
    run_ofAssignment, run_ofStep, Outcome.run_bind, Outcome.run_map]

theorem run_ofFunctionHeader (us : List Token) :
    (ofFunctionHeader stop us).run = (Parse.functionHeader stop us).outcome.run := by
  simp only [ofFunctionHeader, Parse.outcome_functionHeader, run_bind, run_required, run_map,
    run_ofParameters, Outcome.run_bind, Outcome.run_map]

theorem run_ofAlternative (ts : List Token) :
    (ofAlternative stop ts).run = (Parse.alternative stop ts).run := by
  cases ts with
  | nil => rw [ofAlternative, Parse.run_alternative_nil, run_map, run_closing, Outcome.run_map]
  | cons t us =>
    rw [ofAlternative, Parse.run_alternative_cons]
    split
    · rfl
    split
    · simp only [run_bind, run_block, run_map, run_closing, Outcome.run_map]
    · rfl

theorem run_ofBranch (t : Token) (us : List Token) :
    (ofBranch stop t us).run = (Parse.condStmt stop t us).run := by
  simp only [ofBranch, ofConsequence, Parse.run_condStmt, run_bind, run_expr, run_required,
    run_block, run_map, run_ofAlternative]

theorem run_ofStmt (t : Token) (us : List Token) :
    (ofStmt stop t us).run = (Parse.stmtFrom stop t us).run := by
  rw [ofStmt, Parse.run_stmtFrom]
  cases t.kind <;>
    simp only [run_ofExprStmt, run_ofNameStmt, run_ofLocalStmt, run_ofReturnStmt, run_branch,
      ofWhileStmt, Parse.run_whileStmt, ofForStmt, Parse.run_forStmt, ofRepeatStmt,
      Parse.run_repeatStmt, ofFunctionStmt, Parse.run_functionStmt, run_bind, run_expr,
      run_required, run_block, run_closing, run_ofForHeader, run_ofFunctionHeader, run_map,
      Outcome.run_map]

theorem run_ofBlock (construct terminator : Kind) (opener : Token) (us : List Token) :
    (ofBlock stop construct terminator opener us).run =
      (Parse.block stop construct terminator opener us).run := by
  rw [ofBlock, run_map, run_pass, Parse.run_block]

theorem run_ofPass (construct terminator : Kind) (ts : List Token) :
    (ofPass stop construct terminator ts).run =
      (Parse.statements stop construct terminator ts).run := by
  cases ts with
  | nil =>
    rw [ofPass, Parse.run_statements_nil]
    rfl
  | cons t us =>
    rw [ofPass]
    split
    · next hend => rw [Parse.run_statements_of_blockEnd stop construct terminator us hend]; rfl
    split
    · next hsep => rw [Parse.run_statements_of_separator stop construct terminator us hsep]
    · next hend hsep =>
      split
      · next hrun => rw [Parse.run_statements_of_done stop construct terminator hend hsep hrun]
      · next hrun => rw [Parse.run_statements_of_failed stop construct terminator hend hsep hrun]

end Traced

theorem Parsed.ofPass_eq (stop : Position) (ts : List Token) :
    (ofPass stop ts).2 = ofTokens stop ts := by
  cases ts with
  | nil => rw [ofPass, ofTokens_nil]
  | cons t us =>
    rw [ofPass]
    split
    · next hsep => rw [ofTokens_of_separator stop us hsep]
    · next hsep =>
      split
      · next hrun => rw [ofTokens_of_done stop hsep hrun]
      · next hrun => rw [ofTokens_of_failed stop hsep hrun]

/-! The calls of every visit, and the place where it ends. -/

namespace Visit

def calls (stop : Position) : Visit → List Visit
  | program ts => (Parsed.ofPass stop ts).1
  | pass construct terminator ts => (Traced.ofPass stop construct terminator ts).calls
  | statement t us => if t.kind.isSeparator then [] else (Traced.ofStmt stop t us).calls
  | branch t us => (Traced.ofBranch stop t us).calls
  | block construct terminator opener us =>
    (Traced.ofBlock stop construct terminator opener us).calls
  | expr level ts => (Traced.ofExpr stop level ts).calls
  | extension level left ts => (Traced.ofExtension stop level left ts).calls
  | argument us => (Traced.ofArgument stop us).calls
  | parameter us => (Traced.ofParameter stop us).calls
  | recovery [] => []
  | recovery (u :: us) => if Halt.stopsRecovery u then [] else [recovery us]

def finish (stop : Position) : Visit → List Token
  | program _ => []
  | pass construct terminator ts => (Parse.statements stop construct terminator ts).run.rest
  | statement t us => if t.kind.isSeparator then us else (Parse.stmtFrom stop t us).run.rest
  | branch t us => (Parse.condStmt stop t us).run.rest
  | block construct terminator opener us =>
    (Parse.block stop construct terminator opener us).run.rest
  | expr level ts => (Parse.expr stop level ts).outcome.rest
  | extension level left ts => (Parse.extend stop level left ts).outcome.rest
  | argument us => (Parse.moreArguments stop us).outcome.rest
  | parameter us => (Parse.moreParameters stop us).outcome.rest
  | recovery ts => Halt.skipLine ts

/-- What the visit makes of its calls is what the reader gives. -/
def Faithful (stop : Position) : Visit → Prop
  | program ts => (Parsed.ofPass stop ts).2 = Parsed.ofTokens stop ts
  | pass construct terminator ts =>
    (Traced.ofPass stop construct terminator ts).run =
      (Parse.statements stop construct terminator ts).run
  | statement t us => (Traced.ofStmt stop t us).run = (Parse.stmtFrom stop t us).run
  | branch t us => (Traced.ofBranch stop t us).run = (Parse.condStmt stop t us).run
  | block construct terminator opener us =>
    (Traced.ofBlock stop construct terminator opener us).run =
      (Parse.block stop construct terminator opener us).run
  | expr level ts => (Traced.ofExpr stop level ts).run = (Parse.expr stop level ts).outcome.run
  | extension level left ts =>
    (Traced.ofExtension stop level left ts).run = (Parse.extend stop level left ts).outcome.run
  | argument us => (Traced.ofArgument stop us).run = (Parse.moreArguments stop us).outcome.run
  | parameter us => (Traced.ofParameter stop us).run = (Parse.moreParameters stop us).outcome.run
  | recovery ts => ∀ u us, ts = u :: us →
    Halt.skipLine ts = if Halt.stopsRecovery u then ts else Halt.skipLine us

theorem faithful (stop : Position) (v : Visit) : v.Faithful stop := by
  cases v with
  | program ts => exact Parsed.ofPass_eq stop ts
  | pass construct terminator ts => exact Traced.run_ofPass stop construct terminator ts
  | statement t us => exact Traced.run_ofStmt stop t us
  | branch t us => exact Traced.run_ofBranch stop t us
  | block construct terminator opener us =>
    exact Traced.run_ofBlock stop construct terminator opener us
  | expr level ts => exact Traced.run_ofExpr stop level ts
  | extension level left ts => exact Traced.run_ofExtension stop level left ts
  | argument us => exact Traced.run_ofArgument stop us
  | parameter us => exact Traced.run_ofParameter stop us
  | recovery ts =>
    rintro u us rfl
    rw [Halt.skipLine, List.dropWhile_cons]
    cases Halt.stopsRecovery u <;> rfl

end Visit

end LuaSyntax
