import LuaSyntax.Parse.Header

/-! Statements and blocks. A statement that fails inside a block is dropped with its
diagnostic and the block goes on, so a block fails only if the input ends in it. -/

namespace LuaSyntax.Parse

variable (stop : Position)

def closing (form : Form) (kind : Kind) (what : String) (ts : List Token) : Attempt Token [] ts :=
  expectHere stop kind (.wanted form ("`" ++ kind.text ++ "` to close " ++ what)) ts

mutual

def stmtFrom (t : Token) (us : List Token) : Logged (Stmt Token) [t] us :=
  match t.kind with
  | .identifier => (nameStmt stop t us).logged
  | .kwLocal => ((localStmt stop t us).taking t).logged
  | .kwReturn => ((returnStmt stop t us).taking t).logged
  | .kwIf => (condStmt t us).taking t
  | .kwWhile => (whileStmt t us).taking t
  | .kwFor => (forStmt t us).taking t
  | .kwRepeat => (repeatStmt t us).taking t
  | .kwFunction => (functionStmt t us).taking t
  | _ => (exprStmt stop t us).logged
termination_by 4 * us.length + 3

/-- Statements up to a keyword that closes a block, which is left. -/
def statements (construct terminator : Kind) (ts : List Token) : Logged (List (Stmt Token)) [] ts :=
  match ts with
  | [] =>
    (Attempt.failOn ⟨.unclosedBlock construct.text terminator.text, stop⟩ []).logged
  | t :: us =>
    if t.kind.isBlockEnd then (Attempt.pure [] (t :: us)).logged
    else if t.kind.isSeparator then (statements construct terminator us).past t
    else
      match stmtFrom t us with
      | ⟨log, .done s rest h⟩ =>
        (((statements construct terminator rest).map (s :: ·)).after log h).whole
      | ⟨log, .failed d halt h⟩ =>
        (statements construct terminator halt.resumeInBlock).after (log ++ [d])
          (Halt.resumeInBlock_suffix h)
termination_by 4 * ts.length
decreasing_by
  · simp only [List.length_cons]
    omega
  · simp only [List.length_cons]
    omega
  · have := h.length_le
    simp only [List.length_cons]
    omega
  · have := Halt.length_resumeInBlock_lt h (by simp_all)
    omega

def block (construct terminator : Kind) (opener : Token) (us : List Token) :
    Logged (Block Token (Stmt Token)) [] us :=
  (statements construct terminator us).map (⟨opener, ·⟩)
termination_by 4 * us.length + 1

def condStmt (t : Token) (us : List Token) : Logged (Stmt Token) [] us :=
  (expr stop .lowest us).andThen fun condition vs _ =>
  (expect stop .kwThen (.wanted .conditional "`then` after if condition") vs).andThen
    fun opener ws _ =>
  (block .kwIf .kwEnd opener ws).andThen fun consequence xs _ =>
  (alternative xs).map (.cond t condition consequence)
termination_by 4 * us.length + 2
decreasing_by
  · next hv hw =>
    have := hw.length_le
    have := hv.length_le
    omega
  · next hv hw hx =>
    have := hx.length_le
    have := hw.length_le
    have := hv.length_le
    omega

/-- How a conditional goes on after its first block. An `elseif` shares the `end`. -/
def alternative (ts : List Token) : Logged (Option (Block Token (Stmt Token))) [] ts :=
  match ts with
  | [] => ((closing stop .conditional .kwEnd "if" []).map fun _ => none).logged
  | t :: us =>
    if t.kind = .kwElseif then
      ((condStmt t us).map fun s => some ⟨t, [s]⟩).past t
    else if t.kind = .kwElse then
      ((block .kwIf .kwEnd t us).andThen fun b vs _ =>
        ((closing stop .conditional .kwEnd "else block" vs).map fun _ => some b).logged).past t
    else ((closing stop .conditional .kwEnd "if" (t :: us)).map fun _ => none).logged
termination_by 4 * ts.length + 1

def whileStmt (t : Token) (us : List Token) : Logged (Stmt Token) [] us :=
  (expr stop .lowest us).andThen fun condition vs _ =>
  (expect stop .kwDo (.wanted .whileLoop "`do` after while condition") vs).andThen
    fun opener ws _ =>
  (block .kwWhile .kwEnd opener ws).andThen fun body xs _ =>
  ((closing stop .whileLoop .kwEnd "while" xs).map fun _ => .whileLoop t condition body).logged
termination_by 4 * us.length + 2
decreasing_by
  next hv hw =>
  have := hw.length_le
  have := hv.length_le
  omega

def forStmt (t : Token) (us : List Token) : Logged (Stmt Token) [] us :=
  (forHeader stop us).andThen fun header vs _ =>
  (block .kwFor .kwEnd header.opener vs).andThen fun body ws _ =>
  ((closing stop .forLoop .kwEnd "for" ws).map fun _ =>
    .forLoop t header.init header.limit header.step body).logged
termination_by 4 * us.length + 2
decreasing_by
  next hv =>
  have := hv.length_le
  omega

def repeatStmt (t : Token) (us : List Token) : Logged (Stmt Token) [] us :=
  (block .kwRepeat .kwUntil t us).andThen fun body vs _ =>
  (closing stop .repeatLoop .kwUntil "repeat" vs).andThen fun _ ws _ =>
  ((expr stop .lowest ws).map fun condition => .repeatLoop t body condition).logged
termination_by 4 * us.length + 2

def functionStmt (t : Token) (us : List Token) : Logged (Stmt Token) [] us :=
  (functionHeader stop us).andThen fun header vs _ =>
  (block .kwFunction .kwEnd header.opener vs).andThen fun body ws _ =>
  ((closing stop .function .kwEnd ("`" ++ header.name.value ++ "`") ws).map fun _ =>
    .function t (.ofToken header.name) header.parameters body).logged
termination_by 4 * us.length + 2
decreasing_by
  next hv =>
  have := hv.length_le
  omega

end

theorem stmtFrom_of_not_startsStmt {t : Token} (us : List Token) (h : t.kind.startsStmt = false) :
    stmtFrom stop t us = (exprStmt stop t us).logged := by
  rw [stmtFrom]
  cases hk : t.kind <;> simp_all [Kind.startsStmt]

end LuaSyntax.Parse
