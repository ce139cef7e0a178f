import LuaSyntax.Escape
import LuaSyntax.Number
import LuaSyntax.Parse.Attempt
import LuaSyntax.Precedence
import LuaSyntax.Tree.Render

/-! Reading expressions. An operand is read first and then extended by every
operator that binds tighter than the level asked for. A name followed by a
parenthesis is a call. -/

namespace LuaSyntax.Expr

def ofNumeral (t : Token) : Except Problem (Expr Token) :=
  match Number.ofText? t.value.toList with
  | some (.integer n) => .ok (.integer t n)
  | some (.float x) => .ok (.float t x)
  | none => .error (.numeral t.value)

def ofBoolean (t : Token) : Except Problem (Expr Token) :=
  if t.value = "true" then .ok (.boolean t true)
  else if t.value = "false" then .ok (.boolean t false)
  else .error (.boolean t.value)

def ofString (t : Token) : Expr Token := .string t (Escape.decode t.value)

def ofName (t : Token) : Expr Token := .name (.ofToken t)

def ofToken? (t : Token) : Option (Except Problem (Expr Token)) :=
  match t.kind with
  | .identifier => some (.ok (ofName t))
  | .numeral => some (ofNumeral t)
  | .kwTrue | .kwFalse => some (ofBoolean t)
  | .string => some (.ok (ofString t))
  | .kwNil => some (.ok (.nil t))
  | _ => none

end LuaSyntax.Expr

namespace LuaSyntax.Parse

variable (stop : Position)

def notCallable (callee : Expr Token) : Problem :=
  .unexpected "function name before `(`" ("`" ++ callee.render ++ "`")

def notExpected (kind : Kind) (t : Token) : Problem :=
  .unexpected ("`" ++ kind.text ++ "`") t.describe

def unclosedGroup (t : Token) : Problem := .unclosedGroup t.describe

def noExpression (t : Token) : Problem := .noExpression t.kind t.value

mutual

/-- An expression whose operators all bind tighter than `level`. -/
def expr (level : Precedence) (ts : List Token) : Attempt (Expr Token) [] ts :=
  match ts with
  | [] => .failOn ⟨noExpression (.eof stop), stop⟩ []
  | t :: us => (exprFrom level t us).whole
termination_by 4 * ts.length

def exprFrom (level : Precedence) (t : Token) (us : List Token) : Attempt (Expr Token) [t] us :=
  (operand t us).bind fun left vs _ => extend level left vs
termination_by 4 * us.length + 3
decreasing_by
  · omega
  · next hv =>
    have := hv.length_le
    omega

def operand (t : Token) (us : List Token) : Attempt (Expr Token) [t] us :=
  match Expr.ofToken? t with
  | some e => .ofToken t us e
  | none =>
    match t.kind with
    | .minus | .kwNot | .hash | .tilde => (unary t us).taking t
    | .leftParen => (grouped us).taking t
    | _ => .ofToken t us (.error (noExpression t))
termination_by 4 * us.length + 2

def unary (op : Token) (us : List Token) : Attempt (Expr Token) [] us :=
  (expr .unary us).map (.unary op op.value)
termination_by 4 * us.length + 1

def grouped (us : List Token) : Attempt (Expr Token) [] us :=
  (expr .lowest us).bind fun e vs _ => (expect stop .rightParen unclosedGroup vs).map fun _ => e
termination_by 4 * us.length + 1

def extend (level : Precedence) (left : Expr Token) (ts : List Token) :
    Attempt (Expr Token) [] ts :=
  match ts with
  | [] => .pure left []
  | op :: us =>
    if level < .of op.kind then
      ((extendOnce left op us).bind fun e rest _ => extend level e rest).whole
    else .pure left (op :: us)
termination_by 4 * ts.length
decreasing_by
  · simp only [List.length_cons]
    omega
  · next hr =>
    have := hr.length_le
    simp only [List.length_cons]
    omega

def extendOnce (left : Expr Token) (op : Token) (us : List Token) : Attempt (Expr Token) [op] us :=
  if op.kind = .leftParen then call left op us else (binary left op us).taking op
termination_by 4 * us.length + 3

def binary (left : Expr Token) (op : Token) (us : List Token) : Attempt (Expr Token) [] us :=
  (expr op.kind.operandLevel us).map (.binary op op.value left)
termination_by 4 * us.length + 1

def call (callee : Expr Token) (op : Token) (us : List Token) : Attempt (Expr Token) [op] us :=
  match callee with
  | .name n => ((arguments us).map (.call op n)).taking op
  | _ => .ofToken op us (.error (notCallable callee))
termination_by 4 * us.length + 2

def arguments (us : List Token) : Attempt (List (Expr Token)) [] us :=
  match us with
  | [] => (expr .lowest []).map fun e => [e]
  | t :: vs =>
    if t.kind = .rightParen then .done [] vs (List.suffix_cons t vs)
    else (expr .lowest (t :: vs)).bind fun e rest _ => (moreArguments rest).map (e :: ·)
termination_by 4 * us.length + 1
decreasing_by
  · omega
  · omega
  · next hr =>
    have := hr.length_le
    omega

def moreArguments (us : List Token) : Attempt (List (Expr Token)) [] us :=
  match us with
  | [] => (expect stop .rightParen (notExpected .rightParen) []).map fun _ => []
  | t :: vs =>
    if t.kind = .comma then
      ((expr .lowest vs).bind fun e rest _ => (moreArguments rest).map (e :: ·)).past t
    else (expect stop .rightParen (notExpected .rightParen) (t :: vs)).map fun _ => []
termination_by 4 * us.length
decreasing_by
  · simp only [List.length_cons]
    omega
  · next hr =>
    have := hr.length_le
    simp only [List.length_cons]
    omega

end

theorem operand_of_not_startsExpr {t : Token} (us : List Token) (h : t.kind.startsExpr = false) :
    operand stop t us = .ofToken t us (.error (noExpression t)) := by
  rw [operand]
  unfold Expr.ofToken?
  cases hk : t.kind <;> simp_all [Kind.startsExpr]

end LuaSyntax.Parse
