import LuaSyntax.Token.Kind

/-! How tightly operators bind. -/

namespace LuaSyntax

inductive Precedence where
  | lowest | or | and | equality | relational | bitwiseOr | bitwiseXor | bitwiseAnd | shift
  | concatenation | additive | multiplicative | unary | exponentiation | call
deriving DecidableEq

namespace Precedence

def all : List Precedence :=
  [lowest, or, and, equality, relational, bitwiseOr, bitwiseXor, bitwiseAnd, shift,
    concatenation, additive, multiplicative, unary, exponentiation, call]

def rank : Precedence → Nat
  | lowest => 0
  | or => 1
  | and => 2
  | equality => 3
  | relational => 4
  | bitwiseOr => 5
  | bitwiseXor => 6
  | bitwiseAnd => 7
  | shift => 8
  | concatenation => 9
  | additive => 10
  | multiplicative => 11
  | unary => 12
  | exponentiation => 13
  | call => 14

instance : LT Precedence := ⟨fun p q => p.rank < q.rank⟩

instance : LE Precedence := ⟨fun p q => p.rank ≤ q.rank⟩

instance (p q : Precedence) : Decidable (p < q) := inferInstanceAs (Decidable (p.rank < q.rank))

instance (p q : Precedence) : Decidable (p ≤ q) := inferInstanceAs (Decidable (p.rank ≤ q.rank))

theorem rank_injective {p q : Precedence} (h : p.rank = q.rank) : p = q := by
  cases p <;> cases q <;> first | rfl | (exact absurd h (by decide))

def name : Precedence → String
  | lowest => "Lowest"
  | or => "Or"
  | and => "And"
  | equality => "Equality"
  | relational => "Relational"
  | bitwiseOr => "BitwiseOr"
  | bitwiseXor => "BitwiseXor"
  | bitwiseAnd => "BitwiseAnd"
  | shift => "Shift"
  | concatenation => "Concatenation"
  | additive => "Additive"
  | multiplicative => "Multiplicative"
  | unary => "Unary"
  | exponentiation => "Exponentiation"
  | call => "FunctionCall"

def ofName? (s : String) : Option Precedence := all.find? (·.name == s)

def lower : Precedence → Precedence
  | lowest => lowest
  | or => lowest
  | and => or
  | equality => and
  | relational => equality
  | bitwiseOr => relational
  | bitwiseXor => bitwiseOr
  | bitwiseAnd => bitwiseXor
  | shift => bitwiseAnd
  | concatenation => shift
  | additive => concatenation
  | multiplicative => additive
  | unary => multiplicative
  | exponentiation => unary
  | call => exponentiation

theorem rank_lower (p : Precedence) : p.lower.rank = p.rank - 1 := by
  cases p <;> rfl

def sort (ps : List Precedence) : List Precedence := ps.mergeSort fun p q => p.rank ≤ q.rank

/-- The level of a token between two operands. The lowest means that it does not bind. -/
def of : Kind → Precedence
  | .kwOr => or
  | .kwAnd => and
  | .equal | .notEqual => equality
  | .less | .more | .lessEqual | .moreEqual => relational
  | .bar => bitwiseOr
  | .tilde => bitwiseXor
  | .ampersand => bitwiseAnd
  | .shiftLeft | .shiftRight => shift
  | .concat => concatenation
  | .plus | .minus => additive
  | .star | .slash | .floorSlash | .percent => multiplicative
  | .caret => exponentiation
  | .leftParen => call
  | _ => lowest

end Precedence

namespace Kind

def isRightAssociative : Kind → Bool
  | caret | concat => true
  | _ => false

/-- The level at which the right operand is read. A right-associative operator reads it one
level lower, so that an equal operator keeps binding. -/
def operandLevel (k : Kind) : Precedence :=
  if k.isRightAssociative then (Precedence.of k).lower else Precedence.of k

def continuesExpr (k : Kind) : Bool := Precedence.lowest < Precedence.of k

def startsExpr : Kind → Bool
  | identifier | numeral | kwTrue | kwFalse | string | kwNil
  | minus | kwNot | hash | tilde | leftParen => true
  | _ => false

def startsStmt : Kind → Bool
  | identifier | kwLocal | kwReturn | kwIf | kwWhile | kwFor | kwRepeat | kwFunction => true
  | _ => false

end Kind

end LuaSyntax
