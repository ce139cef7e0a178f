import LuaSyntax.Precedence

/-! Operators before one operand and between two, and where the right operand of an operator
goes on. -/

namespace LuaSyntax

namespace Kind

def isUnary : Kind → Bool
  | minus | kwNot | hash | tilde => true
  | _ => false

def isBinary : Kind → Bool
  | kwOr | kwAnd | equal | notEqual | less | more | lessEqual | moreEqual | bar | tilde
  | ampersand | shiftLeft | shiftRight | concat | plus | minus | star | slash | floorSlash
  | percent | caret => true
  | _ => false

theorem isBinary_iff (k : Kind) :
    k.isBinary = true ↔ Precedence.lowest < Precedence.of k ∧ k ≠ .leftParen := by
  cases k <;> decide

theorem startsExpr_of_isUnary {k : Kind} (h : k.isUnary = true) : k.startsExpr = true := by
  revert h
  cases k <;> decide

theorem isRightAssociative_iff (k : Kind) :
    k.isRightAssociative = true ↔
      Precedence.of k = .exponentiation ∨ Precedence.of k = .concatenation := by
  cases k <;> decide

theorem operandLevel_le_unary {k : Kind} (h : k.isBinary = true) : k.operandLevel ≤ .unary := by
  revert h
  cases k <;> decide

/-- The right operand of `j` goes on at a tighter operator, and at one of the same level if
those group to the right. -/
theorem operandLevel_lt_iff {j k : Kind} (hj : j.isBinary = true) :
    j.operandLevel < .of k ↔
      Precedence.of j < .of k ∨ Precedence.of j = .of k ∧ j.isRightAssociative = true := by
  have hpos : 0 < (Precedence.of j).rank := ((isBinary_iff j).1 hj).1
  have heq : Precedence.of j = .of k ↔ (Precedence.of j).rank = (Precedence.of k).rank :=
    ⟨congrArg _, Precedence.rank_injective⟩
  rw [heq]
  change j.operandLevel.rank < (Precedence.of k).rank ↔
    (Precedence.of j).rank < (Precedence.of k).rank ∨ _
  unfold operandLevel
  split
  · next hassoc =>
    rw [Precedence.rank_lower]
    simp only [hassoc, and_true]
    omega
  · next hassoc => simp [hassoc]

theorem isRightAssociative_congr {j k : Kind} (h : Precedence.of j = .of k) :
    j.isRightAssociative = k.isRightAssociative := by
  rw [Bool.eq_iff_iff, isRightAssociative_iff, isRightAssociative_iff, h]

end Kind

end LuaSyntax
