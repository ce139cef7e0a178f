/-! Double-precision numbers as their 64 bits, and the double nearest to a decimal. -/

namespace LuaSyntax

structure Double where
  bits : UInt64
deriving DecidableEq

namespace Double

def infinity : Double := ⟨0x7ff0000000000000⟩

def nan : Double := ⟨0x7ff8000000000000⟩

/-- The integer nearest to `num / den`, a half going to the even neighbour. -/
def roundDiv (num den : Nat) : Nat :=
  let q := num / den
  let r := num % den
  if den < 2 * r ∨ (2 * r = den ∧ q % 2 = 1) then q + 1 else q

/-- The greatest `k` with `2 ^ k ≤ num / den`, for positive numbers. -/
def floorLog (num den : Nat) : Int :=
  let k : Int := (num.log2 : Int) - (den.log2 : Int)
  if den <<< k.toNat ≤ num <<< (-k).toNat then k else k - 1

/-- The exponent of the unit in the last place of a double near `num / den`: a normal number has
`2 ^ 52` units or more, and no unit is below `2 ^ -1074`. -/
def unitExponent (num den : Nat) : Int :=
  let k := floorLog num den - 52
  if k < -1074 then -1074 else k

/-- The double nearest to `num / den`, for positive numbers: a whole number of units, below the
exponent of the unit. A carry out of the rounded units goes into the exponent by itself. -/
def ofRatio (num den : Nat) : Double :=
  let k := unitExponent num den
  let units := roundDiv (num <<< (-k).toNat) (den <<< k.toNat)
  let bits := units + ((k + 1074).toNat <<< 52)
  if bits < infinity.bits.toNat then ⟨UInt64.ofNat bits⟩ else infinity

/-- The double nearest to `mantissa * 10 ^ exponent`. Since ten lies between eight and sixteen,
numbers far outside the range of doubles are told by their size in bits. -/
def ofDecimal (mantissa : Nat) (exponent : Int) : Double :=
  if mantissa = 0 then ⟨0⟩
  else
    let size : Int := (mantissa.log2 : Int) + 3 * exponent
    if 0 ≤ exponent then
      if 1024 < size then infinity else ofRatio (mantissa * Nat.pow 10 exponent.toNat) 1
    else
      if size < -1080 then ⟨0⟩ else ofRatio mantissa (Nat.pow 10 (-exponent).toNat)

end Double

end LuaSyntax
