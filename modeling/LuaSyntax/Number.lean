import LuaSyntax.Double
import LuaSyntax.Lexeme.Numeral

/-! The number that a text denotes. Hexadecimal text is an integer. Decimal text is an
integer if it has no fraction and no exponent and fits 64 bits, and a double otherwise. -/

namespace LuaSyntax

inductive Number where
  | integer (value : Int64)
  | float (value : Double)
deriving DecidableEq

namespace Number

open Text Lexeme

def fit? (n : Nat) : Option Int64 := if n < 0x8000000000000000 then some (Int64.ofNat n) else none

def decimalInteger? (ds : List Char) : Option Int64 :=
  if isDigits ds then fit? (ofDigits 10 ds) else none

def hexInteger? (ds : List Char) : Option Int64 :=
  if isHexDigits ds then fit? (ofDigits 16 ds) else none

def exponent? (cs : List Char) : Option Int :=
  if isExponentPart cs then
    match cs.drop 1 with
    | '-' :: ds => some (-(ofDigits 10 ds : Int))
    | '+' :: ds => some (ofDigits 10 ds : Int)
    | ds => some (ofDigits 10 ds : Int)
  else none

/-- The double nearest to digits, a fraction and an exponent. There is at least one digit
before or after the dot. -/
def decimal? (cs : List Char) : Option Double :=
  let whole := cs.takeWhile isDigit
  let rest := cs.dropWhile isDigit
  let (fraction, tail) :=
    match rest with
    | '.' :: ds => (ds.takeWhile isDigit, ds.dropWhile isDigit)
    | _ => ([], rest)
  if whole.isEmpty ∧ fraction.isEmpty then none
  else
    (exponent? tail).map fun e =>
      .ofDecimal (ofDigits 10 (whole ++ fraction)) (e - fraction.length)

def named? (cs : List Char) : Option Double :=
  match String.ofList (cs.map Char.toLower) with
  | "inf" | "infinity" => some .infinity
  | "nan" => some .nan
  | _ => none

def ofText? (cs : List Char) : Option Number :=
  if isHexLead cs then (hexInteger? (cs.drop 2)).map .integer
  else if cs.any fun c => c == '.' || isExponentMark c then (decimal? cs).map .float
  else ((decimalInteger? cs).map .integer).or (((decimal? cs).or (named? cs)).map .float)

end Number

end LuaSyntax
