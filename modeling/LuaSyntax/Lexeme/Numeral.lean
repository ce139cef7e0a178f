import LuaSyntax.Text

/-! Numerals as text: the run of characters a numeral takes, and which runs are
numerals. The run is taken first and judged afterwards, so a numeral and letters
right behind it are one piece of text and never two tokens. -/

namespace LuaSyntax.Lexeme

open Text

def isExponentMark (c : Char) : Bool := c == 'e' || c == 'E'

def isHexMark (c : Char) : Bool := c == 'x' || c == 'X'

def isSign (c : Char) : Bool := c == '+' || c == '-'

def isHexLead : List Char → Bool
  | '0' :: x :: _ => isHexMark x
  | _ => false

/-- Whether `c` extends a run whose last character is `last`: a letter, a digit, a dot,
or a sign right after the exponent mark of a run that is not hexadecimal. -/
def extendsNumeral (hex : Bool) (last c : Char) : Bool :=
  isLetter c || isDigit c || c == '.' || (!hex && isSign c && isExponentMark last)

def numeralTail (hex : Bool) (last : Char) : List Char → List Char × List Char
  | [] => ([], [])
  | c :: cs =>
    if extendsNumeral hex last c then
      let (front, rest) := numeralTail hex c cs
      (c :: front, rest)
    else ([], c :: cs)

def numeralRun (c : Char) (cs : List Char) : List Char × List Char :=
  let (front, rest) := numeralTail (isHexLead (c :: cs)) c cs
  (c :: front, rest)

theorem numeralTail_append (hex : Bool) (last : Char) (cs : List Char) :
    (numeralTail hex last cs).1 ++ (numeralTail hex last cs).2 = cs := by
  induction cs generalizing last with
  | nil => rfl
  | cons c cs ih =>
    unfold numeralTail
    split
    · simp [ih]
    · rfl

theorem numeralRun_append (c : Char) (cs : List Char) :
    (numeralRun c cs).1 ++ (numeralRun c cs).2 = c :: cs := by
  simp [numeralRun, numeralTail_append]

def isHexNumeral (cs : List Char) : Bool :=
  isHexLead cs && isHexDigits (cs.drop 2)

def isExponentPart : List Char → Bool
  | [] => true
  | e :: cs =>
    isExponentMark e &&
      match cs with
      | s :: ds => if isSign s then isDigits ds else isDigits cs
      | [] => false

def isDecimalTail : List Char → Bool
  | '.' :: cs => isExponentPart (cs.dropWhile isDigit)
  | cs => isExponentPart cs

def isDecimalNumeral (cs : List Char) : Bool :=
  !(cs.takeWhile isDigit).isEmpty && isDecimalTail (cs.dropWhile isDigit)

def isNumeral (cs : List Char) : Bool := isHexNumeral cs || isDecimalNumeral cs

end LuaSyntax.Lexeme
