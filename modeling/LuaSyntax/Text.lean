/-! Text as characters: digits and letters of the basic alphabet, blanks, and lines. A line ends at
a line feed, a carriage return, or the two together. -/

namespace LuaSyntax.Text

def isDigit (c : Char) : Bool := '0' ≤ c && c ≤ '9'

def isHexDigit (c : Char) : Bool :=
  isDigit c || ('a' ≤ c && c ≤ 'f') || ('A' ≤ c && c ≤ 'F')

def isLetter (c : Char) : Bool := ('a' ≤ c && c ≤ 'z') || ('A' ≤ c && c ≤ 'Z')

def digitValue (c : Char) : Nat :=
  if isDigit c then c.toNat - '0'.toNat
  else if 'a' ≤ c then c.toNat - 'a'.toNat + 10
  else c.toNat - 'A'.toNat + 10

def ofDigits (base : Nat) (ds : List Char) : Nat :=
  ds.foldl (fun n d => n * base + digitValue d) 0

@[simp] theorem ofDigits_nil (base : Nat) : ofDigits base [] = 0 := rfl

theorem ofDigits_append_singleton (base : Nat) (ds : List Char) (d : Char) :
    ofDigits base (ds ++ [d]) = ofDigits base ds * base + digitValue d := by
  simp [ofDigits]

def isDigits (cs : List Char) : Bool := !cs.isEmpty && cs.all isDigit

def isHexDigits (cs : List Char) : Bool := !cs.isEmpty && cs.all isHexDigit

/-- The White_Space property. -/
def isWhiteSpace (c : Char) : Bool :=
  let n := c.toNat
  (0x9 ≤ n && n ≤ 0xd) || n == 0x20 || n == 0x85 || n == 0xa0 || n == 0x1680 ||
    (0x2000 ≤ n && n ≤ 0x200a) || n == 0x2028 || n == 0x2029 || n == 0x202f || n == 0x205f ||
    n == 0x3000

def trimEnd (cs : List Char) : List Char := (cs.reverse.dropWhile isWhiteSpace).reverse

def isIndent (c : Char) : Bool := c == ' ' || c == '\t'

def pieces (sep : Char) : List Char → List (List Char)
  | [] => [[]]
  | c :: cs =>
    if c = sep then [] :: pieces sep cs
    else match pieces sep cs with
      | [] => [[c]]
      | p :: ps => (c :: p) :: ps

theorem pieces_ne_nil (sep : Char) (cs : List Char) : pieces sep cs ≠ [] := by
  cases cs with
  | nil => simp [pieces]
  | cons c cs =>
    unfold pieces
    split
    · simp
    · split <;> simp

def dropReturn (cs : List Char) : List Char :=
  if cs.getLast? = some '\r' then cs.dropLast else cs

/-- The lines of `cs`, except that a carriage return at the very end opens no further line. -/
def lines (cs : List Char) : List (List Char) :=
  (pieces '\n' cs).flatMap fun piece => pieces '\r' (dropReturn piece)

def lineAt? (content : String) (n : UInt32) : Option String :=
  if n = 0 then none
  else ((lines content.toList)[n.toNat - 1]?).map String.ofList

@[simp] theorem lineAt?_zero (content : String) : lineAt? content 0 = none := by
  simp [lineAt?]

end LuaSyntax.Text
