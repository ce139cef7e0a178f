import LuaSyntax.Text

/-! The value of a string literal: its delimiters dropped and its escapes resolved.
An escape that means nothing keeps its backslash. -/

namespace LuaSyntax.Escape

open Text

def single? : Char → Option Char
  | 'n' => some '\n'
  | 't' => some '\t'
  | 'r' => some '\r'
  | 'a' => some '\x07'
  | 'b' => some '\x08'
  | 'f' => some '\x0c'
  | 'v' => some '\x0b'
  | '\\' => some '\\'
  | '"' => some '"'
  | '\x27' => some '\x27'
  | '\n' => some '\n'
  | _ => none

/-- What the escape after a backslash decodes to, and how many characters it takes beyond its
first one `c`. Up to two hexadecimal digits follow `x`, and up to three decimal digits give
a code of at most 255. -/
def escape (c : Char) (cs : List Char) : List Char × Nat :=
  match single? c with
  | some d => ([d], 0)
  | none =>
    if c = 'x' then
      let ds := (cs.take 2).takeWhile isHexDigit
      (if ds.isEmpty then ['\\', 'x'] else [Char.ofNat (ofDigits 16 ds)], ds.length)
    else if isDigit c then
      let ds := (cs.take 2).takeWhile isDigit
      let code := ofDigits 10 (c :: ds)
      (if code ≤ 255 then [Char.ofNat code] else '\\' :: c :: ds, ds.length)
    else (['\\', c], 0)

def decodeBody : List Char → List Char
  | [] => []
  | c :: cs =>
    if c = '\\' then
      match cs with
      | [] => ['\\']
      | d :: ds => (escape d ds).1 ++ decodeBody (ds.drop (escape d ds).2)
    else c :: decodeBody cs
termination_by cs => cs.length
decreasing_by all_goals simp <;> omega

/-- The text between the delimiters: all but the first character, and but the last one if it
is the same as the first. -/
def body : List Char → List Char
  | [] => []
  | q :: cs => if cs.getLast? = some q then cs.dropLast else cs

def decode (literal : String) : String := String.ofList (decodeBody (body literal.toList))

end LuaSyntax.Escape
