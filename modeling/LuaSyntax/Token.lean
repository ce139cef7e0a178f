import LuaSyntax.Position
import LuaSyntax.Text.Quoted
import LuaSyntax.Token.Kind

/-! Tokens: a kind, the text it stands for, and where that text lies. -/

namespace LuaSyntax

/-- A token. Its value is its text in the source, except that a line end has none
and the end of input is called `EOF`. -/
structure Token where
  kind : Kind
  value : String
  span : Span
deriving DecidableEq

namespace Token

def start (t : Token) : Position := t.span.start

def synthetic (kind : Kind) (value : String) (p : Position) : Token := ⟨kind, value, ⟨p, p⟩⟩

def eof (p : Position) : Token := synthetic .endOfInput "EOF" p

@[simp] theorem eof_kind (p : Position) : (eof p).kind = .endOfInput := rfl

@[simp] theorem eof_start (p : Position) : (eof p).start = p := rfl

/-- How messages refer to the token: by its text where that is telling. -/
def describe (t : Token) : String :=
  match t.kind with
  | .newline => "newline"
  | .endOfInput => "end of input"
  | _ => "`" ++ t.value ++ "`"

def place (t : Token) : String :=
  toString t.start.line.toNat ++ ":" ++ toString t.start.column.toNat

def display (t : Token) : String :=
  t.kind.name ++ " " ++ Text.quoted t.value ++ " at " ++ t.place

def listing (t : Token) : String :=
  match t.kind with
  | .string | .identifier | .numeral | .illegal =>
    t.kind.name ++ " (" ++ t.value ++ ") " ++ t.place
  | _ => t.kind.name ++ " () " ++ t.place

end Token

end LuaSyntax
