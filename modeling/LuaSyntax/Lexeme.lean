import LuaSyntax.Lexeme.Delimited
import LuaSyntax.Lexeme.Numeral
import LuaSyntax.Lexeme.Symbol

/-! Lexemes: the pieces a source text is cut into. Every character lies in exactly
one of them, and text that fits nothing becomes a lexeme of kind `illegal`. -/

namespace LuaSyntax

/-- A piece of source text. Blanks and comments have no kind. -/
structure Lexeme where
  kind : Option Kind
  text : List Char
deriving DecidableEq

namespace Lexeme

def isBlank (c : Char) : Bool := c == ' ' || c == '\t' || c == '\x0b' || c == '\x0c'

def isWordStart (c : Char) : Bool := Text.isLetter c || c == '_'

def isWordPart (c : Char) : Bool := Text.isLetter c || Text.isDigit c || c == '_'

def blanks (c : Char) (cs : List Char) : Lexeme × List Char :=
  (⟨none, c :: cs.takeWhile isBlank⟩, cs.dropWhile isBlank)

def carriageReturn : List Char → Lexeme × List Char
  | '\n' :: cs => (⟨some .newline, ['\r', '\n']⟩, cs)
  | cs => (⟨some .newline, ['\r']⟩, cs)

def comment (cs : List Char) : Lexeme × List Char :=
  let tail := commentTail cs
  (⟨if tail.closed then none else some .illegal, '-' :: '-' :: tail.text⟩, tail.rest)

def stringLiteral (quote : Char) (cs : List Char) : Lexeme × List Char :=
  let tail := stringTail quote cs
  (⟨some (if tail.closed then .string else .illegal), quote :: tail.text⟩, tail.rest)

def numeral (c : Char) (cs : List Char) : Lexeme × List Char :=
  let run := numeralRun c cs
  (⟨some (if isNumeral run.1 then .numeral else .illegal), run.1⟩, run.2)

def word (c : Char) (cs : List Char) : Lexeme × List Char :=
  let text := c :: cs.takeWhile isWordPart
  (⟨some (Kind.ofWord (String.ofList text)), text⟩, cs.dropWhile isWordPart)

def symbol (c : Char) (cs : List Char) : Lexeme × List Char :=
  match symbol? (c :: cs) with
  | some (k, rest) => (⟨some k, k.text.toList⟩, rest)
  | none => (⟨some .illegal, [c]⟩, cs)

def first (c : Char) (cs : List Char) : Lexeme × List Char :=
  if isBlank c then blanks c cs
  else if c = '\n' then (⟨some .newline, [c]⟩, cs)
  else if c = '\r' then carriageReturn cs
  else if c = '-' ∧ cs.head? = some '-' then comment cs.tail
  else if c = '"' ∨ c = '\x27' then stringLiteral c cs
  else if Text.isDigit c then numeral c cs
  else if isWordStart c then word c cs
  else symbol c cs

theorem blanks_append (c : Char) (cs : List Char) :
    (blanks c cs).1.text ++ (blanks c cs).2 = c :: cs := by
  simp [blanks]

theorem carriageReturn_of_ne {cs : List Char} (h : cs.head? ≠ some '\n') :
    carriageReturn cs = (⟨some .newline, ['\r']⟩, cs) := by
  unfold carriageReturn
  split
  · exact absurd rfl h
  · rfl

theorem carriageReturn_append (cs : List Char) :
    (carriageReturn cs).1.text ++ (carriageReturn cs).2 = '\r' :: cs := by
  unfold carriageReturn
  split <;> rfl

theorem comment_append (cs : List Char) :
    (comment cs).1.text ++ (comment cs).2 = '-' :: '-' :: cs := by
  simp [comment, commentTail_append]

theorem stringLiteral_append (quote : Char) (cs : List Char) :
    (stringLiteral quote cs).1.text ++ (stringLiteral quote cs).2 = quote :: cs := by
  simp [stringLiteral, stringTail_append]

theorem numeral_append (c : Char) (cs : List Char) :
    (numeral c cs).1.text ++ (numeral c cs).2 = c :: cs := numeralRun_append c cs

theorem word_append (c : Char) (cs : List Char) :
    (word c cs).1.text ++ (word c cs).2 = c :: cs := by
  simp [word]

theorem symbol_append (c : Char) (cs : List Char) :
    (symbol c cs).1.text ++ (symbol c cs).2 = c :: cs := by
  unfold symbol
  split
  · next h => exact symbol?_append h
  · rfl

/-- A lexeme is the text it takes: nothing is lost and nothing is added. -/
theorem first_append (c : Char) (cs : List Char) :
    (first c cs).1.text ++ (first c cs).2 = c :: cs := by
  unfold first
  split
  · exact blanks_append c cs
  split
  · rfl
  split
  · next h => rw [h]; exact carriageReturn_append cs
  split
  · next h =>
    obtain ⟨rfl, hd⟩ := h
    obtain ⟨ds, rfl⟩ := List.head?_eq_some_iff.1 hd
    exact comment_append ds
  split
  · exact stringLiteral_append c cs
  split
  · exact numeral_append c cs
  split
  · exact word_append c cs
  · exact symbol_append c cs

theorem text_toList_ne_nil (k : Kind) : k.text.toList ≠ [] := by
  cases k <;> decide

theorem first_text_ne_nil (c : Char) (cs : List Char) : (first c cs).1.text ≠ [] := by
  unfold first blanks carriageReturn comment stringLiteral numeral numeralRun word symbol
  split
  · simp
  split
  · simp
  split
  · split <;> simp
  split
  · simp
  split
  · simp
  split
  · simp
  split
  · simp
  split
  · exact text_toList_ne_nil _
  · simp

theorem ofWord_ne_endOfInput (w : String) : Kind.ofWord w ≠ .endOfInput := by
  have h := Kind.ofWord_mem w
  revert h
  generalize Kind.ofWord w = k
  cases k <;> decide

theorem first_kind_ne_endOfInput (c : Char) (cs : List Char) :
    (first c cs).1.kind ≠ some .endOfInput := by
  unfold first blanks carriageReturn comment stringLiteral numeral word symbol
  split
  · simp
  split
  · simp
  split
  · split <;> simp
  split
  · simp only
    split <;> simp
  split
  · simp only [ne_eq, Option.some.injEq]
    split <;> simp
  split
  · simp only [ne_eq, Option.some.injEq]
    split <;> simp
  split
  · simp [ofWord_ne_endOfInput]
  split
  · next h =>
    have hk := mem_symbols_of_symbol? h
    rintro ⟨⟩
    exact absurd hk (by decide)
  · simp

theorem length_first_lt (c : Char) (cs : List Char) :
    (first c cs).2.length < (c :: cs).length := by
  have happend := congrArg List.length (first_append c cs)
  have hpos := List.length_pos_iff.2 (first_text_ne_nil c cs)
  rw [List.length_append] at happend
  omega

end Lexeme

def lexemes : List Char → List Lexeme
  | [] => []
  | c :: cs =>
    let cut := Lexeme.first c cs
    cut.1 :: lexemes cut.2
termination_by cs => cs.length
decreasing_by exact Lexeme.length_first_lt c cs

@[simp] theorem lexemes_nil : lexemes [] = [] := by
  rw [lexemes]

theorem lexemes_cons (c : Char) (cs : List Char) :
    lexemes (c :: cs) = (Lexeme.first c cs).1 :: lexemes (Lexeme.first c cs).2 := by
  rw [lexemes]

theorem head?_lexemes (cs : List Char) :
    (lexemes cs).head?.bind (·.text.head?) = cs.head? := by
  cases cs with
  | nil => simp
  | cons c cs =>
    have happend := Lexeme.first_append c cs
    have hne := Lexeme.first_text_ne_nil c cs
    rw [lexemes_cons]
    cases htext : (Lexeme.first c cs).1.text with
    | nil => exact absurd htext hne
    | cons d ds =>
      rw [htext] at happend
      simp [htext, (List.cons.inj happend).1]

theorem flatMap_text_lexemes (cs : List Char) : (lexemes cs).flatMap Lexeme.text = cs := by
  fun_induction lexemes cs with
  | case1 => rfl
  | case2 c cs cut ih => simp [ih, cut, Lexeme.first_append]

end LuaSyntax
