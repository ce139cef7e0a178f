import LuaSyntax.Lexeme
import LuaSyntax.Token

/-! Scanning: lexemes become tokens with positions, all at once or one by one.
Blanks and comments become nothing. -/

namespace LuaSyntax

def Lexeme.token (l : Lexeme) (k : Kind) (start stop : Position) : Token :=
  ⟨k, if k = .newline then "" else String.ofList l.text, ⟨start, stop⟩⟩

structure Scanned where
  tokens : List Token
  stop : Position
deriving DecidableEq

namespace Scanned

def toList (s : Scanned) : List Token := s.tokens ++ [Token.eof s.stop]

def ofLexemes (p : Position) : List Lexeme → Scanned
  | [] => ⟨[], p⟩
  | l :: ls =>
    let stop := p.after l.text (ls.head?.bind (·.text.head?))
    let scanned := ofLexemes stop ls
    match l.kind with
    | none => scanned
    | some k => ⟨l.token k p stop :: scanned.tokens, scanned.stop⟩

end Scanned

def defaultName : String := "shell"

def scanChars (cs : List Char) (file : Option String) : Scanned :=
  Scanned.ofLexemes (.origin (file.getD defaultName)) (lexemes cs)

def scan (text : String) (file : Option String) : Scanned := scanChars text.toList file

def tokenize (text : String) (file : Option String) : List Token := (scan text file).toList

structure Scanner where
  position : Position
  rest : List Char

namespace Scanner

def ofChars (cs : List Char) (file : Option String) : Scanner :=
  ⟨.origin (file.getD defaultName), cs⟩

/-- The next token. At the end of the text it is the end of input, again and again. -/
def next (s : Scanner) : Token × Scanner :=
  match s with
  | ⟨p, []⟩ => (Token.eof p, ⟨p, []⟩)
  | ⟨p, c :: cs⟩ =>
    let cut := Lexeme.first c cs
    let stop := p.after cut.1.text cut.2.head?
    match cut.1.kind with
    | none => next ⟨stop, cut.2⟩
    | some k => (cut.1.token k p stop, ⟨stop, cut.2⟩)
termination_by s.rest.length
decreasing_by exact Lexeme.length_first_lt c cs

theorem length_next_lt {s : Scanner} (h : s.next.1.kind ≠ .endOfInput) :
    s.next.2.rest.length < s.rest.length := by
  fun_induction next s with
  | case1 p => exact absurd rfl h
  | case2 p c cs cut stop hkind ih => exact Nat.lt_trans (ih h) (Lexeme.length_first_lt c cs)
  | case3 p c cs cut stop k hkind => exact Lexeme.length_first_lt c cs

/-- Blanks before a token are passed over all at once. -/
theorem next_dropWhile (p : Position) (cs : List Char) :
    next ⟨p, cs⟩ =
      next ⟨p.after (cs.takeWhile Lexeme.isBlank) (cs.dropWhile Lexeme.isBlank).head?,
        cs.dropWhile Lexeme.isBlank⟩ := by
  cases cs with
  | nil => rfl
  | cons c cs =>
    by_cases hc : Lexeme.isBlank c
    · have hfirst : Lexeme.first c cs = Lexeme.blanks c cs := if_pos hc
      rw [next, hfirst, List.takeWhile_cons_of_pos hc, List.dropWhile_cons_of_pos hc]
      rfl
    · rw [List.takeWhile_cons_of_neg hc, List.dropWhile_cons_of_neg hc, Position.after_nil]

def scanned (s : Scanner) : Scanned := .ofLexemes s.position (lexemes s.rest)

/-- The tokens that are left are the next one and those left after it. -/
theorem scanned_eq_next (s : Scanner) :
    s.scanned =
      if s.next.1.kind = .endOfInput then ⟨[], s.next.1.start⟩
      else ⟨s.next.1 :: s.next.2.scanned.tokens, s.next.2.scanned.stop⟩ := by
  fun_induction next s with
  | case1 p => simp [scanned, Scanned.ofLexemes]
  | case2 p c cs cut stop hkind ih =>
    rw [← ih]
    simp only [scanned, lexemes_cons, Scanned.ofLexemes, head?_lexemes]
    rw [show (Lexeme.first c cs).1.kind = none from hkind]
  | case3 p c cs cut stop k hkind =>
    have hne : k ≠ .endOfInput := by
      rintro rfl
      exact Lexeme.first_kind_ne_endOfInput c cs hkind
    simp only [scanned, lexemes_cons, Scanned.ofLexemes, head?_lexemes]
    rw [show (Lexeme.first c cs).1.kind = some k from hkind]
    simp [Lexeme.token, hne, cut, stop]

def next? (s : Scanner) : Option Token × Scanner :=
  let (t, s') := s.next
  (if t.kind = .endOfInput then none else some t, s')

end Scanner

end LuaSyntax
