import LuaSyntax.Proofs.Composition
import LuaSyntax.Proofs.Lexicon

/-! A source and the same tokens laid out anew, with one space between them and nothing else. The
tokens are cut off again in the new layout, also those that are illegal, and a program depends on
the kinds and the values of its tokens only. -/

namespace LuaSyntax

open Lexeme

def Lexeme.content? (l : Lexeme) : Option (Kind × String) :=
  l.kind.map fun k => (k, if k = .newline then "" else String.ofList l.text)

theorem map_content_tokens (p : Position) (ls : List Lexeme) :
    (Scanned.ofLexemes p ls).tokens.map Token.content = ls.filterMap content? :=
  Scanned.map_content_ofLexemes p ls

namespace Layout

/-- A token as it is written behind another one: a line end as a line feed, and any other token
as its value after a space. -/
def spaced (w : Kind × String) : List Char :=
  if w.1 = .newline then ['\n'] else ' ' :: w.2.toList

def chars : List (Kind × String) → List Char
  | [] => []
  | w :: ws => (if w.1 = .newline then ['\n'] else w.2.toList) ++ ws.flatMap spaced

end Layout

def layout (ts : List Token) : String := String.ofList (Layout.chars (ts.map Token.content))

namespace Layout

theorem filterMap_content?_blank {c : Char} (hc : isBlank c = true) (cs : List Char) :
    (lexemes (c :: cs)).filterMap content? = (lexemes cs).filterMap content? := by
  have hblank : ∀ {d ds}, isBlank d = true →
      (lexemes (d :: ds)).filterMap content? =
        (lexemes (ds.dropWhile isBlank)).filterMap content? := by
    intro d ds hd
    rw [lexemes_cons, first, if_pos hd]
    rfl
  rw [hblank hc]
  cases cs with
  | nil => rfl
  | cons d ds =>
    by_cases hd : isBlank d = true
    · rw [hblank hd, List.dropWhile_cons, if_pos hd]
    · rw [List.dropWhile_cons, if_neg hd]

theorem filterMap_content?_feed (cs : List Char) :
    (lexemes ('\n' :: cs)).filterMap content? =
      (.newline, "") :: (lexemes cs).filterMap content? := by
  rw [lexemes_cons]
  rfl

theorem breaks_flatMap_spaced (ws : List (Kind × String)) : Breaks (ws.flatMap spaced) := by
  cases ws with
  | nil => intro c hc; cases hc
  | cons w ws =>
    intro c hc
    rw [List.flatMap_cons, spaced] at hc
    split at hc <;> (cases hc; rfl)

end Layout

/-! Illegal tokens. One that is cut off by the end of the line or of the text is cut off there
again, so what follows it must be of the same sort as before. -/

namespace Lexeme

theorem closeBracket_rest_of_open {level : Nat} {state : Option Nat} {cs : List Char}
    (h : (closeBracket level state cs).closed = false) :
    (closeBracket level state cs).rest = [] := by
  fun_induction closeBracket level state cs with
  | case1 => rfl
  | case2 => cases h
  | case3 _ _ _ ih | case4 _ _ _ ih | case5 _ _ _ _ _ ih => exact ih h

theorem commentTail_rest_of_open {cs : List Char} (h : (commentTail cs).closed = false) :
    (commentTail cs).rest = [] := by
  rcases hbracket : longBracket? cs with _ | ⟨level, body⟩
  · simp only [commentTail, hbracket] at h
    cases h
  · simp only [commentTail, hbracket, Tail.push_closed, Tail.push_rest] at h ⊢
    exact closeBracket_rest_of_open h

theorem stringTail_rest_of_open {quote : Char} {cs : List Char}
    (h : (stringTail quote cs).closed = false) :
    ∀ c ∈ (stringTail quote cs).rest.head?, isLineEnd c = true := by
  fun_induction stringTail quote cs with
  | case1 | case3 => intro c hc; cases hc
  | case2 c cs hline =>
    rintro d ⟨⟩
    simpa [isLineEnd] using hline
  | case4 _ _ _ ih | case6 _ _ _ _ _ ih => exact ih h
  | case5 => cases h

theorem stringTail_of_open {quote : Char} {cs : List Char}
    (h : (stringTail quote cs).closed = false) (hrest : (stringTail quote cs).rest ≠ [])
    (r : List Char) :
    stringTail quote ((stringTail quote cs).text ++ '\n' :: r) =
      ⟨(stringTail quote cs).text, false, '\n' :: r⟩ := by
  fun_induction stringTail quote cs with
  | case1 | case3 => exact absurd rfl hrest
  | case2 c cs hline => exact stringTail_of_lineEnd r (.inl rfl)
  | case4 d ds hline ih =>
    simp only [Tail.push_text, List.cons_append, List.nil_append]
    rw [stringTail_of_escape _ hline rfl, ih h hrest]
    rfl
  | case5 => cases h
  | case6 c cs hline hescape hquote ih =>
    simp only [Tail.push_text, List.cons_append, List.nil_append]
    rw [stringTail_of_other _ hline hescape hquote, ih h hrest]
    rfl

/-- The text `w` can stand in the place of `rest` behind a token: it starts with a break, and where
`rest` is the end of the text or of a line, so is `w`. -/
structure StandsFor (rest w : List Char) : Prop where
  breaks : Breaks w
  nil : rest = [] → w = []
  lineEnd : ∀ n ∈ rest.head?, isLineEnd n = true → ∃ r, w = '\n' :: r

theorem stringLiteral_recut {quote : Char} {cs w : List Char}
    (h : (stringLiteral quote cs).1.kind = some .illegal) (hrest : (stringLiteral quote cs).2 ≠ [])
    (hw : StandsFor (stringLiteral quote cs).2 w) :
    stringLiteral quote ((stringTail quote cs).text ++ w) = ((stringLiteral quote cs).1, w) := by
  have hopen : (stringTail quote cs).closed = false := by
    simp only [stringLiteral, Option.some.injEq] at h
    split at h
    · cases h
    · next hclosed => exact Bool.eq_false_iff.2 hclosed
  obtain ⟨n, ns, hn⟩ := List.exists_cons_of_ne_nil hrest
  have hhead : n ∈ (stringTail quote cs).rest.head? := congrArg List.head? hn
  obtain ⟨r, rfl⟩ := hw.lineEnd n hhead (stringTail_rest_of_open hopen n hhead)
  simp only [stringLiteral, stringTail_of_open hopen hrest r, hopen]

theorem kind_ne_illegal_of_word (c : Char) (cs : List Char) :
    (word c cs).1.kind ≠ some .illegal := by
  have hmem := Kind.ofWord_mem (String.ofList (c :: cs.takeWhile isWordPart))
  intro h
  rw [Option.some.inj h] at hmem
  exact absurd hmem (by decide)

theorem first_of_unknown {c : Char} {cs : List Char} (h : (first c cs).1.kind = some .illegal)
    (hrest : (first c cs).2 ≠ []) (hquote : ¬(c = '"' ∨ c = '\x27'))
    (hdigit : ¬Text.isDigit c = true) (hword : ¬isWordStart c = true) :
    (first c cs).1 = ⟨some .illegal, [c]⟩ ∧ ∀ w, first c w = (⟨some .illegal, [c]⟩, w) := by
  have hblank : ¬isBlank c = true := by
    intro hc
    rw [first, if_pos hc] at h
    cases h
  have hfeed : c ≠ '\n' := by
    rintro rfl
    cases h
  have hreturn : c ≠ '\r' := by
    rintro rfl
    change (carriageReturn cs).1.kind = _ at h
    rw [carriageReturn_kind] at h
    cases h
  have hform := form_first c cs
  generalize first c cs = cut at h hrest hform ⊢
  cases hform with
  | blanks hc => exact absurd hc hblank
  | lineFeed hc => exact absurd hc hfeed
  | carriageReturn hc => exact absurd hc hreturn
  | comment =>
    simp only [comment] at h hrest
    split at h
    · cases h
    · next hclosed => exact absurd (commentTail_rest_of_open (Bool.eq_false_iff.2 hclosed)) hrest
  | stringLiteral hc => exact absurd hc hquote
  | numeral hc => exact absurd hc hdigit
  | word hc => exact absurd hc hword
  | symbol hsymbol =>
    cases h
    exact absurd (mem_symbols_of_symbol? hsymbol) (by decide)
  | unknown hnone =>
    have hdash : c ≠ '-' := by
      rintro rfl
      cases hnone
    refine ⟨rfl, fun w => ?_⟩
    simp only [first, if_neg hblank, if_neg hfeed, if_neg hreturn, hdash, false_and, if_false,
      if_neg hquote, if_neg hdigit, if_neg hword, symbol, symbol?_eq_none_local hnone w]

theorem first_recut_illegal {c : Char} {cs w : List Char}
    (h : (first c cs).1.kind = some .illegal) (hrest : (first c cs).2 ≠ [])
    (hw : StandsFor (first c cs).2 w) :
    ∃ ds, (first c cs).1.text = c :: ds ∧ first c (ds ++ w) = ((first c cs).1, w) := by
  by_cases hquote : c = '"' ∨ c = '\x27'
  · rw [first_of_quote hquote] at h hrest hw ⊢
    refine ⟨(stringTail c cs).text, rfl, ?_⟩
    rw [first_of_quote hquote]
    exact stringLiteral_recut h hrest hw
  by_cases hdigit : Text.isDigit c = true
  · rw [first_of_isDigit hdigit]
    obtain ⟨ds, htext, hcut⟩ := numeral_append_breaks c cs
    refine ⟨ds, htext, ?_⟩
    rw [first_of_isDigit hdigit]
    exact hcut w hw.breaks
  by_cases hword : isWordStart c = true
  · rw [Spelling.first_of_isWordStart hword] at h
    exact absurd h (kind_ne_illegal_of_word c cs)
  obtain ⟨hcut, hfirst⟩ := first_of_unknown h hrest hquote hdigit hword
  rw [hcut]
  exact ⟨[], rfl, hfirst w⟩

/-- A token is cut off again before a text that can stand in the place of what followed it. -/
theorem lexemes_recut {c : Char} {cs w : List Char} {k : Kind} (h : (first c cs).1.kind = some k)
    (hline : k ≠ .newline) (hw : StandsFor (first c cs).2 w) :
    lexemes ((first c cs).1.text ++ w) = (first c cs).1 :: lexemes w := by
  by_cases hrest : (first c cs).2 = []
  · -- the token is all that there is
    obtain rfl := hw.nil hrest
    have happend := first_append c cs
    rw [hrest] at happend
    rw [happend, lexemes_cons, hrest]
  obtain ⟨ds, htext, hcut⟩ :
      ∃ ds, (first c cs).1.text = c :: ds ∧ first c (ds ++ w) = ((first c cs).1, w) := by
    by_cases hillegal : k = .illegal
    · subst hillegal
      exact first_recut_illegal h hrest hw
    · obtain ⟨ds, htext, hcut⟩ := first_append_breaks h hline hillegal
      refine ⟨ds, htext, ?_⟩
      rw [hcut w hw.breaks, ← h, ← htext]
  rw [htext, List.cons_append, lexemes_cons, hcut]

end Lexeme

namespace Layout

theorem standsFor_spaced (cs : List Char) :
    StandsFor cs (((lexemes cs).filterMap content?).flatMap spaced) where
  breaks := breaks_flatMap_spaced _
  nil := by
    rintro rfl
    rw [lexemes_nil]
    rfl
  lineEnd := by
    intro n hn hline
    obtain ⟨ds, rfl⟩ := List.head?_eq_some_iff.1 hn
    have hkind : (first n ds).1.kind = some .newline := by
      simp only [isLineEnd, Bool.or_eq_true, beq_iff_eq] at hline
      rcases hline with rfl | rfl
      · rfl
      · exact carriageReturn_kind ds
    rw [lexemes_cons, List.filterMap_cons, content?, hkind]
    exact ⟨_, rfl⟩

theorem filterMap_content?_spaced (cs : List Char) :
    (lexemes (((lexemes cs).filterMap content?).flatMap spaced)).filterMap content? =
      (lexemes cs).filterMap content? := by
  fun_induction lexemes cs with
  | case1 =>
    rw [List.filterMap_nil, List.flatMap_nil, lexemes_nil]
    rfl
  | case2 c cs cut ih =>
    have hstands := standsFor_spaced cut.2
    cases hk : cut.1.kind with
    | none =>
      have hnone : cut.1.content? = none := by rw [content?, hk]; rfl
      rw [List.filterMap_cons_none hnone]
      exact ih
    | some k =>
      by_cases hline : k = .newline
      · subst hline
        have hcontent : cut.1.content? = some (.newline, "") := by rw [content?, hk]; rfl
        have hspaced : spaced (.newline, "") = ['\n'] := rfl
        rw [List.filterMap_cons_some hcontent, List.flatMap_cons, hspaced, List.singleton_append,
          filterMap_content?_feed, ih]
      · have hcontent : cut.1.content? = some (k, String.ofList cut.1.text) := by
          rw [content?, hk, Option.map_some, if_neg hline]
        have hspaced : spaced (k, String.ofList cut.1.text) = ' ' :: cut.1.text := by
          rw [spaced, if_neg hline, String.toList_ofList]
        rw [List.filterMap_cons_some hcontent, List.flatMap_cons, hspaced, List.cons_append,
          filterMap_content?_blank rfl, lexemes_recut hk hline hstands,
          List.filterMap_cons_some hcontent, ih]

theorem filterMap_content?_chars (ws : List (Kind × String)) :
    (lexemes (chars ws)).filterMap content? = (lexemes (ws.flatMap spaced)).filterMap content? := by
  cases ws with
  | nil => rfl
  | cons w ws =>
    rw [chars, List.flatMap_cons, spaced]
    split
    · rfl
    · exact (filterMap_content?_blank rfl _).symm

theorem map_content_layout (source : String) (file file' : Option String) :
    (scan (layout (scan source file).tokens) file').tokens.map Token.content =
      (scan source file).tokens.map Token.content := by
  simp only [scan, scanChars, layout, String.toList_ofList, map_content_tokens]
  rw [filterMap_content?_chars, filterMap_content?_spaced]

end Layout

def Parsed.content (p : Parsed) : Program (Kind × String) × List Problem :=
  (p.program.map (Stmt.map Token.content), p.diagnostics.map Diagnostic.problem)

theorem Parsed.content_move (place : Position → Position) (p : Parsed) :
    (p.move place).content = p.content := by
  have hstmt : ∀ s : Stmt Token, (s.map (Token.move place)).map Token.content =
      s.map Token.content := fun s => Stmt.map_map _ _ s
  simp only [content, move, List.map_map, Function.comp_def, hstmt, Diagnostic.move]

theorem Parsed.content_ofScanned {s s' : Scanned}
    (h : s.tokens.map Token.content = s'.tokens.map Token.content) :
    (ofScanned s).content = (ofScanned s').content := by
  let here := Position.origin defaultName
  let nowhere : Position → Position := fun _ => here
  have hmove : ∀ ts : List Token, ts.map (Token.move nowhere) =
      (ts.map Token.content).map fun w => ⟨w.1, w.2, ⟨here, here⟩⟩ := by
    intro ts
    rw [List.map_map]
    rfl
  have hscanned : s.move nowhere = s'.move nowhere := by
    rw [Scanned.move, Scanned.move, hmove, hmove, h]
  rw [← content_move nowhere (ofScanned s), ← content_move nowhere (ofScanned s'),
    ← ofTokens_move, ← ofTokens_move, hscanned]

/-- A source laid out anew, with one space between two tokens and none before a line end, has the
same tokens. So it has the same program but for the places, and the same things are wrong with
it. -/
theorem layout_irrelevant (source : String) (file file' : Option String) :
    (tokenize (layout (tokenize source file).dropLast) file').map Token.content =
        (tokenize source file).map Token.content ∧
      (parse (layout (tokenize source file).dropLast) file').program.map (Stmt.map Token.content) =
        (parse source file).program.map (Stmt.map Token.content) ∧
      (parse (layout (tokenize source file).dropLast) file').diagnostics.map Diagnostic.problem =
        (parse source file).diagnostics.map Diagnostic.problem := by
  rw [dropLast_tokenize]
  have htokens := Layout.map_content_layout source file file'
  have hparsed := Prod.mk.inj (Parsed.content_ofScanned htokens)
  refine ⟨?_, hparsed.1, hparsed.2⟩
  rw [tokenize, Scanned.toList, tokenize, Scanned.toList, List.map_append, List.map_append, htokens]
  rfl

example : layout (tokenize "x=1--c\r\n-\t-'a\n" none).dropLast = "x = 1\n - - 'a\n" := by
  decide +kernel

end LuaSyntax
