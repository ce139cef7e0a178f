import LuaSyntax.Lexer.Pieces

/-! Tokens from a source of characters. They are the tokens of the text that the source holds, so
scanning bytes as they are read is scanning the characters that can be read from them. -/

namespace LuaSyntax

namespace Lexer

variable {σ : Type} [Source σ] {l l' : Lexer σ}

/-! One token. -/

def word (c : Char) (start : Position) (l : Lexer σ) : Option Token × Lexer σ :=
  let (value, l') := l.takeWhile (fun _ => Lexeme.isWordPart) (String.singleton c)
  (some (l'.token (Kind.ofWord value) value start), l')

def numeral (c : Char) (start : Position) (l : Lexer σ) : Option Token × Lexer σ :=
  let (value, l') := l.takeWhile keepsNumeral (String.singleton c)
  (some (l'.token (if Lexeme.isNumeral value.toList then .numeral else .illegal) value start), l')

def stringLiteral (quote : Char) (start : Position) (l : Lexer σ) : Option Token × Lexer σ :=
  let (kind, value, l') := l.stringTail quote (String.singleton quote)
  (some (l'.token kind value start), l')

def carriageReturn (next : Option Char) (start : Position) (l : Lexer σ) :
    Option Token × Lexer σ :=
  let l' := if next = some '\n' then l.advance.2 else l
  (some (l'.token .newline "" start), l')

/-- The token that starts with `c`. A comment that ends has none. -/
def tokenFrom (c : Char) (start : Position) (l : Lexer σ) : Option Token × Lexer σ :=
  let (next, l) := l.peek
  if c = '\n' then (some (l.token .newline "" start), l)
  else if c = '\r' then l.carriageReturn next start
  else if c = '-' ∧ next = some '-' then l.advance.2.comment start
  else if c = '"' ∨ c = '\x27' then l.stringLiteral c start
  else if Text.isDigit c then l.numeral c start
  else if Lexeme.isWordStart c then l.word c start
  else l.symbol c start

theorem cuts_word {c : Char} (h : Takes l [c] l') :
    Cuts l (Lexeme.word c l'.left).1 (l'.word c l.position) := by
  obtain ⟨hvalue, htakes, -⟩ :=
    takes_takeWhile_const Lexeme.isWordPart (String.singleton c) l'
  rw [String.toList_singleton, List.singleton_append] at hvalue
  rw [Lexeme.word, word]
  refine cuts_token (h.trans htakes) ?_ ?_ hvalue
  · dsimp only
    rw [← hvalue, String.ofList_toList]
  · intro hnewline
    have hmem := Kind.ofWord_mem (l'.takeWhile (fun _ => Lexeme.isWordPart) (String.singleton c)).1
    rw [hnewline] at hmem
    exact absurd hmem (by decide)

theorem cuts_numeral {c : Char} (hc : Text.isDigit c) (h : Takes l [c] l') :
    Cuts l (Lexeme.numeral c l'.left).1 (l'.numeral c l.position) := by
  obtain ⟨hvalue, htakes⟩ := takes_takeWhile keepsNumeral (String.singleton c) l'
  rw [run_keepsNumeral hc (String.toList_singleton c) rfl, String.toList_singleton] at hvalue
  rw [run_keepsNumeral hc (String.toList_singleton c) rfl] at htakes
  rw [Lexeme.numeral, Lexeme.numeralRun, numeral]
  refine cuts_token (h.trans htakes) ?_ ?_ hvalue
  · rw [hvalue]
    rfl
  · split <;> decide

theorem cuts_stringLiteral {quote : Char} (h : Takes l [quote] l') :
    Cuts l (Lexeme.stringLiteral quote l'.left).1 (l'.stringLiteral quote l.position) := by
  obtain ⟨hkind, hvalue, htakes⟩ := takes_stringTail quote (String.singleton quote) l'
  rw [String.toList_singleton] at hvalue
  rw [Lexeme.stringLiteral, stringLiteral]
  refine cuts_token (h.trans htakes) (congrArg some hkind.symm) ?_ hvalue
  rw [hkind]
  split <;> decide

theorem cuts_carriageReturn (h : Takes l ['\r'] l') :
    Cuts l (Lexeme.carriageReturn l'.left).1
      (l'.carriageReturn l'.left.head? l.position) := by
  rw [carriageReturn]
  split
  · next hnext =>
    obtain ⟨hhead, htakes⟩ := takes_of_advance (l := l') (a := l'.advance.1) rfl
    rw [← hhead, hnext] at htakes
    obtain ⟨cs, hcs⟩ := List.head?_eq_some_iff.1 hnext
    rw [hcs]
    exact ⟨h.trans htakes, rfl⟩
  · next hnext =>
    rw [Lexeme.carriageReturn_of_ne hnext]
    exact ⟨h, rfl⟩

theorem cuts_tokenFrom {c : Char} (hc : Lexeme.isBlank c = false) (h : Takes l [c] l') :
    Cuts l (Lexeme.first c l'.left).1 (l'.tokenFrom c l.position) := by
  rcases hpeek : l'.peek with ⟨next, l₁⟩
  obtain ⟨hnext, hsame⟩ := takes_of_peek hpeek
  have htakes : Takes l [c] l₁ := h.trans hsame
  simp only [tokenFrom, hpeek, Lexeme.first, hc, Bool.false_eq_true, if_false]
  rw [show l'.left = l₁.left from hsame.left_eq] at hnext ⊢
  rw [hnext]
  split
  · next hfeed =>
    subst hfeed
    exact ⟨htakes, rfl⟩
  split
  · next hreturn =>
    subst hreturn
    rw [← hnext]
    exact cuts_carriageReturn htakes
  split
  · next hdash =>
    obtain ⟨rfl, hdash⟩ := hdash
    obtain ⟨hhead, hadvance⟩ := takes_of_advance (l := l₁) (a := l₁.advance.1) rfl
    rw [← hhead, hnext, hdash] at hadvance
    rw [hadvance.left_eq]
    exact cuts_comment (htakes.trans hadvance)
  split
  · exact cuts_stringLiteral htakes
  split
  · next hdigit => exact cuts_numeral hdigit htakes
  split
  · exact cuts_word htakes
  · exact cuts_symbol htakes

/-! All tokens. -/

def skipBlanks (l : Lexer σ) : Lexer σ := (l.takeWhile (fun _ => Lexeme.isBlank) "").2

theorem takes_skipBlanks (l : Lexer σ) :
    Takes l (l.left.takeWhile Lexeme.isBlank) l.skipBlanks ∧
      l.skipBlanks.left = l.left.dropWhile Lexeme.isBlank :=
  (takes_takeWhile_const Lexeme.isBlank "" l).2

theorem cuts_of_advance {c : Char} (h : l.skipBlanks.advance = (some c, l')) :
    l.skipBlanks.left = c :: l'.left ∧
      Cuts l.skipBlanks (Lexeme.first c l'.left).1 (l'.tokenFrom c l.skipBlanks.position) := by
  obtain ⟨hhead, htakes⟩ := takes_of_advance h
  have hc : Lexeme.isBlank c = false := by
    have hnot := List.head?_dropWhile_not Lexeme.isBlank l.left
    rw [← (takes_skipBlanks l).2, hhead] at hnot
    exact hnot
  exact ⟨htakes.left_eq, cuts_tokenFrom hc htakes⟩

theorem length_tokenFrom_lt {c : Char} (h : l.skipBlanks.advance = (some c, l')) :
    (l'.tokenFrom c l.skipBlanks.position).2.left.length < l.left.length :=
  Nat.lt_of_lt_of_le ((cuts_of_advance h).2.takes.length_lt (Lexeme.first_text_ne_nil _ _))
    (takes_skipBlanks l).1.length_le

/-- The next token. At the end of the text it is the end of input, again and again. -/
def next (l : Lexer σ) : Token × Lexer σ :=
  match _h : l.skipBlanks.advance with
  | (none, l') => (Token.eof l.skipBlanks.position, l')
  | (some c, l') =>
    match _h' : l'.tokenFrom c l.skipBlanks.position with
    | (some t, l'') => (t, l'')
    | (none, l'') => l''.next
termination_by l.left.length
decreasing_by
  have hlt := length_tokenFrom_lt _h
  rwa [_h'] at hlt

def scanner (l : Lexer σ) : Scanner := ⟨l.position, l.left⟩

theorem next_skipBlanks (l : Lexer σ) : l.skipBlanks.scanner.next = l.scanner.next := by
  obtain ⟨htakes, hleft⟩ := takes_skipBlanks l
  have hnext := Scanner.next_dropWhile l.position l.left
  rw [← hleft, ← htakes.position_eq] at hnext
  exact hnext.symm

theorem Cuts.next_eq {c : Char} {cs : List Char} {r : Option Token × Lexer σ}
    (h : Cuts l (Lexeme.first c cs).1 r) (hleft : l.left = c :: cs) :
    l.scanner.next = r.1.elim r.2.scanner.next fun t => (t, r.2.scanner) := by
  have hrest : r.2.left = (Lexeme.first c cs).2 :=
    h.takes.left_of_append ((Lexeme.first_append c cs).trans hleft.symm)
  have hstop : r.2.position =
      l.position.after (Lexeme.first c cs).1.text (Lexeme.first c cs).2.head? := by
    rw [← hrest]
    exact h.takes.position_eq
  rw [scanner, hleft, Scanner.next, h.token_eq, scanner, hrest, ← hstop]
  cases (Lexeme.first c cs).1.kind <;> rfl

/-- Reading leads from `l` to `l'`, and nothing was left for the last read. -/
def Exhausts (l l' : Lexer σ) : Prop :=
  ∃ s, Source.Reaches l.source s ∧ Source.left s = [] ∧ l'.source = (Source.read s).2

theorem source_of_advance (h : l.advance = (none, l')) : l'.source = (Source.read l.source).2 := by
  rw [advance] at h
  split at h
  · next s hread =>
    rw [hread]
    exact congrArg (source ∘ Prod.snd) h.symm
  · split at h <;> cases h

theorem next_eq (l : Lexer σ) :
    (l.next.1, l.next.2.scanner) = l.scanner.next ∧
      Source.Reaches l.source l.next.2.source ∧
      (l.next.1.kind = .endOfInput → Exhausts l l.next.2) := by
  fun_induction next l with
  | case1 l l' h =>
    obtain ⟨hhead, htakes⟩ := takes_of_advance h
    have hblanks := (takes_skipBlanks l).1.reaches
    have hnil : l.skipBlanks.left = [] := List.head?_eq_none_iff.1 hhead
    have hnil' : l'.left = [] := htakes.left_eq.symm.trans hnil
    refine ⟨?_, hblanks.trans htakes.reaches,
      fun _ => ⟨l.skipBlanks.source, hblanks, hnil, source_of_advance h⟩⟩
    have hscanner : l.skipBlanks.scanner = ⟨l.skipBlanks.position, []⟩ := by rw [scanner, hnil]
    have hscanner' : l'.scanner = ⟨l.skipBlanks.position, []⟩ := by
      rw [scanner, hnil', htakes.position_eq]
      rfl
    rw [← next_skipBlanks, hscanner, hscanner', Scanner.next]
  | case2 l c l' h t l'' h' =>
    obtain ⟨hleft, hcuts⟩ := cuts_of_advance h
    have hnext := hcuts.next_eq hleft
    rw [h'] at hcuts hnext
    rw [next_skipBlanks] at hnext
    refine ⟨hnext.symm, (takes_skipBlanks l).1.reaches.trans hcuts.takes.reaches, fun hend => ?_⟩
    obtain ⟨k, hkind, htoken⟩ := Option.map_eq_some_iff.1 hcuts.token_eq.symm
    have hk : k = .endOfInput := (congrArg Token.kind htoken).trans hend
    rw [hk] at hkind
    exact absurd hkind (Lexeme.first_kind_ne_endOfInput c l'.left)
  | case3 l c l' h l'' h' ih =>
    obtain ⟨hleft, hcuts⟩ := cuts_of_advance h
    have hnext := hcuts.next_eq hleft
    rw [h'] at hcuts hnext
    rw [next_skipBlanks] at hnext
    have hreaches := (takes_skipBlanks l).1.reaches.trans hcuts.takes.reaches
    refine ⟨ih.1.trans hnext.symm, hreaches.trans ih.2.1, fun hend => ?_⟩
    obtain ⟨s, hs, hnil, hlast⟩ := ih.2.2 hend
    exact ⟨s, hreaches.trans hs, hnil, hlast⟩

theorem length_next_lt (h : l.next.1.kind ≠ .endOfInput) :
    l.next.2.left.length < l.left.length := by
  obtain ⟨hnext, -⟩ := next_eq l
  have hlt := Scanner.length_next_lt (s := l.scanner) (by rwa [← hnext])
  rwa [← hnext] at hlt

def scan (l : Lexer σ) : Scanned × Lexer σ :=
  match _h : l.next with
  | (t, l') =>
    if _hend : t.kind = .endOfInput then (⟨[], t.start⟩, l')
    else
      let (more, l'') := l'.scan
      (⟨t :: more.tokens, more.stop⟩, l'')
termination_by l.left.length
decreasing_by
  have hlt := length_next_lt (l := l)
  rw [_h] at hlt
  exact hlt _hend

/-- All tokens are those of the text that is left, and the source is read to its end. -/
theorem scan_eq (l : Lexer σ) : l.scan.1 = l.scanner.scanned ∧ Exhausts l l.scan.2 := by
  fun_induction scan l with
  | case1 l t l' h hend =>
    obtain ⟨hnext, -, hexhausts⟩ := next_eq l
    rw [h] at hnext hexhausts
    rw [Scanner.scanned_eq_next, ← hnext, if_pos hend]
    exact ⟨rfl, hexhausts hend⟩
  | case2 l t l' h hend more l'' hmore ih =>
    obtain ⟨hnext, hreaches, -⟩ := next_eq l
    rw [h] at hnext hreaches
    obtain ⟨hscanned, s, hs, hnil, hlast⟩ := ih
    rw [hmore] at hscanned hlast
    rw [Scanner.scanned_eq_next, ← hnext, if_neg hend, ← hscanned]
    exact ⟨rfl, s, hreaches.trans hs, hnil, hlast⟩

def ofSource (s : σ) (file : Option String) : Lexer σ := ⟨s, .origin (file.getD defaultName)⟩

theorem scan_charSource (text : String) (file : Option String) :
    (ofSource (CharSource.mk text.toList) file).scan.1 = LuaSyntax.scan text file :=
  (scan_eq _).1

end Lexer

namespace Reader

theorem ahead_or_error_of_reaches {r q : Reader} (h : Source.Reaches r q) :
    q.ahead.or q.error = r.ahead.or r.error := by
  induction h with
  | refl => rfl
  | read h ih => exact (ahead_or_error_fill _).trans ih
  | peek h ih => exact (ahead_or_error_fill _).trans ih

end Reader

def scanBytes (bytes : List UInt8) (file : Option String) : Scanned × Option ReadError :=
  let (scanned, l) := (Lexer.ofSource (Reader.ofBytes bytes) file).scan
  (scanned, l.source.error)

/-- The tokens of bytes are those of the characters that can be read from them. -/
theorem scanBytes_eq_readAll (bytes : List UInt8) (file : Option String) :
    scanBytes bytes file = (scanChars (readAll bytes).1 file, (readAll bytes).2) := by
  obtain ⟨hscanned, r, hreaches, hnil, hlast⟩ :=
    (Lexer.ofSource (Reader.ofBytes bytes) file).scan_eq
  have herror : (Source.read r).2.error = r.ahead.or r.error := (Reader.fill_of_nil hnil).2.2
  rw [Reader.ahead_or_error_of_reaches hreaches] at herror
  simp only [scanBytes, hscanned, hlast, herror]
  exact congrArg (Prod.mk _) Option.or_none

end LuaSyntax
