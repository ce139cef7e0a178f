import LuaSyntax.Proofs.Lines

/-! How a text is made of its tokens. Between the tokens lie gaps of blanks and comments, and
every character belongs to a token or to a gap. -/

namespace LuaSyntax

open Lexeme

def Lexeme.closingBracket (level : Nat) : List Char := ']' :: (List.replicate level '=' ++ [']'])

/-- A piece of text that becomes no token, before `rest`. A long comment is over with the first
bracket that closes it. -/
inductive Skipped (rest : List Char) : List Char → Prop
  | blank {c} (hc : c = ' ' ∨ c = '\t' ∨ c = '\x0b' ∨ c = '\x0c') : Skipped rest [c]
  | lineComment {body} (hopen : ∀ level, ¬openBracket level <+: body ++ rest)
      (hbody : ∀ c ∈ body, c ≠ '\n' ∧ c ≠ '\r') (hrest : ∀ c ∈ rest.head?, c = '\n' ∨ c = '\r') :
      Skipped rest ('-' :: '-' :: body)
  | longComment {level body}
      (hbody : ¬closingBracket level <:+: (body ++ closingBracket level).dropLast) :
      Skipped rest ('-' :: '-' :: (openBracket level ++ (body ++ closingBracket level)))

inductive Gap (rest : List Char) : List Char → Prop
  | nil : Gap rest []
  | cons {v vs} (hv : Skipped (vs ++ rest) v) (hvs : Gap rest vs) : Gap rest (v ++ vs)

/-- The text that the token stands for, before `rest`. A line end is a line feed, a carriage
return, or both as a pair; any other token has its text for a value. -/
def Token.HasText (t : Token) (rest text : List Char) : Prop :=
  if t.kind = .newline then
    text = ['\n'] ∨ text = ['\r', '\n'] ∨ text = ['\r'] ∧ rest.head? ≠ some '\n'
  else text = t.value.toList

/-- The texts of the tokens in order, with gaps around them, make up `cs`, which stands behind `k`
characters. Every token is `At` the numbers of characters before its text and through it. -/
inductive Tiled (At : Token → Nat → Nat → Prop) : Nat → List Char → List Token → Prop
  | gap {k v} (hv : Gap [] v) : Tiled At k v []
  | token {k v text cs t ts} (hv : Gap (text ++ cs) v) (ht : t.HasText cs text)
      (hat : At t (k + v.length) (k + v.length + text.length))
      (hts : Tiled At (k + v.length + text.length) cs ts) : Tiled At k (v ++ (text ++ cs)) (t :: ts)

theorem Skipped.gap {rest v : List Char} (h : Skipped rest v) : Gap rest v := by
  have hv : Gap rest (v ++ []) := .cons h .nil
  rwa [List.append_nil] at hv

theorem Gap.append {rest v w : List Char} (hv : Gap (w ++ rest) v) (hw : Gap rest w) :
    Gap rest (v ++ w) := by
  induction hv with
  | nil => exact hw
  | cons hv _ ih =>
    rw [List.append_assoc]
    apply Gap.cons _ ih
    rwa [List.append_assoc]

theorem Tiled.cons_gap {At : Token → Nat → Nat → Prop} {k : Nat} {v cs : List Char}
    {ts : List Token} (hv : Gap cs v) (h : Tiled At (k + v.length) cs ts) :
    Tiled At k (v ++ cs) ts := by
  cases h with
  | gap hw => exact .gap (Gap.append (by rwa [List.append_nil]) hw)
  | @token _ w text cs t ts hw ht hat hts =>
    rw [Nat.add_assoc k, ← List.length_append] at hat hts
    rw [← List.append_assoc]
    exact .token (hv.append hw) ht hat hts

/-! What the first lexeme of a text is made of. -/

namespace Lexeme

inductive Form (c : Char) (cs : List Char) : Lexeme × List Char → Prop
  | blanks (hc : isBlank c = true) : Form c cs (blanks c cs)
  | lineFeed (hc : c = '\n') : Form c cs (⟨some .newline, [c]⟩, cs)
  | carriageReturn (hc : c = '\r') : Form c cs (carriageReturn cs)
  | comment {ds} (hc : c = '-') (hcs : cs = '-' :: ds) : Form c cs (comment ds)
  | stringLiteral (hc : c = '"' ∨ c = '\x27') : Form c cs (stringLiteral c cs)
  | numeral (hc : Text.isDigit c = true) : Form c cs (numeral c cs)
  | word (hc : isWordStart c = true) : Form c cs (word c cs)
  | symbol {k rest} (h : symbol? (c :: cs) = some (k, rest)) :
      Form c cs (⟨some k, k.text.toList⟩, rest)
  | unknown (h : symbol? (c :: cs) = none) : Form c cs (⟨some .illegal, [c]⟩, cs)

theorem form_first (c : Char) (cs : List Char) : Form c cs (first c cs) := by
  unfold first
  split
  · next hc => exact .blanks hc
  split
  · next hc => exact .lineFeed hc
  split
  · next hc => exact .carriageReturn hc
  split
  · next hdashes =>
    obtain ⟨ds, rfl⟩ := List.head?_eq_some_iff.1 hdashes.2
    exact .comment hdashes.1 rfl
  split
  · next hc => exact .stringLiteral hc
  split
  · next hc => exact .numeral hc
  split
  · next hc => exact .word hc
  · unfold symbol
    split
    · next h => exact .symbol h
    · next h => exact .unknown h

theorem carriageReturn_kind (cs : List Char) : (carriageReturn cs).1.kind = some .newline := by
  unfold carriageReturn
  split <;> rfl

theorem gap_of_isBlank {v : List Char} (h : ∀ c ∈ v, isBlank c = true) (rest : List Char) :
    Gap rest v := by
  induction v with
  | nil => exact .nil
  | cons c cs ih =>
    obtain ⟨hc, hcs⟩ := List.forall_mem_cons.1 h
    have hblank : Skipped (cs ++ rest) [c] := by
      apply Skipped.blank
      simpa [isBlank, or_assoc] using hc
    exact .cons hblank (ih hcs)

def opened : Option Nat → List Char
  | none => []
  | some k => ']' :: List.replicate k '='

theorem opened_succ (k : Nat) : opened (some (k + 1)) = opened (some k) ++ ['='] := by
  simp [opened, List.replicate_succ']

theorem dropLast_append_closingBracket (body : List Char) (level : Nat) :
    (body ++ closingBracket level).dropLast = body ++ opened (some level) := by
  have hclosing : closingBracket level = opened (some level) ++ [']'] := rfl
  rw [hclosing, ← List.append_assoc, List.dropLast_concat]

theorem infix_of_infix_cons {level : Nat} {c : Char} {v : List Char} (hc : c ≠ ']')
    (h : closingBracket level <:+: c :: v) : closingBracket level <:+: v := by
  rcases List.infix_cons_iff.1 h with h | h
  · exact absurd (List.cons_prefix_cons.1 h).1.symm hc
  · exact h

theorem infix_of_infix_replicate {level : Nat} {v : List Char} (k : Nat)
    (h : closingBracket level <:+: List.replicate k '=' ++ v) : closingBracket level <:+: v := by
  induction k with
  | zero => exact h
  | succ k ih =>
    rw [List.replicate_succ, List.cons_append] at h
    exact ih (infix_of_infix_cons (by decide) h)

theorem eq_of_prefix_replicate {level k : Nat} {c : Char} {v : List Char} (hc : c ≠ '=')
    (h : List.replicate level '=' ++ [']'] <+: List.replicate k '=' ++ c :: v) :
    k = level ∧ c = ']' := by
  induction level generalizing k with
  | zero =>
    cases k with
    | zero => exact ⟨rfl, (List.cons_prefix_cons.1 h).1.symm⟩
    | succ k => exact absurd (List.cons_prefix_cons.1 h).1 (by decide)
  | succ level ih =>
    cases k with
    | zero => exact absurd (List.cons_prefix_cons.1 h).1.symm hc
    | succ k =>
      obtain ⟨rfl, hclose⟩ := ih (List.cons_prefix_cons.1 h).2
      exact ⟨rfl, hclose⟩

theorem infix_of_infix_opened {level : Nat} {state : Option Nat} {c : Char} {v : List Char}
    (hc : c ≠ '=') (hstate : ¬(state = some level ∧ c = ']'))
    (h : closingBracket level <:+: opened state ++ c :: v) : closingBracket level <:+: c :: v := by
  cases state with
  | none => exact h
  | some k =>
    rcases List.infix_cons_iff.1 h with h | h
    · obtain ⟨rfl, hclose⟩ := eq_of_prefix_replicate hc (List.cons_prefix_cons.1 h).2
      exact absurd ⟨rfl, hclose⟩ hstate
    · exact infix_of_infix_replicate k h

theorem exists_closingBracket {level : Nat} {state : Option Nat} {cs : List Char}
    (h : (closeBracket level state cs).closed = true) :
    ∃ body, opened state ++ (closeBracket level state cs).text = body ++ closingBracket level ∧
      ¬closingBracket level <:+: body ++ opened (some level) := by
  fun_induction closeBracket level state cs with
  | case1 => cases h
  | case2 cs =>
    refine ⟨[], rfl, fun hinfix => ?_⟩
    have hlen := hinfix.length_le
    simp only [closingBracket, opened, List.nil_append, List.length_cons, List.length_append,
      List.length_replicate, List.length_nil] at hlen
    omega
  | case3 state cs hstate ih =>
    obtain ⟨body, hbody, hfirst⟩ := ih h
    obtain ⟨v, hv⟩ : ∃ v, body ++ opened (some level) = ']' :: v := by
      cases body with
      | nil => exact ⟨_, rfl⟩
      | cons b body => exact ⟨_, congrArg (· :: _) (List.cons.inj hbody).1.symm⟩
    refine ⟨opened state ++ body, by rw [List.append_assoc, ← hbody]; rfl, fun hinfix => hfirst ?_⟩
    rw [List.append_assoc, hv] at hinfix
    rw [hv]
    exact infix_of_infix_opened (by decide) (fun hs => hstate hs.1) hinfix
  | case4 state cs hclose ih =>
    obtain ⟨body, hbody, hfirst⟩ := ih h
    cases state with
    | none =>
      refine ⟨'=' :: body, congrArg ('=' :: ·) hbody, ?_⟩
      exact fun hinfix => hfirst (infix_of_infix_cons (by decide) hinfix)
    | some k =>
      rw [Option.map_some, opened_succ, List.append_assoc] at hbody
      exact ⟨body, hbody, hfirst⟩
  | case5 state c cs hclose heq ih =>
    obtain ⟨body, hbody, hfirst⟩ := ih h
    refine ⟨opened state ++ c :: body, ?_, fun hinfix => hfirst ?_⟩
    · rw [List.append_assoc, List.cons_append, ← hbody]
      rfl
    · rw [List.append_assoc, List.cons_append] at hinfix
      exact infix_of_infix_cons hclose (infix_of_infix_opened heq (fun hs => hclose hs.2) hinfix)

theorem skipped_of_commentTail {cs : List Char} (h : (commentTail cs).closed = true) :
    Skipped (commentTail cs).rest ('-' :: '-' :: (commentTail cs).text) := by
  rcases hbracket : longBracket? cs with _ | ⟨level, body⟩
  · simp only [commentTail, hbracket]
    apply Skipped.lineComment
    · rintro level ⟨body, hbody⟩
      rw [List.takeWhile_append_dropWhile] at hbody
      rw [← hbody, longBracket?_openBracket] at hbracket
      cases hbracket
    · intro c hc
      have hall := List.all_takeWhile (p := (!isLineEnd ·)) (l := cs)
      simpa [isLineEnd] using List.all_eq_true.1 hall c hc
    · intro c hc
      have hhead := List.head?_dropWhile_not (!isLineEnd ·) cs
      rw [Option.mem_def.1 hc] at hhead
      simpa only [isLineEnd, Bool.not_eq_false', Bool.or_eq_true, beq_iff_eq] using hhead
  · simp only [commentTail, hbracket, Tail.push_closed] at h
    obtain ⟨inner, hinner, hfirst⟩ := exists_closingBracket h
    rw [← dropLast_append_closingBracket] at hfirst
    simp only [commentTail, hbracket, Tail.push_text]
    rw [show (closeBracket level none body).text = inner ++ closingBracket level from hinner]
    exact .longComment hfirst

theorem comment_kind_eq_none {cs : List Char} (h : (comment cs).1.kind = none) :
    (commentTail cs).closed = true := by
  simp only [comment] at h
  split at h
  · assumption
  · cases h

theorem gap_of_first {c : Char} {cs : List Char} (h : (first c cs).1.kind = none) :
    Gap (first c cs).2 (first c cs).1.text := by
  have hform := form_first c cs
  generalize first c cs = cut at h hform ⊢
  cases hform with
  | blanks hc =>
    apply gap_of_isBlank
    rw [blanks, List.forall_mem_cons]
    exact ⟨hc, List.all_eq_true.1 List.all_takeWhile⟩
  | comment => exact (skipped_of_commentTail (comment_kind_eq_none h)).gap
  | carriageReturn =>
    rw [carriageReturn_kind] at h
    cases h
  | lineFeed | stringLiteral | numeral | word | symbol | unknown => cases h

theorem hasText_of_first {c : Char} {cs : List Char} {k : Kind}
    (h : (first c cs).1.kind = some k) (start stop : Position) :
    ((first c cs).1.token k start stop).HasText (first c cs).2 (first c cs).1.text := by
  by_cases hk : k = .newline
  · subst hk
    have hkind : ((first c cs).1.token .newline start stop).kind = .newline := rfl
    rw [Token.HasText, if_pos hkind]
    rcases first_of_newline h with rfl | rfl
    · exact .inl rfl
    · change (carriageReturn cs).1.text = _ ∨ (carriageReturn cs).1.text = _ ∨
        (carriageReturn cs).1.text = _ ∧ (carriageReturn cs).2.head? ≠ _
      by_cases hhead : cs.head? = some '\n'
      · obtain ⟨ds, rfl⟩ := List.head?_eq_some_iff.1 hhead
        exact .inr (.inl rfl)
      · rw [carriageReturn_of_ne hhead]
        exact .inr (.inr ⟨rfl, hhead⟩)
  · simp [Token.HasText, token, hk]

end Lexeme

def placeOf (source : List Char) (file : String) (k : Nat) : Position :=
  (Position.origin file).after (source.take k) (source.drop k).head?

theorem placeOf_append (before text rest : List Char) (file : String) :
    (placeOf (before ++ (text ++ rest)) file before.length).after text rest.head? =
      placeOf (before ++ (text ++ rest)) file (before.length + text.length) := by
  rw [placeOf, placeOf, List.take_left, List.drop_left, ← List.length_append, ← List.append_assoc,
    List.take_left, List.drop_left, List.head?_append, Position.after_append]

theorem Tiled.mono {At At' : Token → Nat → Nat → Prop} (hat : ∀ t i j, At t i j → At' t i j)
    {k : Nat} {cs : List Char} {ts : List Token} (h : Tiled At k cs ts) : Tiled At' k cs ts := by
  induction h with
  | gap hv => exact .gap hv
  | token hv ht h _ ih => exact .token hv ht (hat _ _ _ h) ih

def Token.Lies (source : List Char) (file : String) (t : Token) (i j : Nat) : Prop :=
  i < j ∧ j ≤ source.length ∧ t.span = ⟨placeOf source file i, placeOf source file j⟩

theorem lies_token (before text rest : List Char) (file : String) (hne : text ≠ []) (k : Kind)
    (value : String) :
    Token.Lies (before ++ (text ++ rest)) file
      ⟨k, value, ⟨placeOf (before ++ (text ++ rest)) file before.length,
        (placeOf (before ++ (text ++ rest)) file before.length).after text rest.head?⟩⟩
      before.length (before.length + text.length) := by
  have hpos := List.length_pos_iff.2 hne
  refine ⟨by omega, by simp, ?_⟩
  rw [placeOf_append]

/-- The token is the lexeme that the source goes on with behind `i` characters, and behind `j` of
them it goes on after that. -/
def Token.CutAt (source : List Char) (t : Token) (i j : Nat) : Prop :=
  ∃ c cs, source.drop i = c :: cs ∧ (first c cs).1.kind = some t.kind ∧
    (first c cs).1.token t.kind t.span.start t.span.stop = t ∧ (first c cs).2 = source.drop j

theorem cutAt_token {c : Char} {cs : List Char} {k : Kind} (h : (first c cs).1.kind = some k)
    (before : List Char) (start stop : Position) :
    ((first c cs).1.token k start stop).CutAt
      (before ++ ((first c cs).1.text ++ (first c cs).2)) before.length
      (before.length + (first c cs).1.text.length) := by
  refine ⟨c, cs, ?_, h, rfl, ?_⟩
  · rw [List.drop_left, first_append]
  · rw [← List.append_assoc, ← List.length_append, List.drop_left]

theorem tiled_ofLexemes (file : String) (before cs : List Char) :
    Tiled (fun t i j => t.Lies (before ++ cs) file i j ∧ t.CutAt (before ++ cs) i j) before.length
      cs (Scanned.ofLexemes (placeOf (before ++ cs) file before.length) (lexemes cs)).tokens := by
  fun_induction lexemes cs generalizing before with
  | case1 => exact .gap .nil
  | case2 c cs cut ih =>
    have hcut : cut.1.text ++ cut.2 = c :: cs := first_append c cs
    have hplace := placeOf_append before cut.1.text cut.2 file
    have hmore := ih (before ++ cut.1.text)
    rw [List.length_append, List.append_assoc, ← hplace] at hmore
    rw [← hcut]
    simp only [Scanned.ofLexemes, head?_lexemes]
    cases hk : cut.1.kind with
    | none => exact Tiled.cons_gap (gap_of_first hk) hmore
    | some k =>
      have hlies := lies_token before cut.1.text cut.2 file (first_text_ne_nil c cs) k
      exact .token (v := []) .nil (hasText_of_first hk _ _) ⟨hlies _, cutAt_token hk before _ _⟩
        hmore

theorem tiled_cutAt (source : String) (file : Option String) :
    Tiled (fun t i j => t.Lies source.toList (file.getD defaultName) i j ∧
      t.CutAt source.toList i j) 0 source.toList (scan source file).tokens :=
  tiled_ofLexemes (file.getD defaultName) [] source.toList

theorem tiled_scan (source : String) (file : Option String) :
    Tiled (Token.Lies source.toList (file.getD defaultName)) 0 source.toList
      (scan source file).tokens :=
  (tiled_cutAt source file).mono fun _ _ _ h => h.1

theorem exists_first_of_token {source : String} {file : Option String} {t : Token}
    (h : t ∈ (scan source file).tokens) :
    ∃ c cs, (first c cs).1.kind = some t.kind ∧
      (t.kind ≠ .newline → t.value.toList = (first c cs).1.text) := by
  have hcontent : t.content ∈ (scan source file).tokens.map Token.content :=
    List.mem_map_of_mem h
  rw [scan, scanChars, Scanned.map_content_ofLexemes] at hcontent
  obtain ⟨l, hl, hlexeme⟩ := List.mem_filterMap.1 hcontent
  obtain ⟨k, hk, htoken⟩ := Option.map_eq_some_iff.1 hlexeme
  obtain ⟨c, cs, rfl⟩ := exists_first_of_mem hl
  obtain ⟨hkind, hvalue⟩ := Prod.mk.inj htoken
  subst hkind
  refine ⟨c, cs, hk, fun hline => ?_⟩
  rw [← hvalue]
  change (if t.kind = .newline then "" else String.ofList (first c cs).1.text).toList = _
  rw [if_neg hline, String.toList_ofList]

theorem kind_ne_endOfInput {source : String} {file : Option String} {t : Token}
    (h : t ∈ (scan source file).tokens) : t.kind ≠ .endOfInput := by
  obtain ⟨c, cs, hkind, -⟩ := exists_first_of_token h
  intro heof
  rw [heof] at hkind
  exact first_kind_ne_endOfInput c cs hkind

/-- Every character of a source lies in the text of one token or in one gap, in their order. -/
theorem tokenize_tiled (source : String) (file : Option String) :
    ∃ ts stop, tokenize source file = ts ++ [Token.eof stop] ∧
      (∀ t ∈ ts, t.kind ≠ .endOfInput) ∧ Tiled (fun _ _ _ => True) 0 source.toList ts :=
  ⟨(scan source file).tokens, (scan source file).stop, rfl, fun _ => kind_ne_endOfInput,
    (tiled_scan source file).mono fun _ _ _ _ => trivial⟩

end LuaSyntax
