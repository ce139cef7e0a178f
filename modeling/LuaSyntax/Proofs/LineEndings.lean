import LuaSyntax.Proofs.Layout
import LuaSyntax.Proofs.Redaction

/-! A text with a line feed at the end of each line, and the same text with a carriage return before
each of them. It is cut into the same lexemes, they stand at the same places and the program is the
same, unless a string literal runs over the end of a line. -/

namespace LuaSyntax

def crlf (cs : List Char) : List Char :=
  cs.flatMap fun c => if c = '\n' then ['\r', '\n'] else [c]

@[simp] theorem crlf_nil : crlf [] = [] := rfl

@[simp] theorem crlf_feed (cs : List Char) : crlf ('\n' :: cs) = '\r' :: '\n' :: crlf cs := rfl

theorem crlf_cons {c : Char} (hc : c ≠ '\n') (cs : List Char) : crlf (c :: cs) = c :: crlf cs := by
  rw [crlf, List.flatMap_cons, if_neg hc]
  rfl

theorem crlf_append (cs ds : List Char) : crlf (cs ++ ds) = crlf cs ++ crlf ds :=
  List.flatMap_append

theorem crlf_of_not_mem {cs : List Char} (h : '\n' ∉ cs) : crlf cs = cs := by
  induction cs with
  | nil => rfl
  | cons c cs ih =>
    obtain ⟨hc, hcs⟩ := not_or.1 (mt List.mem_cons.2 h)
    rw [crlf_cons (Ne.symm hc), ih hcs]

theorem head?_crlf_eq {d : Char} (hfeed : d ≠ '\n') (hreturn : d ≠ '\r') (cs : List Char) :
    (crlf cs).head? = some d ↔ cs.head? = some d := by
  cases cs with
  | nil => rfl
  | cons c cs =>
    by_cases hc : c = '\n'
    · subst hc
      simp [hfeed.symm, hreturn.symm]
    · rw [crlf_cons hc, List.head?_cons, List.head?_cons]

section

variable {p : Char → Bool} (hfeed : p '\n' = false) (hreturn : p '\r' = false)
include hfeed hreturn

theorem takeWhile_crlf (cs : List Char) : (crlf cs).takeWhile p = crlf (cs.takeWhile p) := by
  induction cs with
  | nil => rfl
  | cons c cs ih =>
    by_cases hc : c = '\n'
    · subst hc
      simp [hfeed, hreturn]
    rw [crlf_cons hc, List.takeWhile_cons, List.takeWhile_cons, ih]
    split
    · rw [crlf_cons hc]
    · rfl

theorem dropWhile_crlf (cs : List Char) : (crlf cs).dropWhile p = crlf (cs.dropWhile p) := by
  induction cs with
  | nil => rfl
  | cons c cs ih =>
    by_cases hc : c = '\n'
    · subst hc
      simp [hfeed, hreturn]
    rw [crlf_cons hc, List.dropWhile_cons, List.dropWhile_cons, ih]
    split
    · rfl
    · rw [crlf_cons hc]

theorem any_head?_crlf (cs : List Char) : (crlf cs).head?.any p = cs.head?.any p := by
  cases cs with
  | nil => rfl
  | cons c cs =>
    by_cases hc : c = '\n'
    · subst hc
      simp [hfeed, hreturn]
    · rw [crlf_cons hc, List.head?_cons, List.head?_cons]

end

namespace Lexeme

def Tail.crlf (t : Tail) : Tail := ⟨LuaSyntax.crlf t.text, t.closed, LuaSyntax.crlf t.rest⟩

def crlfCut (cut : Lexeme × List Char) : Lexeme × List Char :=
  (⟨cut.1.kind, crlf cut.1.text⟩, crlf cut.2)

theorem Tail.crlf_push {front : List Char} (h : '\n' ∉ front) (t : Tail) :
    (t.push front).crlf = t.crlf.push front := by
  simp only [Tail.crlf, Tail.push, crlf_append, crlf_of_not_mem h]

theorem Tail.crlf_push_feed (t : Tail) : (t.push ['\n']).crlf = t.crlf.push ['\r', '\n'] := rfl

/-! Comments. A line end in a long one is a character like any other. -/

theorem closeBracket_crlf (level : Nat) (state : Option Nat) (cs : List Char) :
    closeBracket level state (crlf cs) = (closeBracket level state cs).crlf := by
  fun_induction closeBracket level state cs with
  | case1 => rfl
  | case2 cs =>
    rw [crlf_cons (by decide), closeBracket, if_pos rfl, if_pos rfl]
    rfl
  | case3 state cs hstate ih =>
    rw [crlf_cons (by decide), closeBracket, if_pos rfl, if_neg hstate, ih,
      Tail.crlf_push (by decide)]
  | case4 state cs hclose ih =>
    rw [crlf_cons (by decide), closeBracket, if_neg hclose, if_pos rfl, ih,
      Tail.crlf_push (by decide)]
  | case5 state c cs hclose heq ih =>
    by_cases hc : c = '\n'
    · subst hc
      have hreturn : ∀ s ds, closeBracket level s ('\r' :: ds) =
          (closeBracket level none ds).push ['\r'] := fun s ds => rfl
      have hfeed : ∀ s ds, closeBracket level s ('\n' :: ds) =
          (closeBracket level none ds).push ['\n'] := fun s ds => rfl
      rw [crlf_feed, hreturn, hfeed, ih, Tail.crlf_push_feed]
      rfl
    · rw [crlf_cons hc, closeBracket, if_neg hclose, if_neg heq, ih,
        Tail.crlf_push (by simpa using Ne.symm hc)]

theorem longBracket?_crlf (cs : List Char) :
    longBracket? (crlf cs) = (longBracket? cs).map fun r => (r.1, crlf r.2) := by
  by_cases hhead : cs.head? = some '['
  · obtain ⟨ds, rfl⟩ := List.head?_eq_some_iff.1 hhead
    have hsigns : '\n' ∉ ds.takeWhile (· == '=') := by
      rw [takeWhile_eq_replicate]
      simp
    rw [crlf_cons (by decide), longBracket?_cons, longBracket?_cons,
      takeWhile_crlf (by decide) (by decide), dropWhile_crlf (by decide) (by decide),
      crlf_of_not_mem hsigns]
    by_cases hopen : (ds.dropWhile (· == '=')).head? = some '['
    · obtain ⟨body, hbody⟩ := List.head?_eq_some_iff.1 hopen
      rw [hbody, crlf_cons (by decide)]
      rfl
    · rw [if_neg hopen, if_neg]
      · rfl
      rwa [head?_crlf_eq (by decide) (by decide)]
  · rw [longBracket?_of_head? hhead, longBracket?_of_head?]
    · rfl
    rwa [Ne, head?_crlf_eq (by decide) (by decide)]

theorem lineFeed_not_mem_openBracket (level : Nat) : '\n' ∉ openBracket level := by
  intro h
  have hline := isLineEnd_of_mem_openBracket h
  cases hline

theorem commentTail_crlf (cs : List Char) : commentTail (crlf cs) = (commentTail cs).crlf := by
  rcases hbracket : longBracket? cs with _ | ⟨level, body⟩
  · simp only [commentTail, longBracket?_crlf, hbracket, Option.map_none, Tail.crlf,
      takeWhile_crlf (p := (!isLineEnd ·)) rfl rfl, dropWhile_crlf (p := (!isLineEnd ·)) rfl rfl]
  · simp only [commentTail, longBracket?_crlf, hbracket, Option.map_some, closeBracket_crlf,
      Tail.crlf_push (lineFeed_not_mem_openBracket level)]

theorem comment_crlf (cs : List Char) : comment (crlf cs) = crlfCut (comment cs) := by
  have hdashes : '\n' ∉ ['-', '-'] := by decide
  have htext := congrArg Tail.text (Tail.crlf_push hdashes (commentTail cs))
  simp only [comment, commentTail_crlf, crlfCut]
  exact congrArg (fun text => (Lexeme.mk _ text, _)) htext.symm

/-! Strings. A backslash takes one character with it, so a line end behind a backslash would be
taken in one of the texts and be cut in two in the other. -/

theorem stringTail_crlf {quote : Char} {cs : List Char} (h : '\n' ∉ (stringTail quote cs).text) :
    stringTail quote (crlf cs) = (stringTail quote cs).crlf := by
  fun_induction stringTail quote cs with
  | case1 => rfl
  | case2 c cs hline =>
    rcases hline with rfl | rfl
    · exact stringTail_of_lineEnd _ (.inr rfl)
    · rw [crlf_cons (by decide)]
      refine (stringTail_of_lineEnd _ (.inr rfl)).trans ?_
      rw [Tail.crlf, crlf_cons (by decide)]
      rfl
  | case3 hline => rfl
  | case4 d ds hline ih =>
    simp only [Tail.push_text, List.mem_append, not_or] at h
    have hd : d ≠ '\n' := by
      rintro rfl
      exact h.1 (by decide)
    rw [crlf_cons (by decide), crlf_cons hd, stringTail_of_escape _ hline rfl, ih h.2,
      Tail.crlf_push h.1]
  | case5 cs hline hescape =>
    have hc := (not_or.1 hline).1
    simp only [crlf_cons hc, stringTail_of_quote _ hline hescape rfl, Tail.crlf, crlf_nil]
  | case6 c cs hline hescape hquote ih =>
    simp only [Tail.push_text, List.mem_append, not_or] at h
    rw [crlf_cons (not_or.1 hline).1, stringTail_of_other _ hline hescape hquote, ih h.2,
      Tail.crlf_push h.1]

theorem stringLiteral_crlf {quote : Char} {cs : List Char}
    (h : '\n' ∉ (stringLiteral quote cs).1.text) :
    stringLiteral quote (crlf cs) = crlfCut (stringLiteral quote cs) := by
  obtain ⟨hquote, htail⟩ := not_or.1 (mt List.mem_cons.2 h)
  simp only [stringLiteral, stringTail_crlf htail, crlfCut, Tail.crlf, crlf_cons (Ne.symm hquote)]

/-! Everything else ends at a line end of either kind. -/

theorem blanks_crlf {c : Char} (hc : c ≠ '\n') (cs : List Char) :
    blanks c (crlf cs) = crlfCut (blanks c cs) := by
  simp only [blanks, crlfCut, crlf_cons hc, takeWhile_crlf (p := isBlank) rfl rfl,
    dropWhile_crlf (p := isBlank) rfl rfl]

theorem lineFeed_not_mem_takeWhile {p : Char → Bool} (hp : p '\n' = false) (cs : List Char) :
    '\n' ∉ cs.takeWhile p := by
  intro hmem
  have hall := List.all_eq_true.1 (List.all_takeWhile (p := p) (l := cs)) '\n' hmem
  rw [hp] at hall
  cases hall

theorem word_crlf {c : Char} (hc : c ≠ '\n') (cs : List Char) :
    word c (crlf cs) = crlfCut (word c cs) := by
  have hpart : '\n' ∉ cs.takeWhile isWordPart := lineFeed_not_mem_takeWhile rfl cs
  simp only [word, crlfCut, crlf_cons hc, takeWhile_crlf (p := isWordPart) rfl rfl,
    dropWhile_crlf (p := isWordPart) rfl rfl, crlf_of_not_mem hpart]

theorem lineFeed_not_mem_numeralTail (hex : Bool) (last : Char) (cs : List Char) :
    '\n' ∉ (numeralTail hex last cs).1 := by
  induction cs generalizing last with
  | nil => exact List.not_mem_nil
  | cons c cs ih =>
    rw [numeralTail]
    split
    · next hc =>
      have hne : '\n' ≠ c := by
        rintro rfl
        cases hex <;> cases hc
      exact List.not_mem_cons_of_ne_of_not_mem hne (ih c)
    · exact List.not_mem_nil

theorem numeralTail_crlf (hex : Bool) (last : Char) (cs : List Char) :
    numeralTail hex last (crlf cs) =
      ((numeralTail hex last cs).1, crlf (numeralTail hex last cs).2) := by
  induction cs generalizing last with
  | nil => rfl
  | cons c cs ih =>
    by_cases hc : c = '\n'
    · subst hc
      have hline : ∀ d, isLineEnd d = true → extendsNumeral hex last d = false := by
        intro d hd
        simp only [isLineEnd, Bool.or_eq_true, beq_iff_eq] at hd
        rcases hd with rfl | rfl <;> cases hex <;> rfl
      simp only [crlf_feed, numeralTail, hline '\r' rfl, hline '\n' rfl]
      rfl
    rw [crlf_cons hc, numeralTail, numeralTail]
    split
    · rw [ih]
    · rw [crlf_cons hc]

theorem numeral_crlf {c : Char} (hc : c ≠ '\n') (cs : List Char) :
    numeral c (crlf cs) = crlfCut (numeral c cs) := by
  have hlead : isHexLead (c :: crlf cs) = isHexLead (c :: cs) := by
    rw [isHexLead_cons, isHexLead_cons, any_head?_crlf rfl rfl]
  have hrun : '\n' ∉ (numeralRun c cs).1 :=
    List.not_mem_cons_of_ne_of_not_mem (Ne.symm hc) (lineFeed_not_mem_numeralTail _ c cs)
  have hcut : numeralRun c (crlf cs) = ((numeralRun c cs).1, crlf (numeralRun c cs).2) := by
    simp only [numeralRun, hlead, numeralTail_crlf]
  simp only [numeral, hcut, crlfCut, crlf_of_not_mem hrun]

theorem lineFeed_not_mem_text (k : Kind) : '\n' ∉ k.text.toList := by
  cases k <;> decide

theorem symbol?_return {k : Kind} (hk : k ∈ Kind.symbols) (r : List Char) :
    symbol? (k.text.toList ++ '\r' :: r) = some (k, '\r' :: r) := by
  cases k <;> first | exact absurd hk (by decide) | rfl

theorem symbol?_crlf {c : Char} (hc : c ≠ '\n') (cs : List Char) :
    symbol? (c :: crlf cs) = (symbol? (c :: cs)).map fun r => (r.1, crlf r.2) := by
  rcases h : symbol? (c :: cs) with _ | ⟨k, rest⟩
  · exact symbol?_eq_none_local h _
  have happend := symbol?_append h
  have hcrlf : c :: crlf cs = k.text.toList ++ crlf rest := by
    rw [← crlf_cons hc, ← happend, crlf_append, crlf_of_not_mem (lineFeed_not_mem_text k)]
  rw [Option.map_some, hcrlf]
  -- a symbol is decided by its own characters and the one behind it, so only a line end right
  -- behind it could make a difference
  match rest with
  | [] => rwa [crlf_nil, happend]
  | n :: r =>
    by_cases hn : n = '\n'
    · subst hn
      exact symbol?_return (mem_symbols_of_symbol? h) _
    obtain ⟨d, ds, hcons⟩ := List.exists_cons_of_ne_nil (text_toList_ne_nil k)
    rw [← happend, hcons, List.cons_append] at h
    rw [crlf_cons hn, hcons, List.cons_append]
    exact symbol?_local h (crlf r)

theorem symbol_crlf {c : Char} (hc : c ≠ '\n') (cs : List Char) :
    symbol c (crlf cs) = crlfCut (symbol c cs) := by
  rcases h : symbol? (c :: cs) with _ | ⟨k, rest⟩
  · simp only [symbol, symbol?_crlf hc, h, Option.map_none, crlfCut, crlf_cons hc, crlf_nil]
  · simp only [symbol, symbol?_crlf hc, h, Option.map_some, crlfCut,
      crlf_of_not_mem (lineFeed_not_mem_text k)]

def Quoted (text : List Char) : Prop := text.head? = some '"' ∨ text.head? = some '\x27'

instance (text : List Char) : Decidable (Quoted text) := inferInstanceAs (Decidable (_ ∨ _))

theorem first_crlf {c : Char} {cs : List Char} (hfeed : c ≠ '\n') (hreturn : c ≠ '\r')
    (hquoted : Quoted (first c cs).1.text → '\n' ∉ (first c cs).1.text) :
    first c (crlf cs) = crlfCut (first c cs) := by
  by_cases hquote : c = '"' ∨ c = '\x27'
  · rw [first_of_quote hquote] at hquoted ⊢
    rw [first_of_quote hquote]
    exact stringLiteral_crlf (hquoted (hquote.imp (congrArg some) (congrArg some)))
  have hdash : (crlf cs).head? = some '-' ↔ cs.head? = some '-' :=
    head?_crlf_eq (by decide) (by decide) cs
  simp only [first, hdash, if_neg hfeed, if_neg hreturn, if_neg hquote]
  split
  · exact blanks_crlf hfeed cs
  split
  · next hdashes =>
    obtain ⟨ds, rfl⟩ := List.head?_eq_some_iff.1 hdashes.2
    rw [crlf_cons (by decide)]
    exact comment_crlf ds
  split
  · exact numeral_crlf hfeed cs
  split
  · exact word_crlf hfeed cs
  · exact symbol_crlf hfeed cs

/-- Of the tokens that can be part of a program only strings can hold a line feed. -/
theorem lineFeed_not_mem_of_first {c : Char} {cs : List Char} {k : Kind}
    (h : (first c cs).1.kind = some k) (hline : k ≠ .newline) (hillegal : k ≠ .illegal)
    (hquoted : Quoted (first c cs).1.text → '\n' ∉ (first c cs).1.text) :
    '\n' ∉ (first c cs).1.text := by
  have hform := form_first c cs
  generalize first c cs = cut at h hquoted hform ⊢
  cases hform with
  | blanks => cases h
  | lineFeed =>
    cases h
    exact absurd rfl hline
  | carriageReturn =>
    rw [carriageReturn_kind] at h
    exact absurd (Option.some.inj h).symm hline
  | comment => exact absurd (eq_illegal_of_comment h) hillegal
  | stringLiteral hc => exact hquoted (hc.imp (congrArg some) (congrArg some))
  | numeral hc =>
    refine List.not_mem_cons_of_ne_of_not_mem ?_ (lineFeed_not_mem_numeralTail _ c cs)
    rintro rfl
    cases hc
  | word hc =>
    refine List.not_mem_cons_of_ne_of_not_mem ?_ (lineFeed_not_mem_takeWhile rfl cs)
    rintro rfl
    cases hc
  | symbol => exact lineFeed_not_mem_text _
  | unknown =>
    cases h
    exact absurd rfl hillegal

theorem content?_of_quoted {c : Char} {cs : List Char} (h : Quoted (first c cs).1.text) :
    ∃ k, (first c cs).1.content? = some (k, String.ofList (first c cs).1.text) := by
  obtain ⟨d, ds, hcons⟩ := List.exists_cons_of_ne_nil (first_text_ne_nil c cs)
  have happend := first_append c cs
  rw [hcons, List.cons_append] at happend
  obtain rfl := (List.cons.inj happend).1
  rw [Quoted, hcons, List.head?_cons, Option.some.injEq, Option.some.injEq] at h
  rw [first_of_quote h]
  refine ⟨if (stringTail d cs).closed then .string else .illegal, ?_⟩
  simp only [stringLiteral, content?, Option.map_some]
  split <;> rfl

end Lexeme

open Lexeme

theorem lexemes_crlf {cs : List Char} (hreturn : '\r' ∉ cs)
    (hquoted : ∀ l ∈ lexemes cs, Quoted l.text → '\n' ∉ l.text) :
    lexemes (crlf cs) = (lexemes cs).map fun l => ⟨l.kind, crlf l.text⟩ := by
  fun_induction lexemes cs with
  | case1 => rw [crlf_nil, lexemes_nil]; rfl
  | case2 c cs cut ih =>
    obtain ⟨hfirst, hrest⟩ := List.forall_mem_cons.1 hquoted
    have hmore : '\r' ∉ cut.2 := by
      rw [← first_append c cs] at hreturn
      exact fun h => hreturn (List.mem_append_right _ h)
    rw [List.map_cons, ← ih hmore hrest]
    by_cases hc : c = '\n'
    · subst hc
      rw [crlf_feed, lexemes_cons]
      rfl
    · have hcut := first_crlf hc (List.ne_of_not_mem_cons hreturn).symm hfirst
      rw [crlf_cons hc, lexemes_cons, hcut]
      rfl

namespace Position

theorem step_of_ne {c : Char} (hc : c ≠ '\r') (p : Position) (next next' : Option Char) :
    p.step c next = p.step c next' := by
  simp [step, breaksLine, hc]

theorem after_crlf {text : List Char} (h : '\r' ∉ text) (p : Position) (next next' : Option Char) :
    p.after (crlf text) next = p.after text next' := by
  induction text generalizing p with
  | nil => rfl
  | cons c cs ih =>
    obtain ⟨hc, hcs⟩ := not_or.1 (mt List.mem_cons.2 h)
    by_cases hfeed : c = '\n'
    · subst hfeed
      rw [crlf_feed, after, after, after, ih hcs]
      rfl
    · rw [crlf_cons hfeed, after, after, ih hcs, step_of_ne (Ne.symm hc)]

end Position

def Token.crlf (t : Token) : Token :=
  { t with value := String.ofList (LuaSyntax.crlf t.value.toList) }

theorem Token.crlf_eof (p : Position) : (Token.eof p).crlf = Token.eof p := by
  have hvalue : String.ofList (LuaSyntax.crlf "EOF".toList) = "EOF" := by decide
  rw [Token.eof, synthetic, Token.crlf, hvalue]

theorem Scanned.ofLexemes_crlf (p : Position) {ls : List Lexeme} (h : ∀ l ∈ ls, '\r' ∉ l.text) :
    ofLexemes p (ls.map fun l => ⟨l.kind, crlf l.text⟩) =
      ⟨(ofLexemes p ls).tokens.map Token.crlf, (ofLexemes p ls).stop⟩ := by
  induction ls generalizing p with
  | nil => rfl
  | cons l ls ih =>
    obtain ⟨hl, hls⟩ := List.forall_mem_cons.1 h
    have htoken : ∀ kind k stop, Lexeme.token ⟨kind, crlf l.text⟩ k p stop =
        (l.token k p stop).crlf := by
      intro kind k stop
      rw [Lexeme.token, Lexeme.token, Token.crlf]
      split
      · rfl
      · rw [String.toList_ofList]
    simp only [List.map_cons, ofLexemes]
    rw [Position.after_crlf hl p _ (ls.head?.bind (·.text.head?)), ih _ hls]
    cases l.kind with
    | none => rfl
    | some k => simp only [htoken, List.map_cons]

theorem mem_content_tokens {source : String} {file : Option String} {w : Kind × String} :
    (∃ t ∈ (scan source file).tokens, t.content = w) ↔
      ∃ l ∈ lexemes source.toList, l.content? = some w := by
  rw [← List.mem_filterMap, ← map_content_tokens, List.mem_map]
  rfl

section

variable {source : String} {file : Option String}
  (hquoted : ∀ t ∈ (scan source file).tokens, Quoted t.value.toList → '\n' ∉ t.value.toList)
include hquoted

theorem quoted_lexemes : ∀ l ∈ lexemes source.toList, Quoted l.text → '\n' ∉ l.text := by
  intro l hl hquote
  obtain ⟨c, cs, rfl⟩ := exists_first_of_mem hl
  obtain ⟨k, hk⟩ := content?_of_quoted hquote
  obtain ⟨t, ht, hcontent⟩ := mem_content_tokens.2 ⟨_, hl, hk⟩
  have hvalue : t.value = String.ofList (first c cs).1.text := congrArg Prod.snd hcontent
  have hfeed := hquoted t ht
  rw [hvalue, String.toList_ofList] at hfeed
  exact hfeed hquote

theorem redacted_crlf {t : Token} (ht : t ∈ (scan source file).tokens) :
    t.crlf.redacted = t.redacted := by
  by_cases hillegal : t.kind = .illegal
  · simp [Token.redacted, Token.crlf, hillegal]
  have hvalue : '\n' ∉ t.value.toList := by
    by_cases hline : t.kind = .newline
    · obtain ⟨l, -, hl⟩ := mem_content_tokens.1 ⟨t, ht, rfl⟩
      obtain ⟨k, hk, hcontent⟩ := Option.map_eq_some_iff.1 hl
      obtain ⟨rfl, hvalue⟩ := Prod.mk.inj hcontent
      rw [← hvalue, if_pos hline]
      decide
    · obtain ⟨c, cs, hkind, htext⟩ := exists_first_of_token ht
      have hfeed := hquoted t ht
      rw [htext hline] at hfeed ⊢
      exact lineFeed_not_mem_of_first hkind hline hillegal hfeed
  have hsame : t.crlf = t := by
    rw [Token.crlf, crlf_of_not_mem hvalue, String.ofList_toList]
  rw [hsame]

theorem scan_crlf (hreturn : '\r' ∉ source.toList) :
    scan (String.ofList (crlf source.toList)) file =
      ⟨(scan source file).tokens.map Token.crlf, (scan source file).stop⟩ := by
  have hlexemes : ∀ l ∈ lexemes source.toList, '\r' ∉ l.text := by
    intro l hl hmem
    refine hreturn ?_
    rw [← flatMap_text_lexemes source.toList]
    exact List.mem_flatMap.2 ⟨l, hl, hmem⟩
  rw [scan, String.toList_ofList, scanChars, lexemes_crlf hreturn (quoted_lexemes hquoted),
    Scanned.ofLexemes_crlf _ hlexemes]
  rfl

end

/-- A source without carriage returns, where no string literal runs over the end of a line. With a
carriage return before each line feed it has the same tokens at the same places, but for the line
ends inside them. The program is the same, and its diagnostics have the same names and places. -/
theorem parse_crlf (source : String) (file : Option String) (hreturn : '\r' ∉ source.toList)
    (hquoted : ∀ t ∈ tokenize source file, Quoted t.value.toList → '\n' ∉ t.value.toList) :
    tokenize (String.ofList (crlf source.toList)) file = (tokenize source file).map Token.crlf ∧
      (parse (String.ofList (crlf source.toList)) file).program = (parse source file).program ∧
      (parse (String.ofList (crlf source.toList)) file).diagnostics.map Diagnostic.label =
        (parse source file).diagnostics.map Diagnostic.label := by
  have htokens : ∀ t ∈ (scan source file).tokens, Quoted t.value.toList → '\n' ∉ t.value.toList :=
    fun t ht => hquoted t (List.mem_append_left _ ht)
  have hscan := scan_crlf htokens hreturn
  have hredact : redact ((scan source file).tokens.map Token.crlf) =
      redact (scan source file).tokens := by
    rw [redact, redact, List.map_map]
    exact List.map_congr_left fun t ht => redacted_crlf htokens ht
  constructor
  · rw [tokenize, hscan, tokenize, Scanned.toList, Scanned.toList, List.map_append,
      List.map_singleton, Token.crlf_eof]
  · obtain ⟨hprogram, hdiagnostics⟩ :=
      Parsed.ofTokens_redact (scan source file).stop (scan source file).tokens
    obtain ⟨hprogram', hdiagnostics'⟩ :=
      Parsed.ofTokens_redact (scan source file).stop ((scan source file).tokens.map Token.crlf)
    rw [hredact] at hprogram' hdiagnostics'
    rw [parse, hscan]
    exact ⟨hprogram'.symm.trans hprogram, hdiagnostics'.symm.trans hdiagnostics⟩

theorem parse_crlf_comments :
    tokenize (String.ofList (crlf "x = 'a' --\n--[[\n]]y = 'b\nif z --[=[\n".toList)) none =
        (tokenize "x = 'a' --\n--[[\n]]y = 'b\nif z --[=[\n" none).map Token.crlf ∧
      (parse (String.ofList
          (crlf "x = 'a' --\n--[[\n]]y = 'b\nif z --[=[\n".toList)) none).program =
        (parse "x = 'a' --\n--[[\n]]y = 'b\nif z --[=[\n" none).program ∧
      (parse (String.ofList
          (crlf "x = 'a' --\n--[[\n]]y = 'b\nif z --[=[\n".toList)) none).diagnostics.map
          Diagnostic.label =
        (parse "x = 'a' --\n--[[\n]]y = 'b\nif z --[=[\n" none).diagnostics.map Diagnostic.label :=
  parse_crlf _ none (by decide +kernel) (by decide +kernel)

/-- Behind a backslash a line feed belongs to the string, but of a carriage return and a line feed
only the first does, and the second cuts the string off. -/
theorem tokenize_crlf_escape :
    '\r' ∉ "\"a\\\nb\"".toList ∧
      (tokenize "\"a\\\nb\"" none).map Token.kind = [.string, .endOfInput] ∧
      (tokenize (String.ofList (crlf "\"a\\\nb\"".toList)) none).map Token.kind =
        [.illegal, .newline, .identifier, .illegal, .endOfInput] := by
  decide +kernel

end LuaSyntax
