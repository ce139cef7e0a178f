import LuaSyntax.Scanner

/-! How far the cutting of a text into lexemes looks ahead: no further than the character behind
a lexeme. So two texts can be cut one after the other, where the first ends with a line end that
the second does not continue. -/

namespace LuaSyntax

namespace Lexeme

/-- Behind the character `n` that follows a piece of text, nothing matters for the piece. -/
def Local (cut : List Char → Lexeme × List Char) : Prop :=
  ∀ {l : Lexeme} {ds : List Char} {n : Char} {r : List Char},
    cut (ds ++ n :: r) = (l, n :: r) → ∀ r', cut (ds ++ n :: r') = (l, n :: r')

theorem all_of_dropWhile {p : Char → Bool} {ds : List Char} {n : Char} {r : List Char}
    (h : (ds ++ n :: r).dropWhile p = n :: r) : (∀ d ∈ ds, p d = true) ∧ p n = false := by
  have htake : (ds ++ n :: r).takeWhile p = ds := by
    have happend := List.takeWhile_append_dropWhile (p := p) (l := ds ++ n :: r)
    rw [h] at happend
    exact List.append_cancel_right happend
  constructor
  · have hall := List.all_takeWhile (p := p) (l := ds ++ n :: r)
    rw [htake, List.all_eq_true] at hall
    exact hall
  · have hhead := List.head?_dropWhile_not p (ds ++ n :: r)
    rw [h] at hhead
    simpa using hhead

theorem span_of_all {p : Char → Bool} {ds : List Char} {n : Char} (hds : ∀ d ∈ ds, p d = true)
    (hn : p n = false) (r : List Char) :
    (ds ++ n :: r).takeWhile p = ds ∧ (ds ++ n :: r).dropWhile p = n :: r := by
  rw [List.takeWhile_append_of_pos hds, List.dropWhile_append_of_pos hds]
  simp [hn]

theorem local_blanks (c : Char) : Local (blanks c) := by
  intro l ds n r h r'
  obtain ⟨hl, hrest⟩ := Prod.mk.inj h
  obtain ⟨hds, hn⟩ := all_of_dropWhile hrest
  obtain ⟨htake, -⟩ := span_of_all hds hn r
  obtain ⟨htake', hdrop'⟩ := span_of_all hds hn r'
  rw [htake] at hl
  rw [blanks, htake', hdrop', hl]

theorem local_word (c : Char) : Local (word c) := by
  intro l ds n r h r'
  obtain ⟨hl, hrest⟩ := Prod.mk.inj h
  obtain ⟨hds, hn⟩ := all_of_dropWhile hrest
  obtain ⟨htake, -⟩ := span_of_all hds hn r
  obtain ⟨htake', hdrop'⟩ := span_of_all hds hn r'
  simp only [htake] at hl
  simp only [word, htake', hdrop', hl]

theorem local_carriageReturn : Local carriageReturn := by
  intro l ds n r h r'
  by_cases hhead : (ds ++ n :: r).head? = some '\n'
  · obtain ⟨cs, hcs⟩ := List.head?_eq_some_iff.1 hhead
    rw [hcs] at h
    obtain ⟨rfl, rfl⟩ := Prod.mk.inj h
    -- the line feed is taken, and it alone
    obtain rfl : ds = ['\n'] := List.append_cancel_right hcs
    rfl
  · rw [carriageReturn_of_ne hhead] at h
    obtain ⟨rfl, hrest⟩ := Prod.mk.inj h
    obtain rfl : ds = [] := List.append_left_eq_self.1 hrest
    exact carriageReturn_of_ne hhead

/-! Comments. -/

theorem closeBracket_text_ne_nil (level : Nat) (state : Option Nat) (c : Char) (cs : List Char) :
    (closeBracket level state (c :: cs)).text ≠ [] := by
  unfold closeBracket
  split
  · split <;> simp
  split <;> simp

theorem closeBracket_local {level : Nat} {state : Option Nat} {ds : List Char} {n : Char}
    {r : List Char} (h : (closeBracket level state (ds ++ n :: r)).rest = n :: r)
    (r' : List Char) :
    closeBracket level state (ds ++ n :: r') =
      { closeBracket level state (ds ++ n :: r) with rest := n :: r' } := by
  induction ds generalizing state with
  | nil =>
    have happend := closeBracket_append level state (n :: r)
    rw [List.nil_append] at h
    rw [h] at happend
    exact absurd (List.append_left_eq_self.1 happend) (closeBracket_text_ne_nil level state n r)
  | cons d ds ih =>
    simp only [List.cons_append, closeBracket] at h ⊢
    by_cases hclose : d = ']'
    · simp only [if_pos hclose] at h ⊢
      by_cases hstate : state = some level
      · simp only [if_pos hstate] at h ⊢
        obtain rfl : ds = [] := List.append_left_eq_self.1 h
        rfl
      · simp only [if_neg hstate] at h ⊢
        rw [ih h]
        rfl
    by_cases heq : d = '='
    · simp only [if_neg hclose, if_pos heq] at h ⊢
      rw [ih h]
      rfl
    · simp only [if_neg hclose, if_neg heq] at h ⊢
      rw [ih h]
      rfl

theorem longBracket?_openBracket (level : Nat) (body : List Char) :
    longBracket? (openBracket level ++ body) = some (level, body) := by
  have hall : ∀ d ∈ List.replicate level '=', (d == '=') = true := by
    intro d hd
    rw [List.eq_of_mem_replicate hd]
    rfl
  obtain ⟨htake, hdrop⟩ := span_of_all (n := '[') hall (by decide) body
  simp [openBracket, longBracket?, htake, hdrop]

theorem isLineEnd_of_mem_openBracket {level : Nat} {c : Char} (h : c ∈ openBracket level) :
    isLineEnd c = false := by
  simp only [openBracket, List.cons_append, List.mem_cons, List.mem_append, List.mem_replicate,
    List.not_mem_nil, or_false] at h
  rcases h with rfl | ⟨-, rfl⟩ | rfl <;> rfl

theorem longBracket?_eq_none_of_lineEnd {ds : List Char} {n : Char} {r : List Char}
    (h : longBracket? (ds ++ n :: r) = none) (hn : isLineEnd n = true) (r' : List Char) :
    longBracket? (ds ++ n :: r') = none := by
  rcases hbracket : longBracket? (ds ++ n :: r') with _ | ⟨level, body⟩
  · rfl
  have hopen := openBracket_append hbracket
  rcases List.append_eq_append_iff.1 hopen with ⟨es, rfl, -⟩ | ⟨es, hes, hcons⟩
  · rw [List.append_assoc, longBracket?_openBracket] at h
    cases h
  · cases es with
    | nil =>
      rw [List.append_nil] at hes
      rw [← hes, longBracket?_openBracket] at h
      cases h
    | cons e es =>
      have hmem : n ∈ openBracket level := by
        rw [hes, (List.cons.inj hcons).1]
        simp
      rw [isLineEnd_of_mem_openBracket hmem] at hn
      cases hn

theorem commentTail_local {ds : List Char} {n : Char} {r : List Char}
    (h : (commentTail (ds ++ n :: r)).rest = n :: r) (r' : List Char) :
    commentTail (ds ++ n :: r') = { commentTail (ds ++ n :: r) with rest := n :: r' } := by
  rcases hbracket : longBracket? (ds ++ n :: r) with _ | ⟨level, body⟩
  · simp only [commentTail, hbracket] at h ⊢
    obtain ⟨hds, hn⟩ := all_of_dropWhile h
    obtain ⟨htake, -⟩ := span_of_all hds hn r
    obtain ⟨htake', hdrop'⟩ := span_of_all hds hn r'
    rw [longBracket?_eq_none_of_lineEnd hbracket (by simpa using hn) r']
    simp only [htake, htake', hdrop']
  · simp only [commentTail, hbracket] at h ⊢
    have hopen := openBracket_append hbracket
    -- the bracket closes before `n`, so it opens before `n` as well
    obtain ⟨es, rfl⟩ : ∃ es, body = es ++ n :: r :=
      ⟨_, by rw [← h]; exact (closeBracket_append level none body).symm⟩
    rw [← List.append_assoc] at hopen
    obtain rfl := List.append_cancel_right hopen
    rw [List.append_assoc, longBracket?_openBracket]
    simp only [closeBracket_local h r']
    rfl

theorem local_comment : Local comment := by
  intro l ds n r h r'
  obtain ⟨hl, hrest⟩ := Prod.mk.inj h
  simp only [comment, commentTail_local hrest r', hl]

/-! Strings, numerals and symbols. -/

section Quoted

variable {quote c : Char} (cs : List Char)

theorem length_stringTail_rest_le (quote : Char) :
    (stringTail quote cs).rest.length ≤ cs.length := by
  have happend := congrArg List.length (stringTail_append quote cs)
  rw [List.length_append] at happend
  omega

theorem length_stringTail_rest_lt (quote : Char) (hline : ¬(c = '\n' ∨ c = '\r')) :
    (stringTail quote (c :: cs)).rest.length < (c :: cs).length := by
  by_cases hescape : c = '\\'
  · cases cs with
    | nil => simp [stringTail, hescape]
    | cons d ds =>
      rw [stringTail_of_escape ds hline hescape, Tail.push_rest]
      exact Nat.lt_of_le_of_lt (length_stringTail_rest_le ds quote)
        (Nat.lt_add_of_pos_right (Nat.succ_pos 1))
  by_cases hquote : c = quote
  · rw [stringTail_of_quote cs hline hescape hquote]
    exact Nat.lt_succ_self _
  · rw [stringTail_of_other cs hline hescape hquote, Tail.push_rest]
    exact Nat.lt_succ_of_le (length_stringTail_rest_le cs quote)

end Quoted

theorem stringTail_local {quote : Char} {ds : List Char} {n : Char} {r : List Char}
    (h : (stringTail quote (ds ++ n :: r)).rest = n :: r) (r' : List Char) :
    stringTail quote (ds ++ n :: r') =
      { stringTail quote (ds ++ n :: r) with rest := n :: r' } := by
  match ds with
  | [] =>
    by_cases hline : n = '\n' ∨ n = '\r'
    · rw [List.nil_append, List.nil_append, stringTail_of_lineEnd r' hline,
        stringTail_of_lineEnd r hline]
    · have hlt := length_stringTail_rest_lt r quote hline
      rw [List.nil_append] at h
      rw [h] at hlt
      exact absurd hlt (Nat.lt_irrefl _)
  | d :: ds =>
    rw [List.cons_append] at h ⊢
    rw [List.cons_append]
    by_cases hline : d = '\n' ∨ d = '\r'
    · rw [stringTail_of_lineEnd _ hline] at h
      have hlen := congrArg List.length h
      simp only [List.length_cons, List.length_append] at hlen
      omega
    by_cases hescape : d = '\\'
    · match ds with
      | [] =>
        rw [List.nil_append, stringTail_of_escape r hline hescape, Tail.push_rest] at h
        have hle := length_stringTail_rest_le r quote
        rw [h, List.length_cons] at hle
        omega
      | e :: ds =>
        rw [List.cons_append, stringTail_of_escape _ hline hescape, Tail.push_rest] at h
        rw [List.cons_append, List.cons_append, stringTail_of_escape _ hline hescape,
          stringTail_of_escape _ hline hescape, stringTail_local h r']
        rfl
    by_cases hquote : d = quote
    · rw [stringTail_of_quote _ hline hescape hquote] at h ⊢
      rw [stringTail_of_quote _ hline hescape hquote]
      obtain rfl : ds = [] := List.append_left_eq_self.1 h
      rfl
    · rw [stringTail_of_other _ hline hescape hquote] at h ⊢
      rw [stringTail_of_other _ hline hescape hquote, stringTail_local h r']
      rfl

theorem local_stringLiteral (quote : Char) : Local (stringLiteral quote) := by
  intro l ds n r h r'
  obtain ⟨hl, hrest⟩ := Prod.mk.inj h
  simp only [stringLiteral, stringTail_local hrest r', hl]

theorem numeralTail_local {hex : Bool} {last : Char} {ds : List Char} {n : Char} {r : List Char}
    (h : (numeralTail hex last (ds ++ n :: r)).2 = n :: r) (r' : List Char) :
    numeralTail hex last (ds ++ n :: r') =
      ((numeralTail hex last (ds ++ n :: r)).1, n :: r') := by
  induction ds generalizing last with
  | nil =>
    by_cases hn : extendsNumeral hex last n = true
    · simp only [List.nil_append, numeralTail, if_pos hn] at h
      have happend := congrArg List.length (numeralTail_append hex n r)
      rw [h, List.length_append, List.length_cons] at happend
      omega
    · simp only [List.nil_append, numeralTail, if_neg hn]
  | cons d ds ih =>
    by_cases hd : extendsNumeral hex last d = true
    · simp only [List.cons_append, numeralTail, if_pos hd] at h ⊢
      rw [ih h]
    · simp only [List.cons_append, numeralTail, if_neg hd] at h
      have hlen := congrArg List.length h
      simp only [List.length_cons, List.length_append] at hlen
      omega

theorem isHexLead_local (c : Char) (ds : List Char) (n : Char) (r r' : List Char) :
    isHexLead (c :: (ds ++ n :: r')) = isHexLead (c :: (ds ++ n :: r)) := by
  cases ds <;> (unfold isHexLead; split <;> simp_all)

theorem numeralRun_local {c : Char} {ds : List Char} {n : Char} {r : List Char}
    (h : (numeralRun c (ds ++ n :: r)).2 = n :: r) (r' : List Char) :
    numeralRun c (ds ++ n :: r') = ((numeralRun c (ds ++ n :: r)).1, n :: r') := by
  simp only [numeralRun] at h ⊢
  rw [isHexLead_local c ds n r r', numeralTail_local h r']

theorem local_numeral (c : Char) : Local (numeral c) := by
  intro l ds n r h r'
  obtain ⟨hl, hrest⟩ := Prod.mk.inj h
  simp only [numeral, numeralRun_local hrest r', hl]

theorem symbol?_local {c : Char} {k : Kind} {ds : List Char} {n : Char} {r : List Char}
    (h : symbol? (c :: (ds ++ n :: r)) = some (k, n :: r)) (r' : List Char) :
    symbol? (c :: (ds ++ n :: r')) = some (k, n :: r') := by
  generalize hcs : c :: (ds ++ n :: r) = cs at h
  rw [← List.cons_append] at hcs ⊢
  unfold symbol? at h
  split at h <;> simp only [Option.some.injEq, Prod.mk.injEq, reduceCtorEq] at h
  all_goals
    obtain ⟨rfl, rfl⟩ := h
    obtain ⟨rfl, hds⟩ := List.cons.inj hcs
    first
    | obtain rfl : ds = [] := List.append_left_eq_self.1 hds
    | obtain rfl : ds = [_] := List.append_cancel_right hds
    | obtain rfl : ds = [_, _] := List.append_cancel_right hds
    simp_all [symbol?]

theorem symbol?_eq_none_local {c : Char} {cs : List Char} (h : symbol? (c :: cs) = none)
    (cs' : List Char) : symbol? (c :: cs') = none := by
  unfold symbol? at h
  split at h <;> simp only [reduceCtorEq] at h
  unfold symbol?
  split
  all_goals first
    | rfl
    | rename_i hcs
      obtain ⟨rfl, -⟩ := List.cons.inj hcs
      exfalso
      solve_by_elim

theorem local_symbol (c : Char) : Local (symbol c) := by
  intro l ds n r h r'
  rcases hsymbol : symbol? (c :: (ds ++ n :: r)) with _ | ⟨k, rest⟩
  · simp only [symbol, hsymbol] at h
    obtain ⟨rfl, hrest⟩ := Prod.mk.inj h
    obtain rfl : ds = [] := List.append_left_eq_self.1 hrest
    simp only [symbol, symbol?_eq_none_local hsymbol]
    rfl
  · simp only [symbol, hsymbol] at h
    obtain ⟨rfl, rfl⟩ := Prod.mk.inj h
    simp only [symbol, symbol?_local hsymbol r']

/-- The first lexeme of a text depends on the character behind it, and on nothing further. -/
theorem local_first (c : Char) : Local (first c) := by
  intro l ds n r h r'
  have hhead : (ds ++ n :: r').head? = (ds ++ n :: r).head? := by
    cases ds <;> rfl
  unfold first at h ⊢
  rw [hhead]
  by_cases hblank : isBlank c = true
  · rw [if_pos hblank] at h ⊢
    exact local_blanks c h r'
  rw [if_neg hblank] at h ⊢
  by_cases hfeed : c = '\n'
  · rw [if_pos hfeed] at h ⊢
    obtain ⟨rfl, hrest⟩ := Prod.mk.inj h
    obtain rfl : ds = [] := List.append_left_eq_self.1 hrest
    rfl
  rw [if_neg hfeed] at h ⊢
  by_cases hreturn : c = '\r'
  · rw [if_pos hreturn] at h ⊢
    exact local_carriageReturn h r'
  rw [if_neg hreturn] at h ⊢
  by_cases hdashes : c = '-' ∧ (ds ++ n :: r).head? = some '-'
  · rw [if_pos hdashes] at h ⊢
    cases ds with
    | nil =>
      -- a comment leaves less than what follows its dashes
      have happend := congrArg List.length (comment_append r)
      have hrest : (comment r).2 = n :: r := (Prod.mk.inj h).2
      rw [hrest, List.length_append] at happend
      simp only [comment, List.length_cons] at happend
      omega
    | cons d ds => exact local_comment h r'
  rw [if_neg hdashes] at h ⊢
  by_cases hquote : c = '"' ∨ c = '\x27'
  · rw [if_pos hquote] at h ⊢
    exact local_stringLiteral c h r'
  rw [if_neg hquote] at h ⊢
  by_cases hdigit : Text.isDigit c = true
  · rw [if_pos hdigit] at h ⊢
    exact local_numeral c h r'
  rw [if_neg hdigit] at h ⊢
  by_cases hword : isWordStart c = true
  · rw [if_pos hword] at h ⊢
    exact local_word c h r'
  rw [if_neg hword] at h ⊢
  exact local_symbol c h r'

theorem ofWord_ne_newline (w : String) : Kind.ofWord w ≠ .newline := by
  have h := Kind.ofWord_mem w
  revert h
  generalize Kind.ofWord w = k
  cases k <;> decide

theorem first_of_newline {c : Char} {cs : List Char} (h : (first c cs).1.kind = some .newline) :
    c = '\n' ∨ c = '\r' := by
  by_cases hfeed : c = '\n'
  · exact .inl hfeed
  by_cases hreturn : c = '\r'
  · exact .inr hreturn
  exfalso
  revert h
  unfold first blanks comment stringLiteral numeral word symbol
  rw [if_neg hfeed, if_neg hreturn]
  split
  · simp
  split
  · simp only
    split <;> simp
  split
  · simp only [Option.some.injEq]
    split <;> simp
  split
  · simp only [Option.some.injEq]
    split <;> simp
  split
  · simp [ofWord_ne_newline]
  split
  · next hsymbol =>
    have hk := mem_symbols_of_symbol? hsymbol
    rintro ⟨⟩
    exact absurd hk (by decide)
  · simp

end Lexeme

open Lexeme

theorem lexemes_eq_cons {cs : List Char} {l : Lexeme} {ls : List Lexeme}
    (h : lexemes cs = l :: ls) :
    ∃ c ds, cs = c :: ds ∧ first c ds = (l, (first c ds).2) ∧ lexemes (first c ds).2 = ls := by
  cases cs with
  | nil => simp at h
  | cons c ds =>
    rw [lexemes_cons] at h
    obtain ⟨rfl, hls⟩ := List.cons.inj h
    exact ⟨c, ds, rfl, rfl, hls⟩

theorem lexemes_text_append {l : Lexeme} {cs : List Char} {ls : List Lexeme}
    (h : lexemes (l.text ++ cs) = l :: ls) :
    ∃ c ds, l.text = c :: ds ∧ first c (ds ++ cs) = (l, cs) ∧ lexemes cs = ls := by
  obtain ⟨c, ds, hcs, hfirst, hls⟩ := lexemes_eq_cons h
  have happend := first_append c ds
  rw [hfirst, ← hcs] at happend
  have hrest := List.append_cancel_left happend
  have hne := first_text_ne_nil c ds
  rw [hfirst] at hne
  obtain ⟨d, es, htext⟩ := List.exists_cons_of_ne_nil hne
  rw [htext] at hcs
  obtain ⟨rfl, rfl⟩ := List.cons.inj hcs
  rw [hrest] at hfirst hls
  exact ⟨d, es, htext, hfirst, hls⟩

def LineEnded (ls : List Lexeme) : Prop := ls.getLast?.bind Lexeme.kind = some .newline

/-- The text continues a line end at the end of the lexemes: they end with a carriage return and
it starts with a line feed. -/
def Continues (ls : List Lexeme) (cs : List Char) : Prop :=
  (ls.getLast?.map Lexeme.text) = some ['\r'] ∧ cs.head? = some '\n'

theorem lexemes_newline {l : Lexeme} {cs : List Char} {ls : List Lexeme}
    (h : lexemes (l.text ++ cs) = l :: ls) (hl : l.kind = some .newline) {ds : List Char}
    (hds : ¬Continues [l] ds) : lexemes (l.text ++ ds) = l :: lexemes ds := by
  obtain ⟨c, es, htext, hfirst, -⟩ := lexemes_text_append h
  have hnewline : (first c (es ++ cs)).1.kind = some .newline := by rwa [hfirst]
  rw [htext]
  rcases first_of_newline hnewline with rfl | rfl
  · obtain ⟨rfl, hcs⟩ := Prod.mk.inj hfirst
    obtain rfl : es = [] := List.append_left_eq_self.1 hcs
    exact lexemes_cons _ _
  · change carriageReturn (es ++ cs) = (l, cs) at hfirst
    by_cases hhead : (es ++ cs).head? = some '\n'
    · obtain ⟨cs', hcs'⟩ := List.head?_eq_some_iff.1 hhead
      rw [hcs'] at hfirst
      obtain ⟨rfl, rfl⟩ := Prod.mk.inj hfirst
      obtain rfl : es = ['\n'] := List.append_cancel_right hcs'
      exact lexemes_cons _ _
    · rw [carriageReturn_of_ne hhead] at hfirst
      obtain ⟨rfl, hcs⟩ := Prod.mk.inj hfirst
      obtain rfl : es = [] := List.append_left_eq_self.1 hcs
      have hne : ds.head? ≠ some '\n' := fun hd => hds ⟨rfl, hd⟩
      have hcut : first '\r' ds = _ := carriageReturn_of_ne hne
      rw [List.cons_append, List.nil_append, lexemes_cons, hcut]

theorem lexemes_behind {front back : List Lexeme} {cs : List Char}
    (h : lexemes (front.flatMap Lexeme.text ++ cs) = front ++ back) : lexemes cs = back := by
  induction front with
  | nil => exact h
  | cons l front ih =>
    rw [List.flatMap_cons, List.append_assoc] at h
    obtain ⟨-, -, -, -, hrest⟩ := lexemes_text_append h
    exact ih hrest

theorem lexemes_before {front back : List Lexeme} {n : Char} {r : List Char}
    (h : lexemes (front.flatMap Lexeme.text ++ n :: r) = front ++ back) (r' : List Char) :
    lexemes (front.flatMap Lexeme.text ++ n :: r') = front ++ lexemes (n :: r') := by
  induction front with
  | nil => rfl
  | cons l front ih =>
    rw [List.flatMap_cons, List.append_assoc] at h ⊢
    obtain ⟨c, es, htext, hfirst, hrest⟩ := lexemes_text_append h
    have hmore := ih hrest
    -- both texts go on with the same character
    obtain ⟨k, fs, fs', hfs, hfs'⟩ : ∃ k fs fs', front.flatMap Lexeme.text ++ n :: r = k :: fs ∧
        front.flatMap Lexeme.text ++ n :: r' = k :: fs' := by
      cases hfront : front.flatMap Lexeme.text with
      | nil => exact ⟨n, r, r', rfl, rfl⟩
      | cons k gs => exact ⟨k, _, _, rfl, rfl⟩
    rw [hfs] at hfirst
    rw [hfs'] at hmore ⊢
    rw [htext, List.cons_append, lexemes_cons, local_first c hfirst fs', hmore]
    rfl

/-- Lexemes up to a line end are cut off in the same way before any text that does not continue
the line end. -/
theorem lexemes_front {front : List Lexeme} (hend : LineEnded front) {cs : List Char}
    {back : List Lexeme} (h : lexemes (front.flatMap Lexeme.text ++ cs) = front ++ back)
    {ds : List Char} (hds : ¬Continues front ds) :
    lexemes (front.flatMap Lexeme.text ++ ds) = front ++ lexemes ds := by
  obtain ⟨l, hlast, hl⟩ := Option.bind_eq_some_iff.1 hend
  obtain ⟨front, rfl⟩ := List.getLast?_eq_some_iff.1 hlast
  have hends : ¬Continues [l] ds := by
    simpa [Continues] using hds
  simp only [List.flatMap_append, List.flatMap_singleton, List.append_assoc,
    List.singleton_append] at h ⊢
  have hlast := lexemes_behind h
  obtain ⟨c, es, htext, -, -⟩ := lexemes_text_append hlast
  rw [← lexemes_newline hlast hl hends, htext, List.cons_append]
  rw [htext, List.cons_append] at h
  exact lexemes_before h (es ++ ds)

theorem lexemes_append {cs : List Char} (hend : LineEnded (lexemes cs)) {ds : List Char}
    (hds : ¬Continues (lexemes cs) ds) : lexemes (cs ++ ds) = lexemes cs ++ lexemes ds := by
  have htext := flatMap_text_lexemes cs
  have hself : lexemes ((lexemes cs).flatMap Lexeme.text ++ []) = lexemes cs ++ [] := by
    rw [htext, List.append_nil, List.append_nil]
  have hfront := lexemes_front hend hself hds
  rwa [htext] at hfront

/-! The shape of line ends. -/

theorem exists_first_of_mem {cs : List Char} {l : Lexeme} (h : l ∈ lexemes cs) :
    ∃ c ds, l = (first c ds).1 := by
  fun_induction lexemes cs with
  | case1 => cases h
  | case2 c cs cut ih =>
    rcases List.mem_cons.1 h with rfl | h
    · exact ⟨c, cs, rfl⟩
    · exact ih h

theorem text_of_newline {cs : List Char} {l : Lexeme} (h : l ∈ lexemes cs)
    (hl : l.kind = some .newline) :
    l.text = ['\n'] ∨ l.text = ['\r'] ∨ l.text = ['\r', '\n'] := by
  obtain ⟨c, ds, rfl⟩ := exists_first_of_mem h
  rcases first_of_newline hl with rfl | rfl
  · exact .inl rfl
  · change (carriageReturn ds).1.text = _ ∨ (carriageReturn ds).1.text = _ ∨
      (carriageReturn ds).1.text = _
    unfold carriageReturn
    split
    · exact .inr (.inr rfl)
    · exact .inr (.inl rfl)

theorem closeBracket_getLast? {level : Nat} {state : Option Nat} {cs : List Char}
    (h : (closeBracket level state cs).closed = true) :
    (closeBracket level state cs).text.getLast? = some ']' := by
  fun_induction closeBracket level state cs <;> simp_all [List.getLast?_cons]

theorem commentTail_getLast? {cs : List Char} (h : (commentTail cs).closed = true) :
    (commentTail cs).text.getLast? ≠ some '\n' := by
  rcases hbracket : longBracket? cs with _ | ⟨level, body⟩
  · simp only [commentTail, hbracket]
    intro hlast
    have hall := List.all_takeWhile (p := (!isLineEnd ·)) (l := cs)
    exact absurd (List.all_eq_true.1 hall _ (List.mem_of_getLast? hlast)) (by decide)
  · simp only [commentTail, hbracket, Tail.push_closed] at h
    simp [commentTail, hbracket, List.getLast?_append, closeBracket_getLast? h]

theorem getLast?_of_kind_none {c : Char} {cs : List Char} (h : (first c cs).1.kind = none) :
    (first c cs).1.text.getLast? ≠ some '\n' := by
  revert h
  unfold first carriageReturn stringLiteral numeral word symbol
  split
  · next hblank =>
    rintro - hlast
    have hall := List.all_takeWhile (p := isBlank) (l := cs)
    rcases List.mem_cons.1 (List.mem_of_getLast? hlast) with rfl | hmem
    · exact absurd hblank (by decide)
    · exact absurd (List.all_eq_true.1 hall _ hmem) (by decide)
  split
  · intro h
    cases h
  split
  · split <;> (intro h; cases h)
  split
  · intro h
    have hclosed : (commentTail cs.tail).closed = true := by
      simp only [comment] at h
      split at h
      · assumption
      · cases h
    have htail := commentTail_getLast? hclosed
    simp only [comment, List.getLast?_cons]
    cases hlast : (commentTail cs.tail).text.getLast? with
    | none => simp
    | some d => simpa [hlast] using htail
  split
  · intro h
    cases h
  split
  · intro h
    cases h
  split
  · intro h
    cases h
  split <;> (intro h; cases h)

end LuaSyntax
