import LuaSyntax.Proofs.Spelling
import LuaSyntax.Proofs.Tiling

/-! The texts that tokens can have. Reserved words and symbols have one spelling each, and a token
is cut off in the same way before any character that can be part of no token. -/

namespace LuaSyntax

theorem Kind.text_ofWord {w : String} (h : ofWord w ≠ .identifier) : (ofWord w).text = w := by
  unfold ofWord at h ⊢
  cases hfind : keywords.find? (·.text == w) with
  | none => simp [hfind] at h
  | some k =>
    have hk := List.find?_some hfind
    simpa using hk

def Token.Spelled (t : Token) : Prop :=
  t.kind ∈ Kind.keywords ++ Kind.symbols → t.value = t.kind.text

def isBreak (c : Char) : Bool := c == ' ' || c == '\n' || c == ',' || c == '[' || c == ']'

def Breaks (r : List Char) : Prop := ∀ c ∈ r.head?, isBreak c = true

theorem Breaks.head?_eq_none {r : List Char} (h : Breaks r) {p : Char → Bool}
    (hp : ∀ c, isBreak c = true → p c = false) : ∀ c ∈ r.head?, p c = false :=
  fun c hc => hp c (h c hc)

theorem forall_isBreak {P : Char → Prop} (hspace : P ' ') (hline : P '\n') (hcomma : P ',')
    (hopen : P '[') (hclose : P ']') : ∀ c, isBreak c = true → P c := by
  intro c hc
  simp only [isBreak, Bool.or_eq_true, beq_iff_eq] at hc
  rcases hc with (((rfl | rfl) | rfl) | rfl) | rfl
  · exact hspace
  · exact hline
  · exact hcomma
  · exact hopen
  · exact hclose

namespace Lexeme

theorem ne_of_mem_spelled {k : Kind} (h : k ∈ Kind.keywords ++ Kind.symbols) :
    k ≠ .string ∧ k ≠ .numeral ∧ k ≠ .identifier ∧ k ≠ .illegal ∧ k ≠ .newline := by
  revert h
  cases k <;> decide

theorem eq_illegal_of_comment {cs : List Char} {k : Kind} (h : (comment cs).1.kind = some k) :
    k = .illegal := by
  simp only [comment] at h
  split at h
  · cases h
  · exact (Option.some.inj h).symm

theorem text_of_first {c : Char} {cs : List Char} {k : Kind} (h : (first c cs).1.kind = some k)
    (hk : k ∈ Kind.keywords ++ Kind.symbols) : (first c cs).1.text = k.text.toList := by
  obtain ⟨hstring, hnumeral, hname, hillegal, hline⟩ := ne_of_mem_spelled hk
  have hform := form_first c cs
  generalize first c cs = cut at h hform ⊢
  cases hform with
  | blanks => cases h
  | lineFeed =>
    cases h
    exact absurd rfl hline
  | carriageReturn =>
    rw [carriageReturn_kind] at h
    exact absurd (Option.some.inj h).symm hline
  | comment => exact absurd (eq_illegal_of_comment h) hillegal
  | stringLiteral =>
    simp only [stringLiteral, Option.some.injEq] at h
    split at h <;> (subst h; contradiction)
  | numeral =>
    simp only [numeral, Option.some.injEq] at h
    split at h <;> (subst h; contradiction)
  | word =>
    cases h
    rw [Kind.text_ofWord hname, String.toList_ofList]
    rfl
  | symbol =>
    cases h
    rfl
  | unknown =>
    cases h
    exact absurd rfl hillegal

/-! Cutting a token off again, before a break. -/

theorem span_append {p : Char → Bool} {ds r : List Char} (hds : ∀ d ∈ ds, p d = true)
    (hr : ∀ c ∈ r.head?, p c = false) :
    (ds ++ r).takeWhile p = ds ∧ (ds ++ r).dropWhile p = r := by
  cases r with
  | nil =>
    rw [List.takeWhile_append_of_pos hds, List.dropWhile_append_of_pos hds]
    exact ⟨List.append_nil ds, rfl⟩
  | cons n r => exact span_of_all hds (hr n rfl) r

theorem stringTail_of_closed {quote : Char} {cs : List Char}
    (h : (stringTail quote cs).closed = true) (r : List Char) :
    stringTail quote ((stringTail quote cs).text ++ r) = ⟨(stringTail quote cs).text, true, r⟩ := by
  fun_induction stringTail quote cs with
  | case1 => cases h
  | case2 c cs hline => cases h
  | case3 hline => cases h
  | case4 d ds hline ih =>
    simp only [Tail.push_text, List.cons_append, List.nil_append]
    rw [stringTail_of_escape _ hline rfl, ih h]
    rfl
  | case5 cs hline hescape => exact stringTail_of_quote r hline hescape rfl
  | case6 c cs hline hescape hquote ih =>
    simp only [Tail.push_text, List.cons_append, List.nil_append]
    rw [stringTail_of_other _ hline hescape hquote, ih h]
    rfl

theorem extendsNumeral_of_isBreak (hex : Bool) (last : Char) :
    ∀ c, isBreak c = true → extendsNumeral hex last c = false := by
  cases hex with
  | false => exact forall_isBreak rfl rfl rfl rfl rfl
  | true => exact forall_isBreak rfl rfl rfl rfl rfl

theorem numeralTail_of_breaks (hex : Bool) (last : Char) {r : List Char} (hr : Breaks r) :
    numeralTail hex last r = ([], r) := by
  cases r with
  | nil => rfl
  | cons n r =>
    have hn := extendsNumeral_of_isBreak hex last n (hr n rfl)
    rw [numeralTail, if_neg (Bool.eq_false_iff.1 hn)]

theorem numeralTail_append_breaks (hex : Bool) (last : Char) (cs : List Char) {r : List Char}
    (hr : Breaks r) :
    numeralTail hex last ((numeralTail hex last cs).1 ++ r) =
      ((numeralTail hex last cs).1, r) := by
  induction cs generalizing last with
  | nil => exact numeralTail_of_breaks hex last hr
  | cons c cs ih =>
    by_cases hc : extendsNumeral hex last c = true
    · simp only [numeralTail, if_pos hc, List.cons_append, ih]
    · simp only [numeralTail, if_neg hc, List.nil_append]
      exact numeralTail_of_breaks hex last hr

theorem isHexLead_cons (c : Char) (cs : List Char) :
    isHexLead (c :: cs) = (decide (c = '0') && cs.head?.any isHexMark) := by
  unfold isHexLead
  split
  · next x ds h =>
    obtain ⟨rfl, rfl⟩ := List.cons.inj h
    simp
  · next hne =>
    cases cs with
    | nil => simp
    | cons x ds =>
      by_cases hc : c = '0'
      · subst hc
        exact absurd rfl (hne x ds)
      · simp [hc]

theorem any_isHexMark_of_breaks {r : List Char} (hr : Breaks r) :
    r.head?.any isHexMark = false := by
  cases r with
  | nil => rfl
  | cons n r =>
    have hmark : ∀ c, isBreak c = true → isHexMark c = false := forall_isBreak rfl rfl rfl rfl rfl
    exact hmark n (hr n rfl)

theorem extendsNumeral_of_isHexMark {hex : Bool} {last c : Char} (h : isHexMark c = true) :
    extendsNumeral hex last c = true := by
  simp only [isHexMark, Bool.or_eq_true, beq_iff_eq] at h
  rcases h with rfl | rfl <;> rfl

theorem isHexLead_numeralTail (hex : Bool) (c : Char) (cs : List Char) {r : List Char}
    (hr : Breaks r) :
    isHexLead (c :: ((numeralTail hex c cs).1 ++ r)) = isHexLead (c :: cs) := by
  rw [isHexLead_cons, isHexLead_cons]
  congr 1
  cases cs with
  | nil => exact any_isHexMark_of_breaks hr
  | cons d ds =>
    by_cases hd : extendsNumeral hex c d = true
    · simp only [numeralTail, if_pos hd, List.cons_append, List.head?_cons]
    · have hmark : isHexMark d = false :=
        Bool.eq_false_iff.2 fun hmark => hd (extendsNumeral_of_isHexMark hmark)
      simp only [numeralTail, if_neg hd, List.nil_append, any_isHexMark_of_breaks hr,
        List.head?_cons, Option.any_some, hmark]

theorem numeral_append_breaks (c : Char) (cs : List Char) :
    ∃ ds, (numeral c cs).1.text = c :: ds ∧
      ∀ r, Breaks r → numeral c (ds ++ r) = ((numeral c cs).1, r) := by
  refine ⟨(numeralTail (isHexLead (c :: cs)) c cs).1, rfl, fun r hr => ?_⟩
  have hrun : numeralRun c ((numeralTail (isHexLead (c :: cs)) c cs).1 ++ r) =
      ((numeralRun c cs).1, r) := by
    simp only [numeralRun, isHexLead_numeralTail _ c cs hr, numeralTail_append_breaks _ c cs hr]
  simp only [numeral, hrun]

theorem isWordPart_of_isBreak : ∀ c, isBreak c = true → isWordPart c = false :=
  forall_isBreak rfl rfl rfl rfl rfl

theorem word_append_breaks {c : Char} {ds : List Char} (hds : ∀ d ∈ ds, isWordPart d = true)
    {r : List Char} (hr : Breaks r) :
    word c (ds ++ r) = (⟨some (Kind.ofWord (String.ofList (c :: ds))), c :: ds⟩, r) := by
  obtain ⟨htake, hdrop⟩ := span_append hds (hr.head?_eq_none isWordPart_of_isBreak)
  simp only [word, htake, hdrop]

theorem first_of_quote {c : Char} (h : c = '"' ∨ c = '\x27') (cs : List Char) :
    first c cs = stringLiteral c cs := by
  rcases h with rfl | rfl <;> rfl

theorem first_of_isDigit {c : Char} (h : Text.isDigit c = true) (cs : List Char) :
    first c cs = numeral c cs := by
  have hne : ∀ d, Text.isDigit d = false → c ≠ d := by
    rintro d hd rfl
    rw [h] at hd
    cases hd
  have hblank : isBlank c = false := by
    simp [isBlank, hne ' ' rfl, hne '\t' rfl, hne '\x0b' rfl, hne '\x0c' rfl]
  simp [first, hblank, hne '\n' rfl, hne '\r' rfl, hne '-' rfl, hne '"' rfl, hne '\x27' rfl, h]

theorem stringLiteral_append_breaks {quote : Char} {cs : List Char} {k : Kind}
    (h : (stringLiteral quote cs).1.kind = some k) (hillegal : k ≠ .illegal) :
    ∃ ds, (stringLiteral quote cs).1.text = quote :: ds ∧
      ∀ r, stringLiteral quote (ds ++ r) = (⟨some k, quote :: ds⟩, r) := by
  simp only [stringLiteral, Option.some.injEq] at h
  split at h
  · next hclosed =>
    subst h
    refine ⟨(stringTail quote cs).text, rfl, fun r => ?_⟩
    simp only [stringLiteral, stringTail_of_closed hclosed r, if_true]
  · exact absurd h.symm hillegal

theorem first_of_mem_symbols {k : Kind} (hk : k ∈ Kind.symbols) {c : Char} {ds : List Char}
    (htext : k.text.toList = c :: ds) {r : List Char} (hr : Breaks r) :
    first c (ds ++ r) = (⟨some k, c :: ds⟩, r) := by
  obtain rfl : k.text.toList.headD ' ' = c := by rw [htext, List.headD_cons]
  obtain rfl : k.text.toList.tail = ds := by rw [htext, List.tail_cons]
  -- a break is decided on before the text behind it is looked at
  have hnil : first (k.text.toList.headD ' ') (k.text.toList.tail ++ []) =
      (⟨some k, k.text.toList.headD ' ' :: k.text.toList.tail⟩, []) := by
    cases k <;> first | exact absurd hk (by decide) | rfl
  have hcons : ∀ n, isBreak n = true → ∀ r,
      first (k.text.toList.headD ' ') (k.text.toList.tail ++ n :: r) =
        (⟨some k, k.text.toList.headD ' ' :: k.text.toList.tail⟩, n :: r) := by
    cases k <;> first
      | exact absurd hk (by decide)
      | exact forall_isBreak (fun _ => rfl) (fun _ => rfl) (fun _ => rfl) (fun _ => rfl)
          fun _ => rfl
  cases r with
  | nil => exact hnil
  | cons n r => exact hcons n (hr n rfl) r

/-- A token that is cut off a text is cut off in the same way before any break. -/
theorem first_append_breaks {c : Char} {cs : List Char} {k : Kind}
    (h : (first c cs).1.kind = some k) (hline : k ≠ .newline) (hillegal : k ≠ .illegal) :
    ∃ ds, (first c cs).1.text = c :: ds ∧
      ∀ r, Breaks r → first c (ds ++ r) = (⟨some k, c :: ds⟩, r) := by
  have hform := form_first c cs
  have happend := first_append c cs
  generalize first c cs = cut at h hform happend ⊢
  cases hform with
  | blanks => cases h
  | lineFeed =>
    cases h
    exact absurd rfl hline
  | carriageReturn =>
    rw [carriageReturn_kind] at h
    exact absurd (Option.some.inj h).symm hline
  | comment => exact absurd (eq_illegal_of_comment h) hillegal
  | stringLiteral hc =>
    obtain ⟨ds, htext, hcut⟩ := stringLiteral_append_breaks h hillegal
    exact ⟨ds, htext, fun r _ => (first_of_quote hc _).trans (hcut r)⟩
  | numeral hc =>
    obtain ⟨ds, htext, hcut⟩ := numeral_append_breaks c cs
    refine ⟨ds, htext, fun r hr => ?_⟩
    rw [first_of_isDigit hc, hcut r hr, ← h, ← htext]
  | word hc =>
    refine ⟨cs.takeWhile isWordPart, rfl, fun r hr => ?_⟩
    rw [Spelling.first_of_isWordStart hc,
      word_append_breaks (List.all_eq_true.1 List.all_takeWhile) hr, ← h]
    rfl
  | symbol hsymbol =>
    cases h
    obtain ⟨d, ds, hcons⟩ := List.exists_cons_of_ne_nil (text_toList_ne_nil k)
    simp only [hcons, List.cons_append] at happend
    obtain rfl := (List.cons.inj happend).1
    exact ⟨ds, hcons, fun r hr => first_of_mem_symbols (mem_symbols_of_symbol? hsymbol) hcons hr⟩
  | unknown =>
    cases h
    exact absurd rfl hillegal

end Lexeme

/-- The text of the token is cut off as that token wherever a break is behind it. -/
def Token.StandsAlone (t : Token) : Prop :=
  ∃ c ds, t.value.toList = c :: ds ∧
    ∀ r, Breaks r → Lexeme.first c (ds ++ r) = (⟨some t.kind, c :: ds⟩, r)

theorem standsAlone_of_isToken {t : Token} (h : Spelling.IsToken t.content)
    (hillegal : t.kind ≠ .illegal) : t.StandsAlone := by
  obtain ⟨hline, hlexemes⟩ := h
  obtain ⟨c, cs, -, hfirst, -⟩ := lexemes_eq_cons hlexemes
  have hkind : (Lexeme.first c cs).1.kind = some t.kind := by
    rw [hfirst]
    rfl
  obtain ⟨ds, htext, hcut⟩ := Lexeme.first_append_breaks hkind hline hillegal
  rw [hfirst] at htext
  exact ⟨c, ds, htext, hcut⟩

section

variable {source : String} {file : Option String} {t : Token} (h : t ∈ (scan source file).tokens)
include h

theorem spelled_of_token : t.Spelled := by
  intro hk
  obtain ⟨c, cs, hkind, htext⟩ := exists_first_of_token h
  obtain ⟨-, -, -, -, hline⟩ := Lexeme.ne_of_mem_spelled hk
  apply String.toList_injective
  rw [htext hline, Lexeme.text_of_first hkind hk]

theorem standsAlone_of_token (hline : t.kind ≠ .newline) (hillegal : t.kind ≠ .illegal) :
    t.StandsAlone := by
  obtain ⟨c, cs, hkind, htext⟩ := exists_first_of_token h
  obtain ⟨ds, hds, hcut⟩ := Lexeme.first_append_breaks hkind hline hillegal
  exact ⟨c, ds, (htext hline).trans hds, hcut⟩

end

end LuaSyntax
