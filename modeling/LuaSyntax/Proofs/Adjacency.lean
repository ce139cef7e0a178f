import LuaSyntax.Proofs.NumeralValue
import LuaSyntax.Proofs.Places
import LuaSyntax.Proofs.Sentence

/-! Tokens that touch. A token that starts with a digit goes on through all letters, digits and dots
behind it, so a word that starts with a letter is never cut off from a numeral in front of it. An
underscore is not taken, and there the two come apart. -/

namespace LuaSyntax

open Text Lexeme

def Token.StartsDigit (t : Token) : Prop := ∃ d ∈ t.value.toList.head?, isDigit d = true

namespace Lexeme

theorem head?_text_first (c : Char) (cs : List Char) : (first c cs).1.text.head? = some c := by
  have hhead := congrArg List.head? (first_append c cs)
  rwa [List.head?_append_of_ne_nil _ (first_text_ne_nil c cs)] at hhead

end Lexeme

namespace Token

variable {source : List Char} {t u : Token} {i j k : Nat}

theorem CutAt.getElem?_of_head? (h : t.CutAt source i j) {c : Char}
    (hc : c ∈ t.value.toList.head?) : source[i]? = some c ∧ t.kind ≠ .newline := by
  obtain ⟨d, ds, hdrop, -, htoken, -⟩ := h
  have hvalue : t.value = if t.kind = .newline then "" else String.ofList (first d ds).1.text :=
    (congrArg Token.value htoken).symm
  by_cases hline : t.kind = .newline
  · rw [hvalue, if_pos hline] at hc
    cases hc
  · rw [hvalue, if_neg hline, String.toList_ofList, head?_text_first] at hc
    cases hc
    rw [← List.head?_drop, hdrop]
    exact ⟨rfl, hline⟩

/-- A token that starts with a digit is a numeral or illegal, by its text, and what follows is not
taken into a numeral. -/
theorem CutAt.of_startsDigit (h : t.CutAt source i j) (ht : t.StartsDigit) :
    t.kind = (if isNumeral t.value.toList then .numeral else .illegal) ∧
      ∀ c ∈ source[j]?, ¬InNumeral c := by
  obtain ⟨d, hd, hdigit⟩ := ht
  obtain ⟨hhead, hline⟩ := h.getElem?_of_head? hd
  obtain ⟨c, cs, hdrop, hkind, htoken, hrest⟩ := h
  have hc : c = d := by
    rw [← List.head?_drop, hdrop] at hhead
    exact Option.some.inj hhead
  subst hc
  have hvalue : t.value = if t.kind = .newline then "" else String.ofList (first c cs).1.text :=
    (congrArg Token.value htoken).symm
  rw [first_of_isDigit hdigit] at hkind hrest hvalue
  constructor
  · rw [hvalue, if_neg hline, String.toList_ofList]
    exact (Option.some.inj hkind).symm
  · rw [← List.head?_drop, ← hrest]
    exact not_inNumeral_behind hdigit cs

theorem CutAt.not_inNumeral (ht : t.CutAt source i j) (hdigit : t.StartsDigit)
    (hu : u.CutAt source j k) : ∀ c ∈ u.value.toList.head?, ¬InNumeral c := by
  intro c hc
  exact (ht.of_startsDigit hdigit).2 c (hu.getElem?_of_head? hc).1

end Token

section

variable {source : String} {file : Option String} {t : Token}

theorem kind_of_startsDigit (h : t ∈ (scan source file).tokens) (ht : t.StartsDigit) :
    t.kind = if isNumeral t.value.toList then .numeral else .illegal := by
  obtain ⟨i, j, -, -, hcut⟩ := (tiled_cutAt source file).exists_at h
  exact (hcut.of_startsDigit ht).1

theorem kind_eq_numeral_iff (h : t ∈ (scan source file).tokens) :
    t.kind = .numeral ↔ t.StartsDigit ∧ Numeral t.value.toList := by
  constructor
  · intro hk
    have hnumeral := numeral_of_token (List.mem_append_left _ h) hk
    obtain ⟨c, cs, hcons, hc⟩ := hnumeral.exists_cons
    exact ⟨⟨c, by rw [hcons]; rfl, hc⟩, hnumeral⟩
  · rintro ⟨hdigit, hnumeral⟩
    rw [kind_of_startsDigit h hdigit, if_pos (isNumeral_iff.2 hnumeral)]

theorem diagnostics_ne_nil_of_illegal (h : t ∈ (scan source file).tokens)
    (hk : t.kind = .illegal) : (parse source file).diagnostics ≠ [] := by
  intro hclean
  have hread := (Parsed.sentence_of_clean _ _ hclean).isUnread t h
  rw [hk] at hread
  cases hread

end

/-- Where places are not counted past the size of a word, spans that touch leave nothing between
them. -/
theorem Token.Lies.eq_of_touch {source : String} {file : Option String} {t u : Token}
    {i j i' j' : Nat} (ht : t.Lies source.toList (file.getD defaultName) i j)
    (hu : u.Lies source.toList (file.getD defaultName) i' j')
    (hsize : source.length < UInt32.size - 1) (htouch : t.span.stop = u.span.start) : i' = j := by
  have hstop := (ht.spans hsize).2.key_eq
  have hstart := (hu.spans hsize).1.key_eq
  rw [htouch, hstart] at hstop
  exact (strictMono_place source.toList).injective hstop

/-- The tokens of a source that start with a digit are its numerals, and illegal text, which is
reported. A token behind one of them with no character between does not start with a letter, a digit
or a dot. -/
theorem digits_apart (source : String) (file : Option String) :
    (∀ t ∈ (tokenize source file).dropLast,
      (t.kind = .numeral ↔ t.StartsDigit ∧ Numeral t.value.toList) ∧
        (t.StartsDigit → t.kind ≠ .numeral →
          t.kind = .illegal ∧ (parse source file).diagnostics ≠ [])) ∧
      ∀ ts t u us, (tokenize source file).dropLast = ts ++ t :: u :: us →
        ∃ i j i' j', t.Lies source.toList (file.getD defaultName) i j ∧
          u.Lies source.toList (file.getD defaultName) i' j' ∧ j ≤ i' ∧
          (source.length < UInt32.size - 1 → t.span.stop = u.span.start → i' = j) ∧
          (t.StartsDigit → i' = j → ∀ c ∈ u.value.toList.head?, ¬InNumeral c) := by
  rw [dropLast_tokenize]
  constructor
  · intro t ht
    refine ⟨kind_eq_numeral_iff ht, fun hdigit hk => ?_⟩
    have hkind := kind_of_startsDigit ht hdigit
    split at hkind
    · exact absurd hkind hk
    · exact ⟨hkind, diagnostics_ne_nil_of_illegal ht hkind⟩
  · intro ts t u us htokens
    have hpairs := (tiled_cutAt source file).pairwise
    rw [htokens, List.pairwise_append] at hpairs
    obtain ⟨i, j, ht, i', j', hu, hle⟩ :=
      (List.pairwise_cons.1 hpairs.2.1).1 u List.mem_cons_self
    refine ⟨i, j, i', j', ht.1, hu.1, hle, ht.1.eq_of_touch hu.1, ?_⟩
    rintro hdigit rfl
    exact ht.2.not_inNumeral hdigit hu.2

/-- An underscore behind a digit parts the two, and both are read, each as a statement. -/
theorem tokenize_underscore :
    (tokenize "1_x" none).map Token.content =
        [(.numeral, "1"), (.identifier, "_x"), (.endOfInput, "EOF")] ∧
      (tokenize "1_x" none).map (fun t => (t.span.start.column, t.span.stop.column)) =
        [(1, 2), (2, 4), (4, 4)] ∧
      (parse "1_x" none).diagnostics = [] ∧ (parse "1_x" none).program.length = 2 := by
  decide +kernel

end LuaSyntax
