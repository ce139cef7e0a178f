import Mathlib.Data.List.Induction
import Mathlib.Data.Nat.Digits.Defs
import LuaSyntax.Proofs.Coherence
import LuaSyntax.Proofs.NumeralGrammar
import LuaSyntax.Proofs.Window

/-! The values of numerals. Every numeral that is cut off from a source has a value, except
hexadecimal ones that do not fit 64 bits. An integer is exactly the number that its digits stand for
in their base, and every number that fits is read back from each of its spellings. -/

namespace LuaSyntax

namespace Text

def digitPlace (c : Char) : Nat := "0123456789abcdef".toList.idxOf c.toLower

/-- The number that digits stand for: the last one counts once, and any other one `base` times what
it would count one place further on. -/
def positional (base : Nat) (ds : List Char) : Nat := Nat.ofDigits base (ds.reverse.map digitPlace)

/-- The digits of `n` in the base, each letter in either case, behind any number of zeros. -/
def Writes (base n : Nat) (ds : List Char) : Prop :=
  ∃ k us, ds = List.replicate k '0' ++ us ∧ us.map Char.toLower = Nat.toDigits base n

theorem positional_concat (base : Nat) (ds : List Char) (d : Char) :
    positional base (ds ++ [d]) = positional base ds * base + digitPlace d := by
  rw [positional, List.reverse_concat, List.map_cons, Nat.ofDigits_cons, ← positional,
    Nat.add_comm, Nat.mul_comm]

theorem positional_zeros (base k : Nat) (ds : List Char) :
    positional base (List.replicate k '0' ++ ds) = positional base ds := by
  have hzero : digitPlace '0' = 0 := by decide
  rw [positional, List.reverse_append, List.reverse_replicate, List.map_append, List.map_replicate,
    hzero, Nat.ofDigits_append_replicate_zero, positional]

theorem isHexDigit_of_isDigit {c : Char} (h : isDigit c = true) : isHexDigit c = true := by
  simp [isHexDigit, h]

theorem of_toNat_lt {bound : Nat} {P : Char → Prop} (h : ∀ n < bound, P (Char.ofNat n)) {c : Char}
    (hc : c.toNat < bound) : P c := by
  have hP := h c.toNat hc
  rwa [Char.ofNat_toNat] at hP

theorem toNat_lt_of_isHexDigit {c : Char} (h : isHexDigit c = true) : c.toNat < 103 := by
  simp only [isHexDigit, isDigit, Bool.or_eq_true, Bool.and_eq_true, decide_eq_true_eq,
    Char.le_def, UInt32.le_iff_toNat_le, Char.reduceVal, UInt32.reduceToNat, Char.toNat_val] at h
  omega

theorem digitValue_eq_digitPlace {c : Char} (h : isHexDigit c = true) :
    digitValue c = digitPlace c := by
  refine of_toNat_lt (P := fun c => isHexDigit c = true → digitValue c = digitPlace c) ?_
    (toNat_lt_of_isHexDigit h) h
  decide +kernel

theorem ofDigits_eq_positional (base : Nat) {ds : List Char} (h : ∀ d ∈ ds, isHexDigit d = true) :
    ofDigits base ds = positional base ds := by
  induction ds using List.reverseRecOn with
  | nil => rfl
  | append_singleton ds d ih =>
    obtain ⟨hds, hd⟩ := List.forall_mem_append.1 h
    rw [ofDigits_append_singleton, positional_concat, ih hds,
      digitValue_eq_digitPlace (hd d (List.mem_singleton_self d))]

/-! Spellings of a number. -/

theorem digitPlace_of_toLower {u : Char} {m : Nat} (hm : m < 16)
    (h : u.toLower = Nat.digitChar m) : digitPlace u = m := by
  have hplaces : ∀ m < 16, "0123456789abcdef".toList.idxOf (Nat.digitChar m) = m := by decide
  rw [digitPlace, h, hplaces m hm]

theorem test_toLower {p : Char → Bool}
    (h : ∀ n < 91, p (Char.ofNat n).toLower = p (Char.ofNat n)) (c : Char) :
    p c.toLower = p c := by
  by_cases hcode : c.toNat < 91
  · exact of_toNat_lt (P := fun c => p c.toLower = p c) h hcode
  · have hlower : c.toLower = c := dif_neg fun hcapital => hcode (Nat.lt_succ_of_le hcapital.2)
    rw [hlower]

theorem exists_lt_of_mem_toDigits {base n : Nat} (hbase : 1 < base) {c : Char}
    (hc : c ∈ Nat.toDigits base n) : ∃ m < base, c = Nat.digitChar m := by
  induction n using Nat.strong_induction_on with
  | _ n ih =>
    rw [Nat.toDigits_eq_if hbase] at hc
    split at hc
    · next hn => exact ⟨n, hn, List.mem_singleton.1 hc⟩
    · next hn =>
      rcases List.mem_append.1 hc with hc | hc
      · exact ih (n / base) (Nat.div_lt_self (by omega) hbase) hc
      · exact ⟨n % base, Nat.mod_lt n (by omega), List.mem_singleton.1 hc⟩

theorem positional_of_toDigits {base n : Nat} (hbase : 1 < base) (hle : base ≤ 16)
    {us : List Char} (h : us.map Char.toLower = Nat.toDigits base n) : positional base us = n := by
  -- the last digit comes off the end of both
  induction n using Nat.strong_induction_on generalizing us with
  | _ n ih =>
    rw [Nat.toDigits_eq_if hbase] at h
    split at h
    · next hn =>
      obtain ⟨u, rfl, hu⟩ := List.map_eq_singleton_iff.1 h
      have hone := positional_concat base [] u
      rw [List.nil_append] at hone
      rw [hone, digitPlace_of_toLower (by omega) hu]
      simp [positional]
    · next hn =>
      obtain ⟨vs, ws, rfl, hvs, hws⟩ := List.map_eq_append_iff.1 h
      obtain ⟨u, rfl, hu⟩ := List.map_eq_singleton_iff.1 hws
      have hlast : n % base < base := Nat.mod_lt n (by omega)
      rw [positional_concat, ih (n / base) (Nat.div_lt_self (by omega) hbase) hvs,
        digitPlace_of_toLower (by omega) hu, Nat.div_add_mod']

section

variable {base n : Nat} {ds : List Char} (h : Writes base n ds)
include h

theorem Writes.ne_nil : ds ≠ [] := by
  obtain ⟨k, us, rfl, hus⟩ := h
  intro hnil
  obtain ⟨-, rfl⟩ := List.append_eq_nil_iff.1 hnil
  exact Nat.toDigits_ne_nil hus.symm

theorem Writes.positional_eq (hbase : 1 < base) (hle : base ≤ 16) : positional base ds = n := by
  obtain ⟨k, us, rfl, hus⟩ := h
  rw [positional_zeros, positional_of_toDigits hbase hle hus]

theorem Writes.forall_mem (hbase : 1 < base) {p : Char → Bool} (hcase : ∀ c, p c.toLower = p c)
    (hp : ∀ m < base, p (Nat.digitChar m) = true) : ∀ d ∈ ds, p d = true := by
  obtain ⟨k, us, rfl, hus⟩ := h
  refine List.forall_mem_append.2 ⟨fun d hd => ?_, fun d hd => ?_⟩
  · rw [List.eq_of_mem_replicate hd]
    exact hp 0 (by omega)
  · have hmem : d.toLower ∈ Nat.toDigits base n := hus ▸ List.mem_map_of_mem hd
    obtain ⟨m, hm, hlower⟩ := exists_lt_of_mem_toDigits hbase hmem
    rw [← hcase d, hlower]
    exact hp m hm

end

theorem Writes.isDigit {n : Nat} {ds : List Char} (h : Writes 10 n ds) :
    ∀ d ∈ ds, isDigit d = true :=
  h.forall_mem (by decide) (test_toLower (by decide)) (by decide)

theorem Writes.isHexDigit {n : Nat} {ds : List Char} (h : Writes 16 n ds) :
    ∀ d ∈ ds, isHexDigit d = true :=
  h.forall_mem (by decide) (test_toLower (by decide)) (by decide)

end Text

open Text

namespace Lexeme

/-! Texts of numerals. -/

def IsHex (w ds : List Char) : Prop := w = '0' :: 'x' :: ds ∨ w = '0' :: 'X' :: ds

def IsInteger (w : List Char) : Prop := (∀ d ∈ w, isDigit d = true) ∧ positional 10 w < 2 ^ 63

/-- The text is `n` written in base ten, or `0x` or `0X` and `n` written in base sixteen. -/
inductive SpellsNat (n : Nat) : List Char → Prop
  | decimal {ds} (h : Writes 10 n ds) : SpellsNat n ds
  | hex {w ds} (hw : IsHex w ds) (h : Writes 16 n ds) : SpellsNat n w

theorem DecimalNumeral.not_isHexLead {w : List Char} (h : DecimalNumeral w) :
    ¬isHexLead w = true := by
  intro hlead
  have hdecimal := isDecimalNumeral_iff.2 h
  rcases isHexLead_iff.1 hlead with ⟨ds, rfl⟩ | ⟨ds, rfl⟩ <;> cases hdecimal

theorem HexNumeral.exists_isHex {w : List Char} (h : HexNumeral w) : ∃ ds, IsHex w ds := by
  obtain ⟨rfl | rfl, hne, hds⟩ := h
  · exact ⟨_, .inl rfl⟩
  · exact ⟨_, .inr rfl⟩

theorem IsHex.isHexLead {w ds : List Char} (h : IsHex w ds) : isHexLead w = true := by
  rcases h with rfl | rfl <;> rfl

theorem IsHex.hexNumeral {w ds : List Char} (h : IsHex w ds) (hw : Numeral w) : HexNumeral w := by
  rcases hw with hex | decimal
  · exact hex
  · exact absurd h.isHexLead decimal.not_isHexLead

theorem Numeral.exists_cons {w : List Char} (h : Numeral w) :
    ∃ c cs, w = c :: cs ∧ isDigit c = true := by
  rcases h with hex | decimal
  · obtain ⟨hx, hne, hds⟩ := hex
    exact ⟨_, _, rfl, rfl⟩
  · obtain ⟨hne, hds, hfs, hes⟩ := decimal
    obtain ⟨d, ds, rfl⟩ := List.exists_cons_of_ne_nil hne
    exact ⟨d, _, rfl, hds d List.mem_cons_self⟩

theorem decimalNumeral_of_digits {w : List Char} (hne : w ≠ [])
    (h : ∀ d ∈ w, isDigit d = true) : DecimalNumeral w := by
  simpa using DecimalNumeral.mk hne h .none .none

theorem DecimalNumeral.forall_isDigit {w : List Char} (h : DecimalNumeral w)
    (hmarks : ¬(w.any fun c => c == '.' || isExponentMark c) = true) :
    ∀ d ∈ w, isDigit d = true := by
  rw [Bool.not_eq_true, List.any_eq_false] at hmarks
  obtain @⟨ds, fs, es, hne, hds, hfs, hes⟩ := h
  cases hfs with
  | dot => exact absurd rfl (hmarks '.' (by simp))
  | none =>
    cases hes with
    | none => simpa using hds
    | @plain e es he | @signed e s es he =>
      have hmark : isExponentMark e = true := isExponentMark_iff.2 he
      exact absurd (by simp [hmark]) (hmarks e (by simp))

theorem not_any_of_digits {w : List Char} (h : ∀ d ∈ w, isDigit d = true) :
    ¬(w.any fun c => c == '.' || isExponentMark c) = true := by
  rw [Bool.not_eq_true, List.any_eq_false]
  intro c hc hmark
  have hdigit := h c hc
  simp only [Bool.or_eq_true, beq_iff_eq, isExponentMark_iff] at hmark
  rcases hmark with rfl | rfl | rfl <;> cases hdigit

theorem SpellsNat.numeral {n : Nat} {w : List Char} (h : SpellsNat n w) : Numeral w := by
  cases h with
  | decimal h => exact .inr (decimalNumeral_of_digits h.ne_nil h.isDigit)
  | hex hw h =>
    rcases hw with rfl | rfl
    · exact .inl (.mk (.inl rfl) h.ne_nil h.isHexDigit)
    · exact .inl (.mk (.inr rfl) h.ne_nil h.isHexDigit)

end Lexeme

open Lexeme

/-! Values of texts. -/

namespace Number

theorem fit?_of_lt {m : Nat} (h : m < 2 ^ 63) : ∃ v, fit? m = some v ∧ v.toInt = m := by
  have hfit : fit? m = some (Int64.ofNat m) := if_pos h
  exact ⟨_, hfit, toInt_of_fit? hfit⟩

theorem fit?_of_le {m : Nat} (h : 2 ^ 63 ≤ m) : fit? m = none := if_neg (Nat.not_lt.2 h)

theorem ofText?_of_hex {w ds : List Char} (h : IsHex w ds) (hw : Numeral w) :
    ofText? w = (fit? (positional 16 ds)).map .integer := by
  obtain ⟨hlead, hdigits⟩ := Bool.and_eq_true_iff.1 (isHexNumeral_iff.2 (h.hexNumeral hw))
  have hdrop : w.drop 2 = ds := by rcases h with rfl | rfl <;> rfl
  rw [hdrop] at hdigits
  rw [ofText?, if_pos hlead, hdrop, hexInteger?, if_pos hdigits,
    ofDigits_eq_positional 16 (isHexDigits_iff.1 hdigits).2]

theorem exists_exponent? {cs : List Char} (h : isExponentPart cs = true) :
    ∃ e, exponent? cs = some e := by
  rw [exponent?, if_pos h]
  split <;> exact ⟨_, rfl⟩

theorem exists_decimal? {w : List Char} (h : DecimalNumeral w) : ∃ x, decimal? w = some x := by
  obtain ⟨hne, htail⟩ := Bool.and_eq_true_iff.1 (isDecimalNumeral_iff.2 h)
  have hwhole : (w.takeWhile isDigit).isEmpty = false := by simpa using hne
  unfold isDecimalTail at htail
  unfold decimal?
  split at htail
  · next ds heq =>
    obtain ⟨e, he⟩ := exists_exponent? htail
    simp [heq, hwhole, he]
  · next hdot =>
    obtain ⟨e, he⟩ := exists_exponent? htail
    simp [hwhole, he]

theorem decimalInteger?_of_digits {w : List Char} (hne : w ≠ [])
    (h : ∀ d ∈ w, isDigit d = true) : decimalInteger? w = fit? (positional 10 w) := by
  rw [decimalInteger?, if_pos (isDigits_iff.2 ⟨hne, h⟩),
    ofDigits_eq_positional 10 fun d hd => isHexDigit_of_isDigit (h d hd)]

theorem ofText?_of_digits {w : List Char} (hne : w ≠ []) (h : ∀ d ∈ w, isDigit d = true)
    {v : Int64} (hv : fit? (positional 10 w) = some v) : ofText? w = some (.integer v) := by
  have hlead := (decimalNumeral_of_digits hne h).not_isHexLead
  rw [ofText?, if_neg hlead, if_neg (not_any_of_digits h), decimalInteger?_of_digits hne h, hv]
  rfl

theorem ofText?_of_decimal {w : List Char} (h : DecimalNumeral w) (hw : ¬IsInteger w) :
    ∃ x, ofText? w = some (.float x) := by
  obtain ⟨x, hx⟩ := exists_decimal? h
  refine ⟨x, ?_⟩
  rw [ofText?, if_neg h.not_isHexLead, hx]
  split
  · rfl
  · next hmarks =>
    have hdigits := h.forall_isDigit hmarks
    obtain ⟨c, cs, hcons, -⟩ := Numeral.exists_cons (.inr h)
    have hle : 2 ^ 63 ≤ positional 10 w := Nat.not_lt.1 fun hlt => hw ⟨hdigits, hlt⟩
    rw [decimalInteger?_of_digits (by simp [hcons]) hdigits, fit?_of_le hle]
    rfl

end Number

/-! Numerals of a source. -/

theorem Lexeme.numeral_of_first {c : Char} {cs : List Char}
    (h : (first c cs).1.kind = some .numeral) : Numeral (first c cs).1.text := by
  have hform := form_first c cs
  generalize first c cs = cut at h hform ⊢
  cases hform with
  | numeral =>
    simp only [numeral, Option.some.injEq] at h
    split at h
    · next hnumeral => exact isNumeral_iff.1 hnumeral
    · cases h
  | carriageReturn =>
    rw [carriageReturn_kind] at h
    cases h
  | comment => cases eq_illegal_of_comment h
  | stringLiteral =>
    simp only [stringLiteral, Option.some.injEq] at h
    split at h <;> cases h
  | word =>
    have hmem := Kind.ofWord_mem (String.ofList (c :: cs.takeWhile isWordPart))
    rw [Option.some.inj h] at hmem
    exact absurd hmem (by decide)
  | symbol hsymbol =>
    cases h
    exact absurd (mem_symbols_of_symbol? hsymbol) (by decide)
  | blanks | lineFeed | unknown => cases h

theorem numeral_of_token {source : String} {file : Option String} {t : Token}
    (ht : t ∈ tokenize source file) (hk : t.kind = .numeral) : Numeral t.value.toList := by
  rcases List.mem_append.1 ht with hscan | hstop
  · obtain ⟨c, cs, hkind, htext⟩ := exists_first_of_token hscan
    rw [htext (by rw [hk]; decide)]
    rw [hk] at hkind
    exact numeral_of_first hkind
  · cases List.mem_singleton.1 hstop
    cases hk

theorem tokenize_numeral {w : List Char} (h : Numeral w) (file : Option String) :
    ∃ t stop, tokenize (String.ofList w) file = [t, .eof stop] ∧ t.kind = .numeral ∧
      t.value = String.ofList w := by
  obtain ⟨c, cs, rfl, hc⟩ := h.exists_cons
  have hstarts : StartsNumeral (c :: cs) (c :: cs) := ⟨[], by simp, h, nofun⟩
  obtain ⟨hrun, hnumeral⟩ := (startsNumeral_iff hc cs).1 hstarts
  have hrest : (numeralRun c cs).2 = [] := by
    have happend := numeralRun_append c cs
    rwa [← hrun, List.append_right_eq_self] at happend
  have hcut : first c cs = (⟨some .numeral, c :: cs⟩, []) := by
    rw [first_of_isDigit hc, numeral, if_pos hnumeral, hrest, ← hrun]
  rw [tokenize, scan, scanChars, String.toList_ofList, lexemes_cons, hcut, lexemes_nil]
  exact ⟨_, _, rfl, rfl, rfl⟩

/-! Reading the numeral that a parser stands on. -/

namespace Parser

variable {p : Parser}

def ReadsInteger (p : Parser) (n : Nat) : Prop :=
  ∃ v : Int64, v.toInt = n ∧ p.literal Expr.ofNumeral = (some (.integer p.current v), p)

def ReadsFloat (p : Parser) : Prop :=
  ∃ x : Double, p.literal Expr.ofNumeral = (some (.float p.current x), p)

def RejectsNumeral (p : Parser) : Prop :=
  p.literal Expr.ofNumeral = (none, p.reportCurrent (.numeral p.current.value))

/-- The numeral that the parser stands on is read with its exact value. -/
structure ReadsExactly (p : Parser) : Prop where
  hex : ∀ ds, IsHex p.current.value.toList ds → positional 16 ds < 2 ^ 63 →
    p.ReadsInteger (positional 16 ds)
  overflow : ∀ ds, IsHex p.current.value.toList ds → 2 ^ 63 ≤ positional 16 ds → p.RejectsNumeral
  decimal : IsInteger p.current.value.toList →
    p.ReadsInteger (positional 10 p.current.value.toList)
  float : (∀ ds, ¬IsHex p.current.value.toList ds) → ¬IsInteger p.current.value.toList →
    p.ReadsFloat
  rejected : (p.literal Expr.ofNumeral).1 = none ↔
    ∃ ds, IsHex p.current.value.toList ds ∧ 2 ^ 63 ≤ positional 16 ds

theorem ReadsInteger.ne_none {n : Nat} (h : p.ReadsInteger n) :
    (p.literal Expr.ofNumeral).1 ≠ none := by
  obtain ⟨v, -, hread⟩ := h
  rw [hread]
  nofun

theorem ReadsFloat.ne_none (h : p.ReadsFloat) : (p.literal Expr.ofNumeral).1 ≠ none := by
  obtain ⟨x, hread⟩ := h
  rw [hread]
  nofun

section

variable (ht : p.current.kind = .numeral)
include ht

theorem literal_ofNumeral :
    p.literal Expr.ofNumeral = match Number.ofText? p.current.value.toList with
      | some (.integer v) => (some (.integer p.current v), p)
      | some (.float x) => (some (.float p.current x), p)
      | none => (none, p.reportCurrent (.numeral p.current.value)) := by
  obtain ⟨t, us, htokens, -⟩ := tokens_of_current ht (by decide)
  have hkeep : p.keepLast (us.length + 1) = p := by
    rw [keepLast_append (htokens.trans (List.nil_append _).symm), ← htokens]
  rw [literal, Expr.ofNumeral, htokens, List.tail_cons]
  rcases Number.ofText? p.current.value.toList with _ | v | x <;>
    simp only [Attempt.ofToken, settle, List.length_cons, hkeep, reportCurrent]

theorem readsInteger_of_ofText? {m : Nat} (hm : m < 2 ^ 63)
    (h : ∀ v, Number.fit? m = some v →
      Number.ofText? p.current.value.toList = some (.integer v)) : p.ReadsInteger m := by
  obtain ⟨v, hfit, hv⟩ := Number.fit?_of_lt hm
  refine ⟨v, hv, ?_⟩
  rw [literal_ofNumeral ht, h v hfit]

theorem readsInteger_of_hex {ds : List Char} (hw : IsHex p.current.value.toList ds)
    (hnumeral : Numeral p.current.value.toList) (hlt : positional 16 ds < 2 ^ 63) :
    p.ReadsInteger (positional 16 ds) := by
  refine readsInteger_of_ofText? ht hlt fun v hv => ?_
  rw [Number.ofText?_of_hex hw hnumeral, hv, Option.map_some]

theorem rejectsNumeral_of_hex {ds : List Char} (hw : IsHex p.current.value.toList ds)
    (hnumeral : Numeral p.current.value.toList) (hle : 2 ^ 63 ≤ positional 16 ds) :
    p.RejectsNumeral := by
  rw [RejectsNumeral, literal_ofNumeral ht, Number.ofText?_of_hex hw hnumeral,
    Number.fit?_of_le hle, Option.map_none]

theorem readsInteger_of_isInteger (hw : IsInteger p.current.value.toList)
    (hnumeral : Numeral p.current.value.toList) :
    p.ReadsInteger (positional 10 p.current.value.toList) := by
  refine readsInteger_of_ofText? ht hw.2 fun v hv => ?_
  obtain ⟨c, cs, hcons, -⟩ := hnumeral.exists_cons
  exact Number.ofText?_of_digits (by simp [hcons]) hw.1 hv

theorem readsFloat_of_decimal (hw : DecimalNumeral p.current.value.toList)
    (hinteger : ¬IsInteger p.current.value.toList) : p.ReadsFloat := by
  obtain ⟨x, hx⟩ := Number.ofText?_of_decimal hw hinteger
  refine ⟨x, ?_⟩
  rw [literal_ofNumeral ht, hx]

theorem readsExactly (hnumeral : Numeral p.current.value.toList) : p.ReadsExactly where
  hex _ hw hlt := readsInteger_of_hex ht hw hnumeral hlt
  overflow _ hw hle := rejectsNumeral_of_hex ht hw hnumeral hle
  decimal hw := readsInteger_of_isInteger ht hw hnumeral
  float hw hinteger := by
    rcases hnumeral with hex | decimal
    · obtain ⟨ds, hds⟩ := hex.exists_isHex
      exact absurd hds (hw ds)
    · exact readsFloat_of_decimal ht decimal hinteger
  rejected := by
    constructor
    · intro hnone
      rcases hnumeral with hex | decimal
      · obtain ⟨ds, hds⟩ := hex.exists_isHex
        refine ⟨ds, hds, Nat.not_lt.1 fun hlt => ?_⟩
        exact (readsInteger_of_hex ht hds (.inl hex) hlt).ne_none hnone
      · -- a decimal numeral always has a value
        by_cases hinteger : IsInteger p.current.value.toList
        · exact absurd hnone (readsInteger_of_isInteger ht hinteger (.inr decimal)).ne_none
        · exact absurd hnone (readsFloat_of_decimal ht decimal hinteger).ne_none
    · rintro ⟨ds, hds, hle⟩
      rw [rejectsNumeral_of_hex ht hds hnumeral hle]

theorem readsInteger_of_spellsNat {n : Nat} (hn : n < 2 ^ 63)
    (h : SpellsNat n p.current.value.toList) : p.ReadsInteger n := by
  have hexact := readsExactly ht h.numeral
  cases h with
  | decimal h =>
    have hvalue := h.positional_eq (by decide) (by decide)
    have hread := hexact.decimal ⟨h.isDigit, by rwa [hvalue]⟩
    rwa [hvalue] at hread
  | hex hw h =>
    have hvalue := h.positional_eq (by decide) (by decide)
    have hread := hexact.hex _ hw (by rwa [hvalue])
    rwa [hvalue] at hread

end

end Parser

/-- Every numeral of a source has its exact value, whatever parser stands on it. Only hexadecimal
ones that do not fit 64 bits have none. And each number that fits is read from all its spellings,
in base ten and in base sixteen, every one of which is a numeral. -/
theorem numeral_read_exactly :
    (∀ source file, ∀ t ∈ tokenize source file, t.kind = .numeral →
      ∀ p : Parser, p.current = t → p.ReadsExactly) ∧
    ∀ n < 2 ^ 63, ∀ w, SpellsNat n w → ∀ file, ∃ t stop,
      tokenize (String.ofList w) file = [t, .eof stop] ∧ t.kind = .numeral ∧
        ∀ p : Parser, p.current = t → p.ReadsInteger n := by
  constructor
  · rintro source file _ ht hk p rfl
    exact Parser.readsExactly hk (numeral_of_token ht hk)
  · intro n hn w hw file
    obtain ⟨t, stop, htokens, hk, hvalue⟩ := tokenize_numeral hw.numeral file
    refine ⟨t, stop, htokens, hk, ?_⟩
    rintro p rfl
    refine Parser.readsInteger_of_spellsNat hk hn ?_
    rwa [hvalue, String.toList_ofList]

theorem numeral_read_exactly_limits :
    (Parser.ofText "0x7fffFFFFffffFFFF" none).ReadsInteger (2 ^ 63 - 1) ∧
      (Parser.ofText "0X8000000000000000" none).RejectsNumeral ∧
      (Parser.ofText "9223372036854775807" none).ReadsInteger (2 ^ 63 - 1) ∧
      (Parser.ofText "9223372036854775808" none).ReadsFloat ∧
      ∃ t stop, tokenize "0x00fF" none = [t, .eof stop] ∧ t.kind = .numeral ∧
        ∀ p : Parser, p.current = t → p.ReadsInteger 255 := by
  have hexact (source : String)
      (hmem : (Parser.ofText source none).current ∈ tokenize source none)
      (hkind : (Parser.ofText source none).current.kind = .numeral) :
      (Parser.ofText source none).ReadsExactly :=
    numeral_read_exactly.1 source none _ hmem hkind _ rfl
  refine ⟨?_, ?_, ?_, ?_, ?_⟩
  · have hvalue : positional 16 "7fffFFFFffffFFFF".toList = 2 ^ 63 - 1 := by decide +kernel
    have hread := (hexact "0x7fffFFFFffffFFFF" (by decide +kernel) (by decide +kernel)).hex
      "7fffFFFFffffFFFF".toList (.inl (by decide +kernel)) (by decide +kernel)
    rwa [hvalue] at hread
  · exact (hexact "0X8000000000000000" (by decide +kernel) (by decide +kernel)).overflow
      "8000000000000000".toList (.inr (by decide +kernel)) (by decide +kernel)
  · have htext : (Parser.ofText "9223372036854775807" none).current.value =
        "9223372036854775807" := by decide +kernel
    have hvalue : positional 10 "9223372036854775807".toList = 2 ^ 63 - 1 := by decide +kernel
    have hread := (hexact "9223372036854775807" (by decide +kernel) (by decide +kernel)).decimal
    rw [htext, hvalue] at hread
    exact hread ⟨List.all_eq_true.1 (by decide +kernel), by decide +kernel⟩
  · have htext : (Parser.ofText "9223372036854775808" none).current.value =
        "9223372036854775808" := by decide +kernel
    have hread := (hexact "9223372036854775808" (by decide +kernel) (by decide +kernel)).float
    rw [htext] at hread
    refine hread ?_ fun hinteger => absurd hinteger.2 (by decide +kernel)
    rintro ds (h | h) <;> cases h
  · have hspells : SpellsNat 255 "0x00fF".toList :=
      .hex (.inl rfl) ⟨2, "fF".toList, rfl, by decide⟩
    exact numeral_read_exactly.2 255 (by decide) _ hspells none

end LuaSyntax
