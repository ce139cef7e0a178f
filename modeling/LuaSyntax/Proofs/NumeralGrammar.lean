import LuaSyntax.Proofs.Lexicon

/-! The grammar of numerals, and that exactly its texts are cut off as numerals. A run of characters
is taken first and judged afterwards; the run is the longest text of its kind, so it neither stops
short of a numeral that could be read there nor goes past one. -/

namespace LuaSyntax

open Text

namespace Lexeme

inductive HexNumeral : List Char → Prop
  | mk {x ds} (hx : x = 'x' ∨ x = 'X') (hne : ds ≠ []) (hds : ∀ d ∈ ds, isHexDigit d = true) :
      HexNumeral ('0' :: x :: ds)

inductive Fraction : List Char → Prop
  | none : Fraction []
  | dot {ds} (hds : ∀ d ∈ ds, isDigit d = true) : Fraction ('.' :: ds)

inductive Exponent : List Char → Prop
  | none : Exponent []
  | plain {e ds} (he : e = 'e' ∨ e = 'E') (hne : ds ≠ []) (hds : ∀ d ∈ ds, isDigit d = true) :
      Exponent (e :: ds)
  | signed {e s ds} (he : e = 'e' ∨ e = 'E') (hs : s = '+' ∨ s = '-') (hne : ds ≠ [])
      (hds : ∀ d ∈ ds, isDigit d = true) : Exponent (e :: s :: ds)

inductive DecimalNumeral : List Char → Prop
  | mk {ds fs es} (hne : ds ≠ []) (hds : ∀ d ∈ ds, isDigit d = true) (hfs : Fraction fs)
      (hes : Exponent es) : DecimalNumeral (ds ++ (fs ++ es))

def Numeral (w : List Char) : Prop := HexNumeral w ∨ DecimalNumeral w

def InNumeral (c : Char) : Prop := isLetter c = true ∨ isDigit c = true ∨ c = '.'

/-- The text starts with the numeral `w`, and what follows that is not taken into it. -/
def StartsNumeral (w text : List Char) : Prop :=
  ∃ rest, text = w ++ rest ∧ Numeral w ∧ ∀ c ∈ rest.head?, ¬InNumeral c

/-- Behind the text `v` the character is taken into a numeral. A sign is, right behind an `e` or
`E`, unless the text starts with `0x` or `0X`. -/
def Takes (v : List Char) (c : Char) : Prop :=
  InNumeral c ∨ (c = '+' ∨ c = '-') ∧ (v.getLast? = some 'e' ∨ v.getLast? = some 'E') ∧
    ¬(['0', 'x'] <+: v ∨ ['0', 'X'] <+: v)

def Taken (w : List Char) : Prop := ∀ v c, v ++ [c] <+: w → Takes v c

/-- The text starts with `w`, which is the longest such start with the property. -/
structure Longest (P : List Char → Prop) (w text : List Char) : Prop where
  starts : w <+: text
  holds : P w
  longest : ∀ v, v <+: text → P v → v <+: w

theorem Longest.unique {P : List Char → Prop} {v w text : List Char} (hv : Longest P v text)
    (hw : Longest P w text) : v = w := by
  have hvw := hw.longest v hv.starts hv.holds
  have hwv := hv.longest w hw.starts hw.holds
  exact hvw.eq_of_length_le hwv.length_le

/-! Texts that are taken. -/

theorem taken_nil : Taken [] := by
  intro v c h
  simp at h

theorem Taken.concat {v : List Char} {c : Char} (hv : Taken v) (hc : Takes v c) :
    Taken (v ++ [c]) := by
  intro u d hu
  rcases List.prefix_concat_iff.1 hu with heq | hstart
  · obtain ⟨rfl, hd⟩ := List.append_inj' heq rfl
    cases hd
    exact hc
  · exact hv u d hstart

theorem Taken.append {v us : List Char} (hv : Taken v) (hus : ∀ c ∈ us, InNumeral c) :
    Taken (v ++ us) := by
  induction us generalizing v with
  | nil => rwa [List.append_nil]
  | cons c us ih =>
    obtain ⟨hc, hus⟩ := List.forall_mem_cons.1 hus
    rw [List.append_cons]
    exact ih (hv.concat (.inl hc)) hus

theorem longest_of_stops {w rest : List Char} (hw : Taken w)
    (hstops : ∀ c ∈ rest.head?, ¬Takes w c) : Longest Taken w (w ++ rest) := by
  refine ⟨List.prefix_append w rest, hw, fun v hv htaken => ?_⟩
  rcases List.prefix_or_prefix_of_prefix hv (List.prefix_append w rest) with hvw | ⟨us, rfl⟩
  · exact hvw
  · cases us with
    | nil => simp
    | cons c us =>
      -- the next character would have been taken
      have hrest := (List.prefix_append_right_inj w).1 hv
      obtain ⟨vs, rfl⟩ := hrest
      exact absurd (htaken w c (by simp)) (hstops c rfl)

/-! The run that is cut off. -/

theorem isHexLead_iff {v : List Char} :
    isHexLead v = true ↔ ['0', 'x'] <+: v ∨ ['0', 'X'] <+: v := by
  cases v with
  | nil => simp [isHexLead]
  | cons c cs =>
    rw [isHexLead_cons]
    cases cs with
    | nil => simp
    | cons x cs => simp [isHexMark, and_or_left, @eq_comm _ '0', @eq_comm _ 'x', @eq_comm _ 'X']

theorem isExponentMark_iff {e : Char} : isExponentMark e = true ↔ e = 'e' ∨ e = 'E' := by
  simp [isExponentMark]

theorem isSign_iff {s : Char} : isSign s = true ↔ s = '+' ∨ s = '-' := by
  simp [isSign]

theorem not_isDigit_of_mark {e : Char} (h : e = 'e' ∨ e = 'E') : isDigit e = false := by
  rcases h with rfl | rfl <;> rfl

/-- Whether a run goes on is decided by its text so far: it starts with a digit, so where a sign may
follow it has its first two characters. -/
theorem extendsNumeral_iff {v : List Char} {d last : Char} (hhead : v.head? = some d)
    (hd : isDigit d = true) (hlast : v.getLast? = some last) (c : Char) (cs : List Char) :
    extendsNumeral (isHexLead (v ++ cs)) last c = true ↔ Takes v c := by
  have hlead : isExponentMark last = true → isHexLead (v ++ cs) = isHexLead v := by
    intro hmark
    match v, hhead with
    | [_], rfl =>
      obtain rfl : d = last := by simpa using hlast
      rw [not_isDigit_of_mark (isExponentMark_iff.1 hmark)] at hd
      cases hd
    | _ :: x :: us, rfl => simp [isHexLead_cons]
  have hmark : isExponentMark last = true ↔ v.getLast? = some 'e' ∨ v.getLast? = some 'E' := by
    rw [isExponentMark_iff, hlast, Option.some.injEq, Option.some.injEq]
  rw [Takes, InNumeral, ← isHexLead_iff, ← hmark, ← isSign_iff]
  simp only [extendsNumeral, Bool.or_eq_true, Bool.and_eq_true, beq_iff_eq, or_assoc]
  by_cases h : isExponentMark last = true
  · simp [h, hlead h, and_comm]
  · simp [h]

theorem numeralTail_taken {v : List Char} {d last : Char} (hhead : v.head? = some d)
    (hd : isDigit d = true) (hlast : v.getLast? = some last) (hv : Taken v) (cs : List Char) :
    Taken (v ++ (numeralTail (isHexLead (v ++ cs)) last cs).1) ∧
      ∀ c ∈ (numeralTail (isHexLead (v ++ cs)) last cs).2.head?,
        ¬Takes (v ++ (numeralTail (isHexLead (v ++ cs)) last cs).1) c := by
  induction cs generalizing v last with
  | nil =>
    rw [numeralTail, List.append_nil]
    exact ⟨hv, by rintro _ ⟨⟩⟩
  | cons c cs ih =>
    have htakes := extendsNumeral_iff hhead hd hlast c (c :: cs)
    rw [numeralTail]
    split
    · next hc =>
      have hhead' : (v ++ [c]).head? = some d := by simp [hhead]
      have hlast' : (v ++ [c]).getLast? = some c := by simp
      have hmore := ih hhead' hlast' (hv.concat (htakes.1 hc))
      rw [← List.append_cons] at hmore
      simpa using hmore
    · next hc =>
      rw [List.append_nil]
      refine ⟨hv, ?_⟩
      rintro _ ⟨⟩
      exact fun h => hc (htakes.2 h)

theorem longest_numeralRun {c : Char} (hc : isDigit c = true) (cs : List Char) :
    Longest Taken (numeralRun c cs).1 (c :: cs) := by
  have hfirst : Taken [c] := taken_nil.concat (.inl (.inr (.inl hc)))
  obtain ⟨htaken, hstops⟩ := numeralTail_taken rfl hc rfl hfirst cs
  have hlongest := longest_of_stops htaken hstops
  rw [List.append_assoc, numeralTail_append] at hlongest
  exact hlongest

/-! Numerals are such runs. -/

theorem inNumeral_of_isDigit {c : Char} (h : isDigit c = true) : InNumeral c := .inr (.inl h)

theorem inNumeral_of_isHexDigit {c : Char} (h : isHexDigit c = true) : InNumeral c := by
  simp only [isHexDigit, Bool.or_eq_true, Bool.and_eq_true, decide_eq_true_eq] at h
  rcases h with (h | ⟨ha, hf⟩) | ⟨ha, hf⟩
  · exact inNumeral_of_isDigit h
  · have hz : c ≤ 'z' := Char.le_trans hf (by decide)
    exact .inl (by simp [isLetter, ha, hz])
  · have hz : c ≤ 'Z' := Char.le_trans hf (by decide)
    exact .inl (by simp [isLetter, ha, hz])

theorem inNumeral_of_mark {e : Char} (h : e = 'e' ∨ e = 'E') : InNumeral e := by
  rcases h with rfl | rfl <;> exact .inl rfl

theorem HexNumeral.longest {w rest : List Char} (hw : HexNumeral w)
    (hrest : ∀ c ∈ rest.head?, ¬InNumeral c) : Longest Taken w (w ++ rest) := by
  obtain ⟨hx, hne, hds⟩ := hw
  apply longest_of_stops
  · refine taken_nil.append ?_
    rw [List.forall_mem_cons, List.forall_mem_cons]
    refine ⟨.inr (.inl rfl), ?_, fun d hd => inNumeral_of_isHexDigit (hds d hd)⟩
    rcases hx with rfl | rfl <;> exact .inl rfl
  · rintro c hc (htaken | ⟨-, -, hlead⟩)
    · exact hrest c hc htaken
    · apply hlead
      rcases hx with rfl | rfl
      · exact .inl (by simp)
      · exact .inr (by simp)

theorem Fraction.mem {fs : List Char} (h : Fraction fs) {c : Char} (hc : c ∈ fs) :
    isDigit c = true ∨ c = '.' := by
  cases h with
  | none => cases hc
  | dot hds =>
    rcases List.mem_cons.1 hc with rfl | hc
    · exact .inr rfl
    · exact .inl (hds c hc)

theorem not_hexLead {v : List Char} (h : ∀ c ∈ v, c ≠ 'x' ∧ c ≠ 'X') :
    ¬(['0', 'x'] <+: v ∨ ['0', 'X'] <+: v) := by
  rintro (hstart | hstart)
  · exact (h 'x' (hstart.subset (by simp))).1 rfl
  · exact (h 'X' (hstart.subset (by simp))).2 rfl

theorem DecimalNumeral.taken {w : List Char} (hw : DecimalNumeral w) : Taken w := by
  obtain @⟨ds, fs, es, hne, hds, hfs, hes⟩ := hw
  have hfront : ∀ c ∈ ds ++ fs, isDigit c = true ∨ c = '.' :=
    List.forall_mem_append.2 ⟨fun c hc => .inl (hds c hc), fun c hc => hfs.mem hc⟩
  have htaken : Taken (ds ++ fs) := taken_nil.append fun c hc => .inr (hfront c hc)
  rw [← List.append_assoc]
  cases hes with
  | none => rwa [List.append_nil]
  | @plain e es he hne' hes =>
    refine htaken.append (List.forall_mem_cons.2 ⟨inNumeral_of_mark he, fun c hc => ?_⟩)
    exact inNumeral_of_isDigit (hes c hc)
  | @signed e s es he hs hne' hes =>
    have hmark : Taken (ds ++ fs ++ [e]) := htaken.concat (.inl (inNumeral_of_mark he))
    have hsign : Takes (ds ++ fs ++ [e]) s := by
      refine .inr ⟨hs, by simpa using he, not_hexLead ?_⟩
      refine List.forall_mem_append.2 ⟨fun c hc => ?_, List.forall_mem_singleton.2 ?_⟩
      · rcases hfront c hc with hdigit | rfl
        · constructor <;> (rintro rfl; cases hdigit)
        · decide
      · rcases he with rfl | rfl <;> decide
    have hdigits := (hmark.concat hsign).append fun c hc => inNumeral_of_isDigit (hes c hc)
    simpa using hdigits

theorem mem_of_getLast?_append (us : List Char) {ds : List Char} {c : Char} (hne : ds ≠ [])
    (h : c ∈ (us ++ ds).getLast?) : c ∈ ds := by
  rw [List.getLast?_append, List.getLast?_eq_some_getLast hne, Option.some_or] at h
  cases h
  exact List.getLast_mem hne

theorem DecimalNumeral.of_getLast? {w : List Char} (hw : DecimalNumeral w) {c : Char}
    (hc : c ∈ w.getLast?) : isDigit c = true ∨ c = '.' := by
  obtain @⟨ds, fs, es, hne, hds, hfs, hes⟩ := hw
  cases hes with
  | none =>
    rw [List.append_nil] at hc
    rcases List.mem_append.1 (List.mem_of_getLast? hc) with hmem | hmem
    · exact .inl (hds c hmem)
    · exact hfs.mem hmem
  | @plain e es he hne' hes =>
    have hmem : c ∈ es := mem_of_getLast?_append (ds ++ (fs ++ [e])) hne' (by simpa using hc)
    exact .inl (hes c hmem)
  | @signed e s es he hs hne' hes =>
    have hmem : c ∈ es :=
      mem_of_getLast?_append (ds ++ (fs ++ [e, s])) hne' (by simpa using hc)
    exact .inl (hes c hmem)

theorem DecimalNumeral.longest {w rest : List Char} (hw : DecimalNumeral w)
    (hrest : ∀ c ∈ rest.head?, ¬InNumeral c) : Longest Taken w (w ++ rest) := by
  refine longest_of_stops hw.taken ?_
  rintro c hc (htaken | ⟨-, hmark | hmark, -⟩)
  · exact hrest c hc htaken
  · rcases hw.of_getLast? hmark with h | h <;> cases h
  · rcases hw.of_getLast? hmark with h | h <;> cases h

theorem StartsNumeral.longest {w text : List Char} (h : StartsNumeral w text) :
    Longest Taken w text := by
  obtain ⟨rest, rfl, hex | decimal, hrest⟩ := h
  · exact hex.longest hrest
  · exact decimal.longest hrest

/-! The test on runs is the grammar. -/

theorem isDigits_iff {ds : List Char} :
    isDigits ds = true ↔ ds ≠ [] ∧ ∀ d ∈ ds, isDigit d = true := by
  simp [isDigits]

theorem isHexDigits_iff {ds : List Char} :
    isHexDigits ds = true ↔ ds ≠ [] ∧ ∀ d ∈ ds, isHexDigit d = true := by
  simp [isHexDigits]

theorem isHexNumeral_iff {w : List Char} : isHexNumeral w = true ↔ HexNumeral w := by
  constructor
  · intro h
    obtain ⟨hlead, hdigits⟩ := Bool.and_eq_true_iff.1 h
    obtain ⟨hne, hds⟩ := isHexDigits_iff.1 hdigits
    rcases isHexLead_iff.1 hlead with ⟨ds, rfl⟩ | ⟨ds, rfl⟩
    · exact .mk (.inl rfl) hne hds
    · exact .mk (.inr rfl) hne hds
  · rintro ⟨hx, hne, hds⟩
    refine Bool.and_eq_true_iff.2 ⟨?_, isHexDigits_iff.2 ⟨hne, hds⟩⟩
    rcases hx with rfl | rfl <;> rfl

theorem not_isSign_of_isDigit {d : Char} (h : isDigit d = true) : ¬isSign d = true := by
  rw [isSign_iff]
  rintro (rfl | rfl) <;> cases h

theorem isExponentPart_iff {cs : List Char} : isExponentPart cs = true ↔ Exponent cs := by
  constructor
  · intro h
    match cs with
    | [] => exact .none
    | [e] => simp [isExponentPart] at h
    | e :: s :: ds =>
      obtain ⟨he, hrest⟩ := Bool.and_eq_true_iff.1 h
      have he := isExponentMark_iff.1 he
      simp only at hrest
      split at hrest
      · next hs =>
        obtain ⟨hne, hds⟩ := isDigits_iff.1 hrest
        exact .signed he (isSign_iff.1 hs) hne hds
      · obtain ⟨hne, hds⟩ := isDigits_iff.1 hrest
        exact .plain he hne hds
  · intro h
    cases h with
    | none => rfl
    | @plain e ds he hne hds =>
      obtain ⟨d, ds, rfl⟩ := List.exists_cons_of_ne_nil hne
      have hsign := not_isSign_of_isDigit (hds d List.mem_cons_self)
      simp [isExponentPart, isExponentMark_iff.2 he, hsign, isDigits_iff.2 ⟨hne, hds⟩]
    | signed he hs hne hds =>
      simp [isExponentPart, isExponentMark_iff.2 he, isSign_iff.2 hs, isDigits_iff.2 ⟨hne, hds⟩]

theorem Exponent.head {es : List Char} (h : Exponent es) {c : Char} (hc : c ∈ es.head?) :
    c = 'e' ∨ c = 'E' := by
  cases h with
  | none => cases hc
  | plain he | signed he =>
    cases hc
    exact he

theorem isDecimalTail_iff {cs : List Char} :
    isDecimalTail cs = true ↔ ∃ fs es, cs = fs ++ es ∧ Fraction fs ∧ Exponent es := by
  constructor
  · intro h
    unfold isDecimalTail at h
    split at h
    · next ds =>
      refine ⟨'.' :: ds.takeWhile isDigit, ds.dropWhile isDigit, ?_, .dot ?_,
        isExponentPart_iff.1 h⟩
      · simp
      · exact List.all_eq_true.1 List.all_takeWhile
    · exact ⟨[], cs, rfl, .none, isExponentPart_iff.1 h⟩
  · rintro ⟨fs, es, rfl, hfs, hes⟩
    cases hfs with
    | none =>
      have hdot : ∀ ds, [] ++ es ≠ '.' :: ds := by
        rintro ds rfl
        rcases hes.head rfl with h | h <;> cases h
      unfold isDecimalTail
      split
      · next ds heq => exact absurd heq (hdot ds)
      · exact isExponentPart_iff.2 hes
    | dot hds =>
      have hhead : ∀ c ∈ es.head?, isDigit c = false :=
        fun c hc => not_isDigit_of_mark (hes.head hc)
      rw [List.cons_append, isDecimalTail, (span_append hds hhead).2]
      exact isExponentPart_iff.2 hes

theorem isDecimalNumeral_iff {w : List Char} : isDecimalNumeral w = true ↔ DecimalNumeral w := by
  constructor
  · intro h
    obtain ⟨hne, htail⟩ := Bool.and_eq_true_iff.1 h
    obtain ⟨fs, es, heq, hfs, hes⟩ := isDecimalTail_iff.1 htail
    rw [← List.takeWhile_append_dropWhile (p := isDigit) (l := w), heq]
    exact .mk (by simpa using hne) (List.all_eq_true.1 List.all_takeWhile) hfs hes
  · rintro @⟨ds, fs, es, hne, hds, hfs, hes⟩
    have hhead : ∀ c ∈ (fs ++ es).head?, isDigit c = false := by
      intro c hc
      cases hfs with
      | none => exact not_isDigit_of_mark (hes.head hc)
      | dot =>
        cases hc
        rfl
    obtain ⟨htake, hdrop⟩ := span_append hds hhead
    refine Bool.and_eq_true_iff.2 ⟨?_, ?_⟩
    · simp [htake, hne]
    · rw [hdrop]
      exact isDecimalTail_iff.2 ⟨fs, es, rfl, hfs, hes⟩

theorem isNumeral_iff {w : List Char} : isNumeral w = true ↔ Numeral w := by
  rw [isNumeral, Bool.or_eq_true, isHexNumeral_iff, isDecimalNumeral_iff]
  rfl

theorem Longest.not_takes {w rest : List Char} {c : Char}
    (h : Longest Taken w (w ++ c :: rest)) : ¬Takes w c := by
  intro hc
  have hlonger := h.longest (w ++ [c]) (by simp) (h.holds.concat hc)
  have hlength := hlonger.length_le
  rw [List.length_append, List.length_singleton] at hlength
  omega

theorem not_inNumeral_behind {c : Char} (hc : isDigit c = true) (cs : List Char) :
    ∀ d ∈ (numeralRun c cs).2.head?, ¬InNumeral d := by
  intro d hd hin
  have hrun := longest_numeralRun hc cs
  obtain ⟨rest, hrest⟩ := List.head?_eq_some_iff.1 hd
  rw [← numeralRun_append c cs, hrest] at hrun
  exact hrun.not_takes (.inl hin)

theorem startsNumeral_iff {c : Char} (hc : isDigit c = true) (cs : List Char) {w : List Char} :
    StartsNumeral w (c :: cs) ↔ w = (numeralRun c cs).1 ∧ isNumeral (numeralRun c cs).1 = true := by
  constructor
  · intro h
    obtain rfl := h.longest.unique (longest_numeralRun hc cs)
    obtain ⟨-, -, hnumeral, -⟩ := h
    exact ⟨rfl, isNumeral_iff.2 hnumeral⟩
  · rintro ⟨rfl, hnumeral⟩
    exact ⟨(numeralRun c cs).2, (numeralRun_append c cs).symm, isNumeral_iff.1 hnumeral,
      not_inNumeral_behind hc cs⟩

end Lexeme

namespace Scanner

open Lexeme

theorem next_of_isDigit {s : Scanner} {c : Char} {cs : List Char} (hs : s.rest = c :: cs)
    (hc : isDigit c = true) :
    s.next.1.kind = (if isNumeral (numeralRun c cs).1 then .numeral else .illegal) ∧
      s.next.1.value = String.ofList (numeralRun c cs).1 ∧ s.next.2.rest = (numeralRun c cs).2 := by
  obtain ⟨p, text⟩ := s
  cases hs
  have hline : (if isNumeral (numeralRun c cs).1 then Kind.numeral else .illegal) ≠ .newline := by
    split <;> decide
  rw [next, first_of_isDigit hc]
  exact ⟨rfl, if_neg hline, rfl⟩

/-- Where the text goes on with a digit, the next token is a numeral just if a numeral stands there
that no letter, digit or dot follows, and it is that numeral; there is no other. If there is none
then the token is illegal, and it is the longest start of the text that could be part of a numeral.
Either way the scan goes on right behind the text of the token. -/
theorem next_numeral_iff (s : Scanner) {c : Char} {cs : List Char} (hs : s.rest = c :: cs)
    (hc : isDigit c = true) :
    (∀ w, s.next.1.kind = .numeral ∧ s.next.1.value = String.ofList w ↔ StartsNumeral w s.rest) ∧
      (∀ v w, StartsNumeral v s.rest → StartsNumeral w s.rest → v = w) ∧
      ((∀ w, ¬StartsNumeral w s.rest) →
        s.next.1.kind = .illegal ∧ Longest Taken s.next.1.value.toList s.rest) ∧
      s.rest = s.next.1.value.toList ++ s.next.2.rest := by
  obtain ⟨hkind, hvalue, hrest⟩ := next_of_isDigit hs hc
  have hrun := longest_numeralRun hc cs
  rw [hs, hkind, hvalue, hrest, String.toList_ofList]
  refine ⟨fun w => ?_, fun v w hv hw => ?_, fun hnone => ⟨?_, hrun⟩, ?_⟩
  · rw [startsNumeral_iff hc, String.ofList_inj, eq_comm (a := w), and_comm]
    cases isNumeral (numeralRun c cs).1 <;> simp
  · exact hv.longest.unique hw.longest
  · rw [if_neg]
    exact fun hnumeral => hnone _ ((startsNumeral_iff hc cs).2 ⟨rfl, hnumeral⟩)
  · exact (numeralRun_append c cs).symm

theorem next_numeral_iff_sign :
    let s := ofChars "0x1e+2".toList none
    let t := ofChars "1e+x=2".toList none
    (StartsNumeral "0x1e".toList s.rest ∧ s.next.1.kind = .numeral ∧ s.next.1.value = "0x1e" ∧
        s.next.2.rest = "+2".toList) ∧
      (∀ w, ¬StartsNumeral w t.rest) ∧ t.next.1.kind = .illegal ∧
        Longest Taken "1e+x".toList t.rest := by
  intro s t
  have hstarts : StartsNumeral "0x1e".toList s.rest := (startsNumeral_iff rfl _).2 (by decide)
  have hnone : ∀ w, ¬StartsNumeral w t.rest := by
    intro w h
    have hnumeral := ((startsNumeral_iff rfl _).1 h).2
    exact absurd hnumeral (by decide)
  obtain ⟨hnumeral, -, -, hrest⟩ := next_numeral_iff s rfl rfl
  obtain ⟨-, -, hillegal, -⟩ := next_numeral_iff t rfl rfl
  obtain ⟨hkind, hvalue⟩ := (hnumeral _).2 hstarts
  have hcut : "0x1e".toList ++ "+2".toList = "0x1e".toList ++ s.next.2.rest := by
    rwa [hvalue, String.toList_ofList] at hrest
  have htext : t.next.1.value = "1e+x" := by decide +kernel
  have htaken := hillegal hnone
  rw [htext] at htaken
  exact ⟨⟨hstarts, hkind, hvalue, (List.append_cancel_left hcut).symm⟩, hnone, htaken⟩

end Scanner

end LuaSyntax
