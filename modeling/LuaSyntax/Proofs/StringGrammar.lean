import LuaSyntax.Proofs.NumeralGrammar
import LuaSyntax.Proofs.StringSpelling

/-! The grammar of string literals, and that scanning and decoding split a literal in the same way.
Between its quotes stand units, which no text can be split into in two ways. The scanner goes from
unit to unit, so a quote that it stops at is not behind a backslash that takes it along; and what
decoding reads at once are whole units, of which only the first has a backslash. -/

namespace LuaSyntax

namespace Lexeme

/-- What stands between quotes: a character other than the quote, a backslash or a line end, or a
backslash and any one character. -/
inductive StringUnit (quote : Char) : List Char → Prop
  | plain {c} (hc : c ∉ [quote, '\\', '\n', '\r']) : StringUnit quote [c]
  | escaped (c) : StringUnit quote ['\\', c]

def OpensString (quote : Char) (w : List Char) : Prop :=
  ∃ us : List (List Char), (∀ u ∈ us, StringUnit quote u) ∧ w = quote :: us.flatten

def StartsString (quote : Char) (w text : List Char) : Prop :=
  w <+: text ∧ ∃ us : List (List Char), (∀ u ∈ us, StringUnit quote u) ∧
    w = quote :: (us.flatten ++ [quote])

/-- Where no further unit begins: at the quote, at the end of the line or of the text, and at a
backslash with nothing behind it. -/
inductive UnitsEnd (quote : Char) : List Char → Prop
  | quote (rest) : UnitsEnd quote (quote :: rest)
  | lineEnd {c} (hc : c = '\n' ∨ c = '\r') (rest) : UnitsEnd quote (c :: rest)
  | nothing : UnitsEnd quote []
  | backslash : UnitsEnd quote ['\\']

section Units

variable {quote : Char} {u v text rest : List Char} {us vs : List (List Char)}

theorem StringUnit.eq_of_prefix (hu : StringUnit quote u) (hv : StringUnit quote v)
    (hustart : u <+: text) (hvstart : v <+: text) : u = v := by
  obtain ⟨us, rfl⟩ := hustart
  cases hu with
  | @plain c hc =>
    cases hv with
    | plain => rw [(List.cons_prefix_cons.1 hvstart).1]
    | escaped d =>
      have hback := (List.cons_prefix_cons.1 hvstart).1
      simp [← hback] at hc
  | escaped c =>
    cases hv with
    | @plain d hd =>
      have hback := (List.cons_prefix_cons.1 hvstart).1
      simp [hback] at hd
    | escaped d =>
      have hnext := (List.cons_prefix_cons.1 hvstart).2
      rw [(List.cons_prefix_cons.1 hnext).1]

/-- A text is split into units in one way, up to where no further unit begins. -/
theorem prefix_of_flatten_prefix (hus : ∀ u ∈ us, StringUnit quote u)
    (hvs : ∀ v ∈ vs, StringUnit quote v) (hend : ∀ u, StringUnit quote u → ¬u <+: rest)
    (h : vs.flatten <+: us.flatten ++ rest) : vs <+: us := by
  induction vs generalizing us with
  | nil => exact List.nil_prefix
  | cons v vs ih =>
    obtain ⟨hv, hmore⟩ := List.forall_mem_cons.1 hvs
    rw [List.flatten_cons] at h
    have hvstart := (List.prefix_append v vs.flatten).trans h
    cases us with
    | nil => exact absurd hvstart (hend v hv)
    | cons u us =>
      obtain ⟨hu, hus⟩ := List.forall_mem_cons.1 hus
      rw [List.flatten_cons, List.append_assoc] at h hvstart
      obtain rfl := hu.eq_of_prefix hv (List.prefix_append u _) hvstart
      have hrest := (List.prefix_append_right_inj u).1 h
      exact List.cons_prefix_cons.2 ⟨rfl, ih hus hmore hrest⟩

end Units

theorem UnitsEnd.head_mem {quote : Char} {rest : List Char} (h : UnitsEnd quote rest) :
    ∀ c ∈ rest.head?, c ∈ [quote, '\\', '\n', '\r'] := by
  intro c hc
  cases h with
  | quote => cases hc; simp
  | lineEnd hline => cases hc; rcases hline with rfl | rfl <;> simp
  | nothing => cases hc
  | backslash => cases hc; simp

theorem exists_units (quote : Char) (cs : List Char) :
    ∃ us rest, (∀ u ∈ us, StringUnit quote u) ∧ UnitsEnd quote rest ∧
      cs = List.flatten us ++ rest := by
  fun_induction stringTail quote cs with
  | case1 => exact ⟨[], [], List.forall_mem_nil _, .nothing, rfl⟩
  | case2 c cs hline => exact ⟨[], c :: cs, List.forall_mem_nil _, .lineEnd hline cs, rfl⟩
  | case3 hline => exact ⟨[], ['\\'], List.forall_mem_nil _, .backslash, rfl⟩
  | case4 d ds hline ih =>
    obtain ⟨us, rest, hus, hend, rfl⟩ := ih
    exact ⟨['\\', d] :: us, rest, List.forall_mem_cons.2 ⟨.escaped d, hus⟩, hend, rfl⟩
  | case5 cs hline hescape => exact ⟨[], quote :: cs, List.forall_mem_nil _, .quote cs, rfl⟩
  | case6 c cs hline hescape hquote ih =>
    obtain ⟨us, rest, hus, hend, rfl⟩ := ih
    have hc : StringUnit quote [c] := by
      apply StringUnit.plain
      simp_all
    exact ⟨[c] :: us, rest, List.forall_mem_cons.2 ⟨hc, hus⟩, hend, rfl⟩

theorem stringTail_units {quote : Char} {us : List (List Char)}
    (hus : ∀ u ∈ us, StringUnit quote u) (rest : List Char) :
    stringTail quote (us.flatten ++ rest) = (stringTail quote rest).push us.flatten := by
  induction us with
  | nil => rfl
  | cons u us ih =>
    obtain ⟨hu, hmore⟩ := List.forall_mem_cons.1 hus
    cases hu with
    | @plain c hc =>
      simp only [List.mem_cons, List.not_mem_nil, or_false, not_or] at hc
      obtain ⟨hquote, hescape, hfeed, hreturn⟩ := hc
      change stringTail quote (c :: (us.flatten ++ rest)) = _
      rw [stringTail_of_other _ (not_or.2 ⟨hfeed, hreturn⟩) hescape hquote, ih hmore]
      rfl
    | escaped c =>
      change stringTail quote ('\\' :: c :: (us.flatten ++ rest)) = _
      rw [stringTail_of_escape _ (by decide) rfl, ih hmore]
      rfl

section

variable {quote : Char} (hquote : quote = '"' ∨ quote = '\x27')
include hquote

theorem UnitsEnd.not_prefix {rest u : List Char} (h : UnitsEnd quote rest)
    (hu : StringUnit quote u) : ¬u <+: rest := by
  rintro ⟨more, rfl⟩
  cases hu with
  | plain hc => exact hc (h.head_mem _ rfl)
  | escaped c =>
    -- a backslash is no line end, and here it is neither the quote nor the end of the text
    generalize htext : ['\\', c] ++ more = text at h
    cases h with
    | quote =>
      obtain rfl := (List.cons.inj htext).1
      exact absurd hquote (by decide)
    | lineEnd hline =>
      obtain rfl := (List.cons.inj htext).1
      exact absurd hline (by decide)
    | nothing => cases htext
    | backslash => cases htext

theorem stringTail_of_unitsEnd {rest : List Char} (h : UnitsEnd quote rest) :
    (∃ r, rest = quote :: r ∧ stringTail quote rest = ⟨[quote], true, r⟩) ∨
      (rest.head? ≠ some quote ∧ (stringTail quote rest).closed = false ∧
        (stringTail quote rest).text = if rest = ['\\'] then rest else []) := by
  have hback : quote ≠ '\\' := by rcases hquote with rfl | rfl <;> decide
  have hline : ¬(quote = '\n' ∨ quote = '\r') := by rcases hquote with rfl | rfl <;> decide
  cases h with
  | quote r => exact .inl ⟨r, rfl, stringTail_of_quote r hline hback rfl⟩
  | @lineEnd c hc r =>
    have hne : c ≠ quote := fun heq => hline (heq ▸ hc)
    have hlone : c :: r ≠ ['\\'] := by
      rintro ⟨⟩
      exact absurd hc (by decide)
    rw [stringTail_of_lineEnd r hc, if_neg hlone]
    exact .inr ⟨fun heq => hne (Option.some.inj heq), rfl, rfl⟩
  | nothing => exact .inr ⟨nofun, rfl, rfl⟩
  | backslash => exact .inr ⟨fun heq => hback (Option.some.inj heq).symm, rfl, rfl⟩

section

variable {us : List (List Char)} (hus : ∀ u ∈ us, StringUnit quote u) {rest : List Char}
  (hend : UnitsEnd quote rest)
include hus hend

theorem startsString_iff {w : List Char} :
    StartsString quote w (quote :: (us.flatten ++ rest)) ↔
      rest.head? = some quote ∧ w = quote :: (us.flatten ++ [quote]) := by
  constructor
  · rintro ⟨hstart, vs, hvs, rfl⟩
    have htext := (List.cons_prefix_cons.1 hstart).2
    obtain ⟨ws, rfl⟩ := prefix_of_flatten_prefix hus hvs (fun _ => hend.not_prefix hquote)
      ((List.prefix_append _ _).trans htext)
    rw [List.flatten_append, List.append_assoc, List.prefix_append_right_inj] at htext
    cases ws with
    | nil =>
      obtain ⟨r, rfl⟩ := htext
      rw [List.append_nil]
      exact ⟨rfl, rfl⟩
    | cons u ws =>
      cases hus u (by simp) with
      | plain hc => simp [(List.cons_prefix_cons.1 htext).1] at hc
      | escaped c =>
        rw [(List.cons_prefix_cons.1 htext).1] at hquote
        exact absurd hquote (by decide)
  · rintro ⟨hhead, rfl⟩
    obtain ⟨r, rfl⟩ := List.head?_eq_some_iff.1 hhead
    exact ⟨⟨r, by simp⟩, us, hus, rfl⟩

theorem longest_opensString :
    Longest (OpensString quote) (quote :: us.flatten) (quote :: (us.flatten ++ rest)) := by
  refine ⟨⟨rest, rfl⟩, ⟨us, hus, rfl⟩, ?_⟩
  rintro _ hstart ⟨vs, hvs, rfl⟩
  obtain ⟨ws, rfl⟩ := prefix_of_flatten_prefix hus hvs (fun _ => hend.not_prefix hquote)
    (List.cons_prefix_cons.1 hstart).2
  rw [List.flatten_append]
  exact ⟨ws.flatten, rfl⟩

end

end

end Lexeme

namespace Escape

open Text Lexeme

def readings : List Char → List (List Char × List Char)
  | [] => []
  | c :: cs =>
    if c = '\\' then
      match cs with
      | [] => [(['\\'], ['\\'])]
      | d :: ds =>
        ('\\' :: d :: ds.take (escape d ds).2, (escape d ds).1) ::
          readings (ds.drop (escape d ds).2)
    else ([c], [c]) :: readings cs
termination_by cs => cs.length
decreasing_by all_goals simp <;> omega

theorem readings_plain {c : Char} (h : c ≠ '\\') (rest : List Char) :
    readings (c :: rest) = ([c], [c]) :: readings rest := by
  rw [readings.eq_def]
  exact if_neg h

theorem readings_escape (d : Char) (rest : List Char) :
    readings ('\\' :: d :: rest) =
      ('\\' :: d :: rest.take (escape d rest).2, (escape d rest).1) ::
        readings (rest.drop (escape d rest).2) := by
  rw [readings, if_pos rfl]

theorem decodeBody_eq_readings (cs : List Char) :
    decodeBody cs = (readings cs).flatMap Prod.snd := by
  fun_induction decodeBody cs with
  | case1 => simp [readings]
  | case2 => simp [readings]
  | case3 d ds ih => rw [readings_escape, List.flatMap_cons, ih]
  | case4 c cs h ih => rw [readings_plain h, List.flatMap_cons, ih]; rfl

theorem takeWhile_take_prefix (p : Char → Bool) (n : Nat) (ds : List Char) :
    (ds.take n).takeWhile p <+: ds ∧ ∀ e ∈ (ds.take n).takeWhile p, p e = true :=
  ⟨(List.takeWhile_prefix p).trans (List.take_prefix n ds),
    List.all_eq_true.1 List.all_takeWhile⟩

theorem escape_reads (d : Char) (ds : List Char) :
    ∃ es, es <+: ds ∧ (∀ e ∈ es, isHexDigit e = true) ∧ (escape d ds).2 = es.length ∧
      (escape d ds).1.length ≤ es.length + 2 := by
  have hnone : ∀ cs : List Char, cs.length ≤ 2 → ∃ es, es <+: ds ∧
      (∀ e ∈ es, isHexDigit e = true) ∧ 0 = es.length ∧ cs.length ≤ es.length + 2 :=
    fun cs hcs => ⟨[], List.nil_prefix, List.forall_mem_nil _, rfl, hcs⟩
  unfold escape
  split
  · exact hnone _ (by simp)
  split
  · obtain ⟨hstart, hdigits⟩ := takeWhile_take_prefix isHexDigit 2 ds
    refine ⟨_, hstart, hdigits, rfl, ?_⟩
    dsimp only
    split <;> simp
  split
  · obtain ⟨hstart, hdigits⟩ := takeWhile_take_prefix isDigit 2 ds
    refine ⟨_, hstart, fun e he => ?_, rfl, ?_⟩
    · rw [isHexDigit, hdigits e he]
      rfl
    · dsimp only
      split <;> simp
  · exact hnone _ (by simp)

theorem length_decodeBody_le (cs : List Char) : (decodeBody cs).length ≤ cs.length := by
  fun_induction decodeBody cs with
  | case1 => exact Nat.le_refl _
  | case2 => exact Nat.le_refl _
  | case3 d ds ih =>
    obtain ⟨es, hstart, -, hcount, hlength⟩ := escape_reads d ds
    have hle := hstart.length_le
    rw [List.length_drop] at ih
    rw [List.length_append, List.length_cons, List.length_cons]
    omega
  | case4 c cs h ih => exact Nat.succ_le_succ ih

theorem exists_units_behind {quote : Char} {us : List (List Char)}
    (hus : ∀ u ∈ us, StringUnit quote u) {es rest : List Char} (hes : '\\' ∉ es)
    (h : us.flatten = es ++ rest) :
    ∃ vs, us = es.map (fun e => [e]) ++ vs ∧ vs.flatten = rest := by
  induction es generalizing us with
  | nil => exact ⟨us, rfl, h⟩
  | cons e es ih =>
    obtain ⟨he, hbehind⟩ := not_or.1 (mt List.mem_cons.2 hes)
    cases us with
    | nil => cases h
    | cons u us =>
      obtain ⟨hu, hmore⟩ := List.forall_mem_cons.1 hus
      cases hu with
      | plain hc =>
        obtain ⟨rfl, hrest⟩ := List.cons.inj h
        obtain ⟨vs, rfl, hvs⟩ := ih hmore hbehind hrest
        exact ⟨vs, rfl, hvs⟩
      | escaped c => exact absurd (List.cons.inj h).1 he

theorem exists_groups {quote : Char} {us : List (List Char)}
    (hus : ∀ u ∈ us, StringUnit quote u) :
    ∃ gs : List (List (List Char)), gs.flatten = us ∧
      (readings us.flatten).map Prod.fst = gs.map List.flatten ∧
      ∀ g ∈ gs, g ≠ [] ∧ ∀ u ∈ g.tail, '\\' ∉ u := by
  match us with
  | [] => exact ⟨[], rfl, by simp [readings], List.forall_mem_nil _⟩
  | u :: us =>
    obtain ⟨hu, hmore⟩ := List.forall_mem_cons.1 hus
    cases hu with
    | @plain c hc =>
      have hescape : c ≠ '\\' := by
        rintro rfl
        simp at hc
      obtain ⟨gs, rfl, hread, hgs⟩ := exists_groups hmore
      refine ⟨[[c]] :: gs, rfl, ?_, List.forall_mem_cons.2 ⟨⟨nofun, nofun⟩, hgs⟩⟩
      change (readings (c :: gs.flatten.flatten)).map Prod.fst = _
      rw [readings_plain hescape, List.map_cons, hread]
      rfl
    | escaped d =>
      obtain ⟨es, ⟨rest, hrest⟩, hdigits, hcount, -⟩ := escape_reads d us.flatten
      have hes : '\\' ∉ es := fun hmem => absurd (hdigits _ hmem) (by decide)
      obtain ⟨vs, rfl, rfl⟩ := exists_units_behind hmore hes hrest.symm
      obtain ⟨gs, rfl, hread, hgs⟩ := exists_groups fun v hv => hmore v (List.mem_append_right _ hv)
      have hflatten : (es.map fun e => [e]).flatten = es :=
        List.flatMap_singleton' es
      refine ⟨(['\\', d] :: es.map fun e => [e]) :: gs, rfl, ?_,
        List.forall_mem_cons.2 ⟨⟨nofun, fun u hu => ?_⟩, hgs⟩⟩
      · change (readings ('\\' :: d :: (es.map (fun e => [e]) ++ gs.flatten).flatten)).map _ = _
        rw [readings_escape, hcount, ← hrest, List.take_left, List.drop_left, List.map_cons, hread,
          List.map_cons, List.flatten_cons, hflatten]
        rfl
      · obtain ⟨e, he, rfl⟩ := List.mem_map.1 hu
        exact fun hback => hes (List.mem_singleton.1 hback ▸ he)
termination_by us.length

theorem flatten_ne_backslash {quote : Char} {us : List (List Char)}
    (hus : ∀ u ∈ us, StringUnit quote u) : us.flatten ≠ ['\\'] := by
  intro h
  cases us with
  | nil => cases h
  | cons u us =>
    cases hus u List.mem_cons_self with
    | plain hc =>
      rw [(List.cons.inj h).1] at hc
      simp at hc
    | escaped c => cases (List.cons.inj h).2

/-- How the literal of the units between two quotes is decoded. Both quotes are dropped and all else
is kept; what is read at once are whole units, of which only the first has a backslash; a backslash
is never read alone; and there are no more characters in the value than between the quotes. -/
structure DecodesUnits (quote : Char) (us : List (List Char)) : Prop where
  body_eq : body (literal quote us.flatten).toList = us.flatten
  decode_eq : (decode (literal quote us.flatten)).toList = (readings us.flatten).flatMap Prod.snd
  whole : ∃ gs : List (List (List Char)), gs.flatten = us ∧
    (readings us.flatten).map Prod.fst = gs.map List.flatten ∧
    ∀ g ∈ gs, g ≠ [] ∧ ∀ u ∈ g.tail, '\\' ∉ u
  not_lone : ['\\'] ∉ (readings us.flatten).map Prod.fst
  length_le : (decode (literal quote us.flatten)).length ≤ us.flatten.length

theorem decodesUnits {quote : Char} {us : List (List Char)}
    (hus : ∀ u ∈ us, StringUnit quote u) : DecodesUnits quote us := by
  have hvalue : decode (literal quote us.flatten) = String.ofList (decodeBody us.flatten) := by
    rw [decode, body_literal]
  obtain ⟨gs, hgs, hread, hfirst⟩ := exists_groups hus
  refine ⟨body_literal quote _, ?_, ⟨gs, hgs, hread, hfirst⟩, ?_, ?_⟩
  · rw [hvalue, String.toList_ofList, decodeBody_eq_readings]
  · rw [hread]
    rintro hlone
    obtain ⟨g, hg, hback⟩ := List.mem_map.1 hlone
    refine flatten_ne_backslash (fun u hu => hus u ?_) hback
    rw [← hgs]
    exact List.mem_flatten_of_mem hg hu
  · rw [hvalue, String.length_ofList]
    exact length_decodeBody_le _

end Escape

namespace Scanner

open Lexeme

theorem next_of_quote {s : Scanner} {quote : Char} {cs : List Char} (hs : s.rest = quote :: cs)
    (hquote : quote = '"' ∨ quote = '\x27') :
    s.next.1.kind = (if (stringTail quote cs).closed then .string else .illegal) ∧
      s.next.1.value = String.ofList (quote :: (stringTail quote cs).text) ∧
      s.next.2.rest = (stringTail quote cs).rest := by
  obtain ⟨p, text⟩ := s
  cases hs
  have hline : (if (stringTail quote cs).closed then Kind.string else .illegal) ≠ .newline := by
    split <;> decide
  rw [next, first_of_quote hquote]
  exact ⟨rfl, if_neg hline, rfl⟩

/-- Where the text goes on with a quote, the next token is a string just if units between two quotes
stand there, and it is those; there is no other such text. If there are none then the token is
illegal, and it is the quote with as many units behind it as there are, and with a backslash if that
is all that is left. Either way the scan goes on right behind the text of the token. Decoding a
string splits it into the same units. -/
theorem next_string_iff (s : Scanner) {quote : Char} {cs : List Char} (hs : s.rest = quote :: cs)
    (hquote : quote = '"' ∨ quote = '\x27') :
    (∀ w, s.next.1.kind = .string ∧ s.next.1.value = String.ofList w ↔
        StartsString quote w s.rest) ∧
      (∀ v w, StartsString quote v s.rest → StartsString quote w s.rest → v = w) ∧
      ((∀ w, ¬StartsString quote w s.rest) →
        s.next.1.kind = .illegal ∧ ∃ w, Longest (OpensString quote) w s.rest ∧
          s.next.1.value.toList = if s.rest = w ++ ['\\'] then s.rest else w) ∧
      s.rest = s.next.1.value.toList ++ s.next.2.rest ∧
      ∀ us, (∀ u ∈ us, StringUnit quote u) → Escape.DecodesUnits quote us := by
  obtain ⟨hkind, hvalue, hrest⟩ := next_of_quote hs hquote
  obtain ⟨us, rest, hus, hend, rfl⟩ := exists_units quote cs
  have hstarts : ∀ w, StartsString quote w s.rest ↔
      rest.head? = some quote ∧ w = quote :: (us.flatten ++ [quote]) := by
    intro w
    rw [hs]
    exact startsString_iff hquote hus hend
  rw [stringTail_units hus] at hkind hvalue hrest
  refine ⟨fun w => ?_, fun v w hv hw => ?_, fun hnone => ?_, ?_, fun _ => Escape.decodesUnits⟩
  · rw [hstarts, hkind, hvalue, String.ofList_inj]
    rcases stringTail_of_unitsEnd hquote hend with ⟨r, rfl, htail⟩ | ⟨hhead, hopen, -⟩
    · rw [htail]
      exact ⟨fun h => ⟨rfl, h.2.symm⟩, fun h => ⟨rfl, h.2.symm⟩⟩
    · rw [Tail.push_closed, hopen]
      exact ⟨fun h => absurd h.1 (by decide), fun h => absurd h.1 hhead⟩
  · rw [((hstarts v).1 hv).2, ((hstarts w).1 hw).2]
  · rcases stringTail_of_unitsEnd hquote hend with ⟨r, rfl, -⟩ | ⟨-, hopen, htext⟩
    · exact absurd ((hstarts _).2 ⟨rfl, rfl⟩) (hnone _)
    · rw [hkind, Tail.push_closed, hopen]
      refine ⟨rfl, quote :: us.flatten, ?_, ?_⟩
      · rw [hs]
        exact longest_opensString hquote hus hend
      · have hlone : quote :: (us.flatten ++ rest) = quote :: us.flatten ++ ['\\'] ↔
            rest = ['\\'] := by simp
        rw [hvalue, String.toList_ofList, Tail.push_text, htext, hs]
        simp only [hlone]
        split
        · rfl
        · rw [List.append_nil]
  · rw [hs, hvalue, hrest, String.toList_ofList, List.cons_append, Tail.push_text, Tail.push_rest,
      List.append_assoc, stringTail_append]

theorem next_string_iff_backslashes :
    let s := ofChars "\"\\\"\\x4\\\\\"b".toList none
    let t := ofChars "\x27\\\\\\".toList none
    (StartsString '"' "\"\\\"\\x4\\\\\"".toList s.rest ∧ s.next.1.kind = .string ∧
        s.next.1.value = "\"\\\"\\x4\\\\\"" ∧ s.next.2.rest = ['b'] ∧
        Escape.DecodesUnits '"' [['\\', '"'], ['\\', 'x'], ['4'], ['\\', '\\']]) ∧
      (∀ w, ¬StartsString '\x27' w t.rest) ∧ t.next.1.kind = .illegal ∧
        t.next.1.value = "\x27\\\\\\" ∧
        Longest (OpensString '\x27') ['\x27', '\\', '\\'] t.rest := by
  intro s t
  have hus : ∀ u ∈ [['\\', '"'], ['\\', 'x'], ['4'], ['\\', '\\']], StringUnit '"' u := by
    simp only [List.forall_mem_cons]
    exact ⟨.escaped _, .escaped _, .plain (by decide), .escaped _, List.forall_mem_nil _⟩
  have hvs : ∀ u ∈ [['\\', '\\']], StringUnit '\x27' u := by
    simp only [List.forall_mem_cons]
    exact ⟨.escaped _, List.forall_mem_nil _⟩
  have hstarts : StartsString '"' "\"\\\"\\x4\\\\\"".toList s.rest := ⟨⟨['b'], rfl⟩, _, hus, rfl⟩
  have hnone : ∀ w, ¬StartsString '\x27' w t.rest := by
    intro w h
    have hhead := ((startsString_iff (.inr rfl) hvs .backslash).1 h).1
    exact absurd hhead (by decide)
  obtain ⟨hstring, -, -, hrest, hdecodes⟩ := next_string_iff s rfl (.inl rfl)
  obtain ⟨-, -, hillegal, -, -⟩ := next_string_iff t rfl (.inr rfl)
  obtain ⟨hkind, hvalue⟩ := (hstring _).2 hstarts
  have hcut : "\"\\\"\\x4\\\\\"".toList ++ ['b'] = "\"\\\"\\x4\\\\\"".toList ++ s.next.2.rest := by
    rwa [hvalue, String.toList_ofList] at hrest
  obtain ⟨hcutOff, w, hlongest, htext⟩ := hillegal hnone
  obtain rfl := hlongest.unique (longest_opensString (.inr rfl) hvs .backslash)
  exact ⟨⟨hstarts, hkind, hvalue, (List.append_cancel_left hcut).symm, hdecodes _ hus⟩, hnone,
    hcutOff, String.toList_inj.1 htext, hlongest⟩

end Scanner

end LuaSyntax
