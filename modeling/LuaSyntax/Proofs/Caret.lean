import LuaSyntax.Diagnostic.Report
import LuaSyntax.Proofs.Adjacency
import LuaSyntax.Proofs.LineTexts
import LuaSyntax.Proofs.Reports

/-! Where the caret of a report stands. The line and the column of a place, counted by the scanner,
lead to the character there in the line that the report quotes, and past the end of that line if the
place is at its end. No token starts with indentation, so the caret moves along with the rest of the
line when the indentation is dropped. -/

namespace LuaSyntax

open Lexeme

/-! Lines and columns in parts of a text. -/

theorem completesLine_append (front cs : List Char) (k : Nat) :
    completesLine (front ++ cs) (front.length + k) = completesLine cs k := by
  simp only [completesLine, Nat.add_assoc, List.getElem?_append_right (Nat.le_add_right _ _),
    Nat.add_sub_cancel_left]

theorem lineAt_pos (cs : List Char) (k : Nat) : 0 < lineAt cs k := by
  rw [lineAt]
  omega

theorem columnAt_pos (cs : List Char) (k : Nat) : 0 < columnAt cs k := by
  rw [columnAt]
  omega

theorem lineAt_append (front cs : List Char) (k : Nat) :
    lineAt (front ++ cs) (front.length + k) + 1 =
      lineAt (front ++ cs) front.length + lineAt cs k := by
  induction k with
  | zero => rfl
  | succ k ih =>
    rw [← Nat.add_assoc, lineAt_succ, lineAt_succ, completesLine_append]
    omega

theorem columnAt_append {front cs : List Char} (h : columnAt (front ++ cs) front.length = 1)
    (k : Nat) : columnAt (front ++ cs) (front.length + k) = columnAt cs k := by
  induction k with
  | zero => exact h
  | succ k ih => rw [← Nat.add_assoc, columnAt_succ, columnAt_succ, completesLine_append, ih]

namespace Text

theorem completesLine_break {cs e : List Char} (he : IsLineBreak cs e) {k : Nat}
    (hk : k < e.length) : completesLine (e ++ cs) k = decide (k + 1 = e.length) := by
  rcases he with rfl | rfl | ⟨rfl, hcs⟩
  · obtain rfl : k = 0 := Nat.lt_one_iff.1 hk
    rfl
  · match k with
    | 0 => rfl
    | 1 => rfl
  · obtain rfl : k = 0 := Nat.lt_one_iff.1 hk
    rw [List.head?_eq_getElem?] at hcs
    simp [completesLine, hcs]

section

variable {l : List Char} (hl : ∀ c ∈ l, isLineEnd c = false)
include hl

theorem place_in_line (cs : List Char) {k : Nat} (hk : k ≤ l.length) :
    lineAt (l ++ cs) k = 1 ∧ columnAt (l ++ cs) k = k + 1 := by
  induction k with
  | zero => exact ⟨rfl, rfl⟩
  | succ k ih =>
    have hc : (l ++ cs)[k]? = some l[k] := by
      rw [List.getElem?_append_left hk, List.getElem?_eq_getElem]
    have hbreak : completesLine (l ++ cs) k = false := by
      rw [completesLine_eq hc, breaksLine_of_not_isLineEnd (hl _ (List.getElem_mem hk))]
    obtain ⟨hline, hcolumn⟩ := ih (by omega)
    rw [lineAt_succ, columnAt_succ, hbreak, hline, hcolumn]
    exact ⟨rfl, rfl⟩

section

variable {cs e : List Char} (he : IsLineBreak cs e)
include he

theorem place_in_break {k : Nat} (hk : k < e.length) :
    lineAt (l ++ (e ++ cs)) (l.length + k) = 1 ∧
      columnAt (l ++ (e ++ cs)) (l.length + k) = l.length + k + 1 := by
  induction k with
  | zero => exact place_in_line hl (e ++ cs) (Nat.le_refl _)
  | succ k ih =>
    have hbreak : completesLine (e ++ cs) k = false := by
      rw [completesLine_break he (by omega)]
      exact decide_eq_false (by omega)
    obtain ⟨hline, hcolumn⟩ := ih (by omega)
    rw [← Nat.add_assoc, lineAt_succ, columnAt_succ, completesLine_append, hbreak, hline, hcolumn]
    exact ⟨rfl, rfl⟩

theorem place_behind_break :
    lineAt (l ++ (e ++ cs)) (l.length + e.length) = 2 ∧
      columnAt (l ++ (e ++ cs)) (l.length + e.length) = 1 := by
  obtain ⟨k, hk⟩ : ∃ k, e.length = k + 1 := by
    rcases he with rfl | rfl | ⟨rfl, -⟩
    · exact ⟨0, rfl⟩
    · exact ⟨1, rfl⟩
    · exact ⟨0, rfl⟩
  have hlast : k < e.length := by omega
  have hbreak : completesLine (e ++ cs) k = true := by
    rw [completesLine_break he hlast]
    exact decide_eq_true hk.symm
  obtain ⟨hline, -⟩ := place_in_break hl he hlast
  rw [hk, ← Nat.add_assoc, lineAt_succ, columnAt_succ, completesLine_append, hbreak, hline]
  exact ⟨rfl, rfl⟩

end

end

/-- Among the lines, the character in the column of the line is the one given, which is no line end;
or the line is over before that column. -/
def Shows (ls : List (List Char)) (line column : Nat) (c : Option Char) : Prop :=
  ∃ l, ls[line - 1]? = some l ∧
    if c.any (!isLineEnd ·) then l[column - 1]? = c else l.length < column

theorem isLineEnd_of_mem_break {rest e : List Char} (he : IsLineBreak rest e) {c : Char}
    (hc : c ∈ e) : isLineEnd c = true := by
  rcases he with rfl | rfl | ⟨rfl, -⟩
  · rw [List.mem_singleton.1 hc]
    rfl
  · rcases List.mem_pair.1 hc with rfl | rfl <;> rfl
  · rw [List.mem_singleton.1 hc]
    rfl

section

variable {l : List Char} (hl : ∀ c ∈ l, isLineEnd c = false)
include hl

theorem shows_in_line (cs : List Char) (ls : List (List Char)) {k : Nat} (hk : k < l.length) :
    Shows (l :: ls) (lineAt (l ++ cs) k) (columnAt (l ++ cs) k) (l ++ cs)[k]? := by
  obtain ⟨hline, hcolumn⟩ := place_in_line hl cs hk.le
  have hc : (!isLineEnd l[k]) = true := by rw [hl _ (List.getElem_mem hk)]; rfl
  rw [hline, hcolumn, List.getElem?_append_left hk, List.getElem?_eq_getElem hk]
  refine ⟨l, rfl, ?_⟩
  rw [Option.any_some, if_pos hc]
  exact List.getElem?_eq_getElem hk

variable {cs e : List Char} (he : IsLineBreak cs e)
include he

theorem shows_in_break (ls : List (List Char)) {k : Nat} (hk : k < e.length) :
    Shows (l :: ls) (lineAt (l ++ (e ++ cs)) (l.length + k))
      (columnAt (l ++ (e ++ cs)) (l.length + k)) (l ++ (e ++ cs))[l.length + k]? := by
  obtain ⟨hline, hcolumn⟩ := place_in_break hl he hk
  have hend : (!isLineEnd e[k]) = false := by
    rw [isLineEnd_of_mem_break he (List.getElem_mem hk)]
    rfl
  rw [hline, hcolumn, List.getElem?_append_right (Nat.le_add_right _ _), Nat.add_sub_cancel_left,
    List.getElem?_append_left hk, List.getElem?_eq_getElem hk]
  refine ⟨l, rfl, ?_⟩
  rw [Option.any_some, hend]
  exact Nat.lt_succ_of_le (Nat.le_add_right _ _)

theorem shows_behind_break {ls : List (List Char)} {k : Nat}
    (h : Shows ls (lineAt cs k) (columnAt cs k) cs[k]?) :
    Shows (l :: ls) (lineAt (l ++ e ++ cs) ((l ++ e).length + k))
      (columnAt (l ++ e ++ cs) ((l ++ e).length + k)) (l ++ e ++ cs)[(l ++ e).length + k]? := by
  obtain ⟨hline, hcolumn⟩ := place_behind_break hl he
  rw [← List.append_assoc, ← List.length_append] at hline hcolumn
  have hindex : lineAt (l ++ e ++ cs) ((l ++ e).length + k) - 1 = lineAt cs k - 1 + 1 := by
    have hsum := lineAt_append (l ++ e) cs k
    have hpos := lineAt_pos cs k
    omega
  obtain ⟨l', hl', hc⟩ := h
  rw [columnAt_append hcolumn, List.getElem?_append_right (Nat.le_add_right _ _),
    Nat.add_sub_cancel_left]
  refine ⟨l', ?_, hc⟩
  rw [hindex, List.getElem?_cons_succ]
  exact hl'

end

theorem CutIntoLines.shows {cs : List Char} {ls : List (List Char)} (h : CutIntoLines cs ls)
    {k : Nat} (hk : k ≤ cs.length) : Shows ls (lineAt cs k) (columnAt cs k) cs[k]? := by
  induction h generalizing k with
  | @last l hl =>
    rcases hk.lt_or_eq with hlt | rfl
    · have hshows := shows_in_line hl [] [] hlt
      rwa [List.append_nil] at hshows
    · obtain ⟨hline, hcolumn⟩ := place_in_line hl [] (Nat.le_refl _)
      rw [List.append_nil] at hline hcolumn
      rw [hline, hcolumn, List.getElem?_length]
      exact ⟨l, rfl, Nat.lt_succ_self _⟩
  | @line l e cs ls hl he _ ih =>
    -- the place is in the line, in its break, or behind both
    rcases Nat.lt_or_ge k l.length with hlt | hle
    · exact shows_in_line hl (e ++ cs) ls hlt
    obtain ⟨j, rfl⟩ := Nat.exists_eq_add_of_le hle
    rcases Nat.lt_or_ge j e.length with hlt | hle
    · exact shows_in_break hl he ls hlt
    obtain ⟨i, rfl⟩ := Nat.exists_eq_add_of_le hle
    have hi : i ≤ cs.length := by
      rw [List.length_append, List.length_append] at hk
      omega
    rw [← List.append_assoc, ← Nat.add_assoc, ← List.length_append]
    exact shows_behind_break hl he (ih hi)

theorem CutIntoLines.isLineEnd_of_mem {cs l : List Char} {ls : List (List Char)}
    (h : CutIntoLines cs ls) (hl : l ∈ ls) : ∀ c ∈ l, isLineEnd c = false := by
  induction h with
  | last hlast =>
    rw [List.mem_singleton.1 hl]
    exact hlast
  | line hfirst _ _ ih =>
    rcases List.mem_cons.1 hl with rfl | hl
    · exact hfirst
    · exact ih hl

theorem length_takeWhile_le {p : Char → Bool} {l : List Char} {n : Nat} {c : Char}
    (hc : l[n]? = some c) (hp : p c = false) : (l.takeWhile p).length ≤ n := by
  refine Nat.le_of_not_lt fun hlt => ?_
  have hmem : (l.takeWhile p)[n] = c := by
    rw [(List.takeWhile_prefix p).getElem hlt]
    exact (List.getElem?_eq_some_iff.1 hc).2
  have hall := List.all_eq_true.1 (List.all_takeWhile (p := p) (l := l)) _ (List.getElem_mem hlt)
  rw [hmem, hp] at hall
  cases hall

theorem exists_trimEnd_append (cs : List Char) :
    ∃ hidden, cs = trimEnd cs ++ hidden ∧ ∀ c ∈ hidden, isWhiteSpace c = true := by
  refine ⟨(cs.reverse.takeWhile isWhiteSpace).reverse, ?_, fun c hc => ?_⟩
  · rw [trimEnd, ← List.reverse_append, List.takeWhile_append_dropWhile, List.reverse_reverse]
  · exact List.all_eq_true.1 List.all_takeWhile c (List.mem_reverse.1 hc)

end Text

/-! The character that a token begins with. -/

open Text

theorem Lexeme.not_blank_of_first {c : Char} {cs : List Char} {k : Kind}
    (h : (first c cs).1.kind = some k) (hk : k ≠ .newline) :
    isIndent c = false ∧ isLineEnd c = false := by
  have hblank : isBlank c = false := by
    refine Bool.eq_false_iff.2 fun hc => ?_
    rw [first, if_pos hc] at h
    cases h
  constructor
  · simp only [isBlank, Bool.or_eq_false_iff] at hblank
    rw [isIndent, hblank.1.1.1, hblank.1.1.2]
    rfl
  · refine Bool.eq_false_iff.2 fun hc => hk ?_
    have hc : c = '\n' ∨ c = '\r' := by simpa [isLineEnd] using hc
    rcases hc with rfl | rfl
    · exact (Option.some.inj h).symm
    · have hkind : (carriageReturn cs).1.kind = some k := h
      rw [carriageReturn_kind] at hkind
      exact (Option.some.inj hkind).symm

/-- The token begins with character `k` of the source, which is neither indentation nor a line end;
or there is a line end or nothing at all, and the token stands for that. -/
def Token.BeginsAt (t : Token) (source : List Char) (k : Nat) : Prop :=
  if t.kind = .newline ∨ t.kind = .endOfInput then source[k]?.any (!isLineEnd ·) = false
  else ∃ c, source[k]? = some c ∧ isLineEnd c = false ∧ isIndent c = false ∧
    t.value.toList.head? = some c

theorem Token.CutAt.beginsAt {source : List Char} {t : Token} {i j : Nat}
    (h : t.CutAt source i j) (heof : t.kind ≠ .endOfInput) : t.BeginsAt source i := by
  obtain ⟨c, cs, hdrop, hkind, htoken, -⟩ := h
  have hc : source[i]? = some c := by
    rw [← List.head?_drop, hdrop]
    rfl
  by_cases hline : t.kind = .newline
  · rw [hline] at hkind
    rw [BeginsAt, if_pos (.inl hline), hc]
    rcases first_of_newline hkind with rfl | rfl <;> rfl
  · obtain ⟨hindent, hend⟩ := not_blank_of_first hkind hline
    have hvalue : t.value = if t.kind = .newline then "" else String.ofList (first c cs).1.text :=
      (congrArg Token.value htoken).symm
    rw [BeginsAt, if_neg (not_or.2 ⟨hline, heof⟩), hvalue, if_neg hline, String.toList_ofList,
      head?_text_first]
    exact ⟨c, hc, hend, hindent, rfl⟩

theorem exists_beginsAt {source : String} (h : source.length < UInt32.size - 1)
    {file : Option String} {t : Token} (ht : t ∈ tokenize source file) :
    ∃ k ≤ source.toList.length, t.start.IsAt source.toList k ∧ t.BeginsAt source.toList k := by
  rcases List.mem_append.1 ht with ht | ht
  · obtain ⟨i, j, -, hlies, hcut⟩ := (tiled_cutAt source file).exists_at ht
    exact ⟨i, hlies.1.le.trans hlies.2.1, (hlies.spans h).1, hcut.beginsAt (kind_ne_endOfInput ht)⟩
  · have hat : (scan source file).stop.IsAt source.toList source.toList.length := by
      rw [String.length_toList]
      exact isAt_stop h
    rw [List.mem_singleton.1 ht]
    refine ⟨_, Nat.le_refl _, hat, ?_⟩
    rw [Token.BeginsAt, if_pos (.inr rfl), List.getElem?_length]
    rfl

/-! Tokens in the lines that reports quote. -/

/-- The line holds in the column the character that the token begins with, and this is no
indentation; or it is over before the column, if the token is a line end or the end of input. -/
def Token.ShownIn (t : Token) (l : List Char) (column : Nat) : Prop :=
  if t.kind = .newline ∨ t.kind = .endOfInput then l.length < column
  else ∃ c, l[column - 1]? = some c ∧ t.value.toList.head? = some c ∧ isIndent c = false

theorem Token.ShownIn.indent_lt {t : Token} {l : List Char} {column : Nat}
    (h : t.ShownIn l column) (hcolumn : 0 < column) :
    (l.takeWhile isIndent).length < column := by
  unfold ShownIn at h
  split at h
  · exact (List.takeWhile_prefix isIndent).length_le.trans_lt h
  · obtain ⟨c, hc, -, hindent⟩ := h
    have hle := length_takeWhile_le hc hindent
    omega

theorem exists_shownIn {source : String} (h : source.length < UInt32.size - 1)
    {ls : List (List Char)} (hls : CutIntoLines source.toList ls) {file : Option String} {t : Token}
    (ht : t ∈ tokenize source file) :
    0 < t.start.line.toNat ∧ 0 < t.start.column.toNat ∧
      ∃ l, ls[t.start.line.toNat - 1]? = some l ∧ t.ShownIn l t.start.column.toNat := by
  obtain ⟨k, hk, ⟨hline, hcolumn⟩, hbegins⟩ := exists_beginsAt h ht
  obtain ⟨l, hl, hshows⟩ := hls.shows hk
  rw [hline, hcolumn]
  refine ⟨lineAt_pos _ _, columnAt_pos _ _, l, hl, ?_⟩
  unfold Token.BeginsAt at hbegins
  unfold Token.ShownIn
  split at hbegins
  · next hkind =>
    rw [hbegins] at hshows
    rw [if_pos hkind]
    exact hshows
  · next hkind =>
    obtain ⟨c, hc, hend, hindent, hhead⟩ := hbegins
    rw [hc, Option.any_some, hend] at hshows
    rw [if_neg hkind]
    exact ⟨c, hshows, hhead, hindent⟩

/-! The last two lines of a report. -/

namespace Diagnostic

theorem sourceLine_eq {d : Diagnostic} {source : String} {l : List Char} {ls : List (List Char)}
    (hls : CutIntoLines source.toList ls) (hpos : 0 < d.position.line.toNat)
    (hl : ls[d.position.line.toNat - 1]? = some l) : d.sourceLine source = l := by
  have hn : d.position.line ≠ 0 := by
    intro hzero
    rw [hzero] at hpos
    exact absurd hpos (Nat.lt_irrefl 0)
  have hle : d.position.line.toNat ≤ ls.length := by
    have hlt := (List.getElem?_eq_some_iff.1 hl).1
    omega
  rw [getD_lineAt? hls hn hle] at hl
  exact Option.some.inj hl

theorem caretWidth_eq {d : Diagnostic} {line : List Char}
    (h : (line.takeWhile isIndent).length < d.position.column.toNat) :
    d.caretWidth line = d.position.column.toNat - (line.takeWhile isIndent).length := by
  rw [caretWidth]
  omega

/-- The report ends in two lines. The first holds `line` behind a lead, without its indentation and
without white space at its end. In the second there is one caret, in the place where the first holds
character `column` of `line`, or would hold it. -/
def CaretBelow (report line : List Char) (column : Nat) : Prop :=
  ∃ front lead shown hidden under,
    report = front ++ '\n' :: (lead ++ shown ++ '\n' :: (under ++ ['\n'])) ∧
    '\n' ∉ lead ++ shown ∧ '\n' ∉ under ∧
    line = line.takeWhile isIndent ++ (shown ++ hidden) ∧
    (∀ c ∈ hidden, isWhiteSpace c = true) ∧
    ∀ i, under[i]? = some '^' ↔ i = lead.length + (column - 1 - (line.takeWhile isIndent).length)

theorem getElem?_concat_eq_some_iff {us : List Char} {c : Char} (hc : c ∉ us) {i : Nat} :
    (us ++ [c])[i]? = some c ↔ i = us.length := by
  constructor
  · intro h
    rcases Nat.lt_or_ge i us.length with hlt | hle
    · rw [List.getElem?_append_left hlt] at h
      exact absurd (List.mem_of_getElem? h) hc
    · rw [List.getElem?_append_right hle] at h
      have hlt := (List.getElem?_eq_some_iff.1 h).1
      rw [List.length_singleton] at hlt
      omega
  · rintro rfl
    exact List.getElem?_concat_length

theorem not_mem_toString (n : Nat) : '\n' ∉ (toString n).toList := by
  rw [Nat.toString_eq_repr, Nat.toList_repr]
  intro h
  exact absurd (Nat.isDigit_of_mem_toDigits (by decide) (by decide) h) (by decide)

section

variable (d : Diagnostic) (source : String)

def lead : List Char := (toString d.position.line.toNat).toList ++ " | ".toList

def dashes (width : Nat) : List Char :=
  List.replicate ((toString d.position.line.toNat).length + 1) ' ' ++
    ("| ".toList ++ List.replicate (width - 1) '-')

theorem length_dashes (width : Nat) : (d.dashes width).length = d.lead.length + (width - 1) := by
  simp only [dashes, lead, List.length_append, List.length_replicate, String.length_toList]
  change _ + 1 + (2 + _) = _ + 3 + _
  omega

theorem exists_report_eq :
    ∃ front, (d.report source).toList = front ++ '\n' ::
      (d.lead ++ trimEnd ((d.sourceLine source).dropWhile isIndent) ++ '\n' ::
        (d.dashes (d.caretWidth (d.sourceLine source)) ++ ['^'] ++ ['\n'])) := by
  refine ⟨(d.heading ++ "\n" ++ "-> " ++ d.position.file ++ "\n" ++
    repeated ((toString d.position.line.toNat).length + 1) ' ' ++ "|").toList, ?_⟩
  simp [report, repeated, lead, dashes]

theorem caret_not_mem_dashes (width : Nat) : '^' ∉ d.dashes width ∧ '\n' ∉ d.dashes width := by
  simp [dashes, List.mem_replicate]

theorem caretBelow_report (hline : '\n' ∉ d.sourceLine source)
    (hlt : ((d.sourceLine source).takeWhile isIndent).length < d.position.column.toNat) :
    CaretBelow (d.report source).toList (d.sourceLine source) d.position.column.toNat := by
  obtain ⟨front, hreport⟩ := d.exists_report_eq source
  obtain ⟨hidden, hshown, hwhite⟩ :=
    exists_trimEnd_append ((d.sourceLine source).dropWhile isIndent)
  obtain ⟨hcaret, hdashes⟩ := d.caret_not_mem_dashes (d.caretWidth (d.sourceLine source))
  have hwidth := caretWidth_eq hlt
  have hsplit : d.sourceLine source = (d.sourceLine source).takeWhile isIndent ++
      (trimEnd ((d.sourceLine source).dropWhile isIndent) ++ hidden) := by
    rw [← hshown, List.takeWhile_append_dropWhile]
  refine ⟨front, d.lead, _, hidden, _, hreport, ?_, ?_, hsplit, hwhite, fun i => ?_⟩
  · rw [List.mem_append, not_or]
    refine ⟨?_, fun hmem => hline ?_⟩
    · rw [lead, List.mem_append, not_or]
      exact ⟨not_mem_toString _, by decide⟩
    · rw [hsplit]
      exact List.mem_append_right _ (List.mem_append_left _ hmem)
  · rw [List.mem_append, not_or]
    exact ⟨hdashes, by decide⟩
  · rw [getElem?_concat_eq_some_iff hcaret, length_dashes, hwidth]
    omega

end

end Diagnostic

/-- The caret of a report stands below the token that the diagnostic is at. For every diagnostic of
a source of fewer than `2 ^ 32 - 1` characters, the column is behind the indentation of the line, so
the caret is just as far to the right as it is from there to the column, and the report is displayed
if that is not too far. The character in that column is the one that the token begins with, or the
line is over before it, if the token is a line end or the end of input. -/
theorem caret_below_token (source : String) (file : Option String)
    (h : source.length < UInt32.size - 1) :
    ∀ d ∈ (parse source file).diagnostics,
      let line := d.sourceLine source
      let indent := (line.takeWhile isIndent).length
      let column := d.position.column.toNat
      indent < column ∧ d.caretWidth line = column - indent ∧
        (column - indent ≤ 65535 → d.report? source = some (d.report source)) ∧
        Diagnostic.CaretBelow (d.report source).toList line column ∧
        ∃ t ∈ tokenize source file, t.start = d.position ∧
          (∀ u ∈ tokenize source file, u.start = d.position → u = t) ∧ t.ShownIn line column := by
  intro d hd line indent column
  obtain ⟨t, ht, hposition, -⟩ := (trail_parse source file).exists_mem hd
  obtain ⟨ls, hls⟩ := exists_cutIntoLines source.toList
  obtain ⟨hpos, hcolumn, l, hl, hshown⟩ := exists_shownIn h hls ht
  rw [← hposition] at hpos hcolumn hl hshown
  obtain rfl := Diagnostic.sourceLine_eq hls hpos hl
  have hindent := hshown.indent_lt hcolumn
  have hfeed := (not_mem_of_line (hls.isLineEnd_of_mem (List.mem_of_getElem? hl))).1
  have hwidth := Diagnostic.caretWidth_eq hindent
  refine ⟨hindent, hwidth, fun hfits => ?_, d.caretBelow_report source hfeed hindent,
    t, ht, hposition.symm, fun u hu hstart => ?_, hshown⟩
  · exact if_pos (hwidth.trans_le hfits)
  · exact eq_of_start_eq (pairwise_tokenize h) hu ht (hstart.trans hposition)

/-- Behind a comment over two lines and a lone carriage return, an indented line with a token that
is wrong there, and a line that is over too early. -/
theorem caret_below_token_indented :
    let source := "--[[\r]] x = 1\r\t y = = 2 \t\rz = \r\n"
    let d : Diagnostic := ⟨.noExpression .assign "=", ⟨3, 7, "shell"⟩⟩
    let e : Diagnostic := ⟨.noExpression .newline "", ⟨4, 5, "shell"⟩⟩
    source.length < UInt32.size - 1 ∧ (parse source none).diagnostics = [d, e] ∧
      d.report source = "Error: NoPrefixRule (`=` cannot start an expression)\n" ++
        "-> shell\n  |\n3 | y = = 2\n  | ----^\n" ∧
      e.report source = "Error: NoPrefixRule\n-> shell\n  |\n4 | z =\n  | ----^\n" ∧
      Diagnostic.CaretBelow (d.report source).toList "\t y = = 2 \t".toList 7 ∧
      Diagnostic.CaretBelow (e.report source).toList "z = ".toList 5 := by
  intro source d e
  have hlength : source.length < UInt32.size - 1 := by decide
  have hparse : (parse source none).diagnostics = [d, e] := by decide +kernel
  have hbelow := caret_below_token source none hlength
  rw [hparse, List.forall_mem_cons, List.forall_mem_singleton] at hbelow
  have hd : d.sourceLine source = "\t y = = 2 \t".toList := by decide +kernel
  have he : e.sourceLine source = "z = ".toList := by decide +kernel
  obtain ⟨⟨-, -, -, hfirst, -⟩, ⟨-, -, -, hlast, -⟩⟩ := hbelow
  rw [hd] at hfirst
  rw [he] at hlast
  exact ⟨hlength, hparse, by decide +kernel, by decide +kernel, hfirst, hlast⟩

end LuaSyntax
