import Mathlib.Data.List.Basic
import LuaSyntax.Proofs.Places
import LuaSyntax.Text

/-! The lines that reports quote and the lines that the scanner counts. The text is cut at line
feeds first and at carriage returns afterwards, while the scanner looks one character ahead; both
find the same lines, in any mixture of the two characters. -/

namespace LuaSyntax.Text

open Lexeme

def IsLineBreak (rest text : List Char) : Prop :=
  text = ['\n'] ∨ text = ['\r', '\n'] ∨ text = ['\r'] ∧ rest.head? ≠ some '\n'

/-- The text consists of the lines, each of them but the last followed by a line break. -/
inductive CutIntoLines : List Char → List (List Char) → Prop
  | last {l} (hl : ∀ c ∈ l, isLineEnd c = false) : CutIntoLines l [l]
  | line {l e cs ls} (hl : ∀ c ∈ l, isLineEnd c = false) (he : IsLineBreak cs e)
      (h : CutIntoLines cs ls) : CutIntoLines (l ++ (e ++ cs)) (l :: ls)

theorem exists_isLineBreak {c : Char} (hc : isLineEnd c = true) (cs : List Char) :
    ∃ e rest, c :: cs = e ++ rest ∧ IsLineBreak rest e ∧ rest.length < (c :: cs).length := by
  have hc : c = '\n' ∨ c = '\r' := by simpa [isLineEnd] using hc
  rcases hc with rfl | rfl
  · exact ⟨['\n'], cs, rfl, .inl rfl, Nat.lt_succ_self _⟩
  by_cases hhead : cs.head? = some '\n'
  · obtain ⟨rest, rfl⟩ := List.head?_eq_some_iff.1 hhead
    exact ⟨['\r', '\n'], rest, rfl, .inr (.inl rfl), Nat.lt_add_of_pos_right (Nat.succ_pos 1)⟩
  · exact ⟨['\r'], cs, rfl, .inr (.inr ⟨rfl, hhead⟩), Nat.lt_succ_self _⟩

theorem exists_cutIntoLines (cs : List Char) : ∃ ls, CutIntoLines cs ls := by
  have hl : ∀ c ∈ cs.takeWhile (!isLineEnd ·), isLineEnd c = false := by
    intro c hc
    simpa using List.all_eq_true.1 (List.all_takeWhile (p := (!isLineEnd ·)) (l := cs)) c hc
  have happend := List.takeWhile_append_dropWhile (p := (!isLineEnd ·)) (l := cs)
  have hhead := List.head?_dropWhile_not (!isLineEnd ·) cs
  cases hrest : cs.dropWhile (!isLineEnd ·) with
  | nil =>
    rw [hrest, List.append_nil] at happend
    exact ⟨_, .last (happend ▸ hl)⟩
  | cons d ds =>
    rw [hrest] at happend hhead
    have hd : isLineEnd d = true := by simpa using hhead
    obtain ⟨e, rest, heq, he, hlt⟩ := exists_isLineBreak hd ds
    have hshorter : rest.length < cs.length := by
      rw [← happend, List.length_append]
      omega
    obtain ⟨ls, hls⟩ := exists_cutIntoLines rest
    rw [← happend, heq]
    exact ⟨_, .line hl he hls⟩
termination_by cs.length

/-! The lines by pieces. -/

theorem pieces_append {sep : Char} {l : List Char} (hl : sep ∉ l) {cs p : List Char}
    {ps : List (List Char)} (h : pieces sep cs = p :: ps) :
    pieces sep (l ++ cs) = (l ++ p) :: ps := by
  induction l with
  | nil => exact h
  | cons c l ih =>
    obtain ⟨hc, hl⟩ := not_or.1 (mt List.mem_cons.2 hl)
    rw [List.cons_append, pieces, if_neg (Ne.symm hc), ih hl]
    rfl

theorem pieces_append_sep {sep : Char} {l : List Char} (hl : sep ∉ l) (cs : List Char) :
    pieces sep (l ++ sep :: cs) = l :: pieces sep cs := by
  have hsep : pieces sep (sep :: cs) = [] :: pieces sep cs := by rw [pieces, if_pos rfl]
  rw [pieces_append hl hsep, List.append_nil]

theorem pieces_of_not_mem {sep : Char} {l : List Char} (hl : sep ∉ l) : pieces sep l = [l] := by
  have hnil : pieces sep [] = [[]] := rfl
  have happend := pieces_append hl hnil
  rwa [List.append_nil] at happend

theorem dropReturn_append_cons (front : List Char) (c : Char) (cs : List Char) :
    dropReturn (front ++ c :: cs) = front ++ dropReturn (c :: cs) := by
  unfold dropReturn
  rw [List.getLast?_append_cons, List.dropLast_append_cons]
  split <;> rfl

theorem dropReturn_concat (l : List Char) : dropReturn (l ++ ['\r']) = l := by
  rw [dropReturn_append_cons]
  exact List.append_nil l

theorem dropReturn_of_not_mem {l : List Char} (hl : '\r' ∉ l) : dropReturn l = l := by
  unfold dropReturn
  rw [if_neg]
  exact fun hlast => hl (List.mem_of_getLast? hlast)

theorem lines_of_piece {p : List Char} (hp : '\n' ∉ p) (cs : List Char) :
    lines (p ++ '\n' :: cs) = pieces '\r' (dropReturn p) ++ lines cs := by
  rw [lines, pieces_append_sep hp, List.flatMap_cons]
  rfl

section

variable {l : List Char} (hl : ∀ c ∈ l, isLineEnd c = false)
include hl

theorem not_mem_of_line : '\n' ∉ l ∧ '\r' ∉ l := by
  constructor <;> (intro h; cases hl _ h)

theorem lines_of_line : lines l = [l] := by
  obtain ⟨hfeed, hreturn⟩ := not_mem_of_line hl
  rw [lines, pieces_of_not_mem hfeed, List.flatMap_singleton, dropReturn_of_not_mem hreturn,
    pieces_of_not_mem hreturn]

theorem lines_feed (cs : List Char) : lines (l ++ '\n' :: cs) = l :: lines cs := by
  obtain ⟨hfeed, hreturn⟩ := not_mem_of_line hl
  rw [lines_of_piece hfeed, dropReturn_of_not_mem hreturn, pieces_of_not_mem hreturn]
  rfl

theorem lines_pair (cs : List Char) : lines (l ++ '\r' :: '\n' :: cs) = l :: lines cs := by
  obtain ⟨hfeed, hreturn⟩ := not_mem_of_line hl
  have hpiece : '\n' ∉ l ++ ['\r'] := by simp [hfeed]
  rw [List.append_cons, lines_of_piece hpiece, dropReturn_concat, pieces_of_not_mem hreturn]
  rfl

theorem lines_return {c : Char} (hc : c ≠ '\n') (cs : List Char) :
    lines (l ++ '\r' :: c :: cs) = l :: lines (c :: cs) := by
  obtain ⟨hfeed, hreturn⟩ := not_mem_of_line hl
  obtain ⟨p, ps, hps⟩ := List.exists_cons_of_ne_nil (pieces_ne_nil '\n' cs)
  have hpieces : pieces '\n' (c :: cs) = (c :: p) :: ps := by
    rw [pieces, if_neg hc, hps]
  have hpiece : '\n' ∉ l ++ ['\r'] := by simp [hfeed]
  rw [List.append_cons, lines, lines, pieces_append hpiece hpieces, hpieces, List.flatMap_cons,
    List.flatMap_cons, dropReturn_append_cons, List.append_assoc, List.singleton_append,
    pieces_append_sep hreturn]
  rfl

theorem lines_return_nil : lines (l ++ ['\r']) = [l] := by
  obtain ⟨hfeed, hreturn⟩ := not_mem_of_line hl
  have hpiece : '\n' ∉ l ++ ['\r'] := by simp [hfeed]
  rw [lines, pieces_of_not_mem hpiece, List.flatMap_singleton, dropReturn_concat,
    pieces_of_not_mem hreturn]

end

/-- The line that a carriage return opens at the very end of a text. -/
def openedLine (cs : List Char) : List (List Char) :=
  if cs.getLast? = some '\r' then [[]] else []

theorem openedLine_append_cons (front : List Char) (c : Char) (cs : List Char) :
    openedLine (front ++ c :: cs) = openedLine (c :: cs) := by
  rw [openedLine, openedLine, List.getLast?_append_cons]

theorem openedLine_feed (front cs : List Char) :
    openedLine (front ++ '\n' :: cs) = openedLine cs := by
  rw [openedLine_append_cons]
  cases cs with
  | nil => rfl
  | cons c cs => exact openedLine_append_cons ['\n'] c cs

theorem CutIntoLines.eq_lines {cs : List Char} {ls : List (List Char)} (h : CutIntoLines cs ls) :
    ls = lines cs ++ openedLine cs := by
  induction h with
  | @last l hl =>
    have hlast : ¬l.getLast? = some '\r' :=
      fun hlast => (not_mem_of_line hl).2 (List.mem_of_getLast? hlast)
    rw [lines_of_line hl, openedLine, if_neg hlast]
    rfl
  | @line l e cs ls hl he _ ih =>
    rw [ih, ← List.cons_append]
    rcases he with rfl | rfl | ⟨rfl, hcs⟩
    · rw [List.singleton_append, lines_feed hl, openedLine_feed]
    · have hpair : ['\r', '\n'] ++ cs = '\r' :: '\n' :: cs := rfl
      rw [hpair, lines_pair hl, List.append_cons l '\r', openedLine_feed]
    · rw [List.singleton_append]
      cases cs with
      | nil =>
        rw [lines_return_nil hl, openedLine_append_cons]
        rfl
      | cons c cs =>
        have hc : c ≠ '\n' := fun hc => hcs (congrArg some hc)
        rw [lines_return hl hc, List.append_cons l '\r', openedLine_append_cons]

/-! The lines by count. -/

theorem lineAt_cons_succ (c : Char) (cs : List Char) (k : Nat) :
    lineAt (c :: cs) (k + 1) = lineAt cs k + if Position.breaksLine c cs.head? then 1 else 0 := by
  have hfirst : completesLine (c :: cs) 0 = Position.breaksLine c cs.head? := by
    rw [completesLine_eq (c := c) rfl, List.getElem?_cons_succ, ← List.head?_eq_getElem?]
  have hmore : completesLine (c :: cs) ∘ Nat.succ = completesLine cs := rfl
  rw [lineAt, lineAt, List.range_succ_eq_map, List.countP_cons, List.countP_map, hmore, hfirst,
    Nat.add_assoc]

theorem breaksLine_of_not_isLineEnd {c : Char} (h : isLineEnd c = false) (next : Option Char) :
    Position.breaksLine c next = false := by
  obtain ⟨hfeed, hreturn⟩ := Bool.or_eq_false_iff.1 h
  simp [Position.breaksLine, hfeed, hreturn]

theorem lineAt_append_line {l : List Char} (hl : ∀ c ∈ l, isLineEnd c = false) (cs : List Char) :
    lineAt (l ++ cs) (l ++ cs).length = lineAt cs cs.length := by
  induction l with
  | nil => rfl
  | cons c l ih =>
    obtain ⟨hc, hl⟩ := List.forall_mem_cons.1 hl
    rw [List.cons_append, List.length_cons, lineAt_cons_succ, breaksLine_of_not_isLineEnd hc, ih hl]
    rfl

theorem lineAt_append_break {cs e : List Char} (he : IsLineBreak cs e) :
    lineAt (e ++ cs) (e ++ cs).length = lineAt cs cs.length + 1 := by
  rcases he with rfl | rfl | ⟨rfl, hcs⟩
  · exact lineAt_cons_succ '\n' cs _
  · rw [List.cons_append, List.length_cons, lineAt_cons_succ]
    exact lineAt_cons_succ '\n' cs _
  · have hbreaks : Position.breaksLine '\r' cs.head? = true := by
      simp [Position.breaksLine, hcs]
    rw [List.singleton_append, List.length_cons, lineAt_cons_succ, hbreaks, if_pos rfl]

theorem CutIntoLines.length_eq {cs : List Char} {ls : List (List Char)} (h : CutIntoLines cs ls) :
    ls.length = lineAt cs cs.length := by
  induction h with
  | @last l hl =>
    have hcount := lineAt_append_line hl []
    rw [List.append_nil] at hcount
    exact hcount.symm
  | line hl he _ ih => rw [lineAt_append_line hl, lineAt_append_break he, List.length_cons, ih]

theorem lineAt_mono (cs : List Char) : Monotone (lineAt cs) := by
  apply monotone_nat_of_le_succ
  intro k
  rw [lineAt_succ]
  exact Nat.le_add_right _ _

theorem exists_isAt_start {source : String} (h : source.length < UInt32.size - 1)
    {file : Option String} {t : Token} (ht : t ∈ tokenize source file) :
    ∃ k, k ≤ source.toList.length ∧ t.start.IsAt source.toList k := by
  rcases List.mem_append.1 ht with ht | ht
  · obtain ⟨i, j, -, hlies⟩ := (tiled_scan source file).exists_at ht
    have hle := hlies.2.1
    have hlt := hlies.1
    exact ⟨i, by omega, (hlies.spans h).1⟩
  · rw [List.mem_singleton.1 ht]
    exact ⟨_, Nat.le_of_eq String.length_toList.symm, isAt_stop h⟩

/-! The lines as they are quoted. -/

section

variable {content : String} {ls : List (List Char)} (h : CutIntoLines content.toList ls)
  {n : UInt32}
include h

theorem lineAt?_of_cut :
    lineAt? content n =
      if n = 0 ∨ content.toList.getLast? = some '\r' ∧ n.toNat = ls.length then none
      else (ls[n.toNat - 1]?).map String.ofList := by
  have hls := h.eq_lines
  rw [lineAt?]
  by_cases hn : n = 0
  · rw [if_pos hn, if_pos (.inl hn)]
  have hpos : n.toNat ≠ 0 := fun hzero => hn (UInt32.toNat_inj.1 hzero)
  rw [if_neg hn]
  by_cases hlast : content.toList.getLast? = some '\r'
  · rw [openedLine, if_pos hlast] at hls
    by_cases hend : n.toNat = ls.length
    · have hover : (lines content.toList).length ≤ n.toNat - 1 := by
        rw [hend, hls, List.length_append]
        exact Nat.le_refl _
      rw [if_pos (.inr ⟨hlast, hend⟩), List.getElem?_eq_none hover]
      rfl
    · have hindex : (lines content.toList)[n.toNat - 1]? = ls[n.toNat - 1]? := by
        rw [hls, List.length_append, List.length_singleton] at hend
        rw [hls, List.getElem?_append]
        split
        · rfl
        · rw [List.getElem?_eq_none (by omega), List.getElem?_eq_none (by simp; omega)]
      rw [if_neg (not_or.2 ⟨hn, fun hboth => hend hboth.2⟩), hindex]
  · rw [openedLine, if_neg hlast, List.append_nil] at hls
    rw [if_neg (not_or.2 ⟨hn, fun hboth => hlast hboth.1⟩), hls]

theorem getD_lineAt? (hn : n ≠ 0) (hle : n.toNat ≤ ls.length) :
    ls[n.toNat - 1]? = some ((lineAt? content n).getD "").toList := by
  have hpos : n.toNat ≠ 0 := fun hzero => hn (UInt32.toNat_inj.1 hzero)
  have hindex : n.toNat - 1 < ls.length := by omega
  rw [lineAt?_of_cut h]
  split
  · next hnone =>
    obtain ⟨hlast, hend⟩ := hnone.resolve_left hn
    have hls := h.eq_lines
    rw [openedLine, if_pos hlast] at hls
    have hfront : n.toNat - 1 = (lines content.toList).length := by
      rw [hend, hls, List.length_append]
      rfl
    rw [hfront, hls, List.getElem?_concat_length]
    rfl
  · rw [List.getElem?_eq_getElem hindex]
    exact congrArg some String.toList_ofList.symm

end

/-- A source has one way to be cut into lines at line feeds, at carriage returns, and at both
together, and into as many as the scanner counts. Line `n` of a report is the one of that number;
only an empty line behind a carriage return at the very end is missing, and then the empty text
stands for it. Every token is on one of the lines. -/
theorem lineAt?_eq_line (content : String) (file : Option String) :
    ∃ ls, CutIntoLines content.toList ls ∧ (∀ ls', CutIntoLines content.toList ls' → ls' = ls) ∧
      ls.length = lineAt content.toList content.length ∧
      (∀ n : UInt32, lineAt? content n =
        if n = 0 ∨ content.toList.getLast? = some '\r' ∧ n.toNat = ls.length then none
        else (ls[n.toNat - 1]?).map String.ofList) ∧
      (∀ n : UInt32, n ≠ 0 → n.toNat ≤ ls.length →
        ls[n.toNat - 1]? = some ((lineAt? content n).getD "").toList) ∧
      (content.length < UInt32.size - 1 →
        ∀ t ∈ tokenize content file, t.start.line ≠ 0 ∧ t.start.line.toNat ≤ ls.length) := by
  obtain ⟨ls, hls⟩ := exists_cutIntoLines content.toList
  have hlength := hls.length_eq
  rw [String.length_toList] at hlength
  refine ⟨ls, hls, fun ls' hls' => hls'.eq_lines.trans hls.eq_lines.symm, hlength,
    fun n => lineAt?_of_cut hls, fun n => getD_lineAt? hls, fun hsize t ht => ?_⟩
  obtain ⟨k, hk, hat⟩ := exists_isAt_start hsize ht
  have hle := lineAt_mono content.toList hk
  have hpos : t.start.line.toNat ≠ 0 := by
    rw [hat.1, lineAt]
    omega
  refine ⟨fun hzero => hpos (congrArg UInt32.toNat hzero), ?_⟩
  rw [hat.1, hls.length_eq]
  exact hle

example : (List.range 8).map (lineAt? "a\r\r\nb\n\rc\r" ·.toUInt32) =
    [none, some "a", some "", some "b", some "", some "c", none, none] := by decide +kernel

end LuaSyntax.Text
