import Mathlib.Data.Prod.Lex
import LuaSyntax.Proofs.Tiling

/-! Lines and columns counted in the text itself, and the places of tokens by that count. The
places of a text increase, so tokens stand in their order and apart from each other. -/

namespace LuaSyntax

/-- Whether a line is complete with character `i`: with a line feed, and with a carriage return
that no line feed follows. -/
def completesLine (cs : List Char) (i : Nat) : Bool :=
  cs[i]? == some '\n' || (cs[i]? == some '\r' && cs[i + 1]? != some '\n')

def lineAt (cs : List Char) (k : Nat) : Nat := 1 + (List.range k).countP (completesLine cs)

/-- The column behind the first `k` characters: one more than the characters since the last of
them that completes a line. -/
def columnAt (cs : List Char) (k : Nat) : Nat :=
  1 + ((List.range k).reverse.takeWhile (!completesLine cs ·)).length

namespace Position

def key (p : Position) : ℕ ×ₗ ℕ := toLex (p.line.toNat, p.column.toNat)

def IsAt (p : Position) (source : List Char) (k : Nat) : Prop :=
  p.line.toNat = lineAt source k ∧ p.column.toNat = columnAt source k

end Position

def Token.Spans (source : List Char) (t : Token) (i j : Nat) : Prop :=
  t.span.start.IsAt source i ∧ t.span.stop.IsAt source j

def Token.Precedes (t u : Token) : Prop :=
  t.start.key < u.start.key ∧ t.span.stop.key ≤ u.start.key

theorem lineAt_succ (cs : List Char) (k : Nat) :
    lineAt cs (k + 1) = lineAt cs k + if completesLine cs k then 1 else 0 := by
  simp [lineAt, List.range_succ, List.countP_append, List.countP_singleton, Nat.add_assoc]

theorem columnAt_succ (cs : List Char) (k : Nat) :
    columnAt cs (k + 1) = if completesLine cs k then 1 else columnAt cs k + 1 := by
  simp only [columnAt, List.range_succ, List.reverse_append, List.reverse_singleton,
    List.singleton_append, List.takeWhile_cons]
  cases completesLine cs k with
  | false => simp [Nat.add_assoc]
  | true => simp

theorem lineAt_le (cs : List Char) (k : Nat) : lineAt cs k ≤ k + 1 := by
  have hcount := List.countP_le_length (p := completesLine cs) (l := List.range k)
  rw [List.length_range] at hcount
  rw [lineAt]
  omega

theorem columnAt_le (cs : List Char) (k : Nat) : columnAt cs k ≤ k + 1 := by
  have hsublist := List.takeWhile_sublist (!completesLine cs ·) (l := (List.range k).reverse)
  have hlen := hsublist.length_le
  rw [List.length_reverse, List.length_range] at hlen
  rw [columnAt]
  omega

theorem strictMono_place (cs : List Char) :
    StrictMono fun k => toLex (lineAt cs k, columnAt cs k) := by
  apply strictMono_nat_of_lt_succ
  intro k
  rw [Prod.Lex.toLex_lt_toLex, lineAt_succ, columnAt_succ]
  cases completesLine cs k with
  | false => exact .inr ⟨rfl, Nat.lt_succ_self _⟩
  | true => exact .inl (Nat.lt_succ_self _)

theorem completesLine_eq {cs : List Char} {k : Nat} {c : Char} (h : cs[k]? = some c) :
    completesLine cs k = Position.breaksLine c cs[k + 1]? := by
  simp [completesLine, Position.breaksLine, h]

theorem placeOf_succ {source : List Char} {k : Nat} {c : Char} (h : source[k]? = some c)
    (file : String) :
    placeOf source file (k + 1) = (placeOf source file k).step c source[k + 1]? := by
  obtain ⟨hk, rfl⟩ := List.getElem?_eq_some_iff.1 h
  have hsplit : source.take k ++ ([source[k]] ++ source.drop (k + 1)) = source := by
    rw [List.singleton_append, List.getElem_cons_drop, List.take_append_drop]
  have happend := placeOf_append (source.take k) [source[k]] (source.drop (k + 1)) file
  rw [hsplit, List.length_take_of_le hk.le, List.head?_drop] at happend
  exact happend.symm

/-- The scanner counts lines and columns as they are in the text, up to the size of a word. -/
theorem placeOf_eq (source : List Char) (file : String) {k : Nat} (hk : k ≤ source.length) :
    placeOf source file k = ⟨.ofNat (lineAt source k), .ofNat (columnAt source k), file⟩ := by
  induction k with
  | zero => rfl
  | succ k ih =>
    have hc : source[k]? = some source[k] := List.getElem?_eq_getElem hk
    rw [placeOf_succ hc, ih (by omega), Position.step, ← completesLine_eq hc, lineAt_succ,
      columnAt_succ]
    cases completesLine source k with
    | false => simp [UInt32.ofNat_add]
    | true => simp [UInt32.ofNat_add]

theorem isAt_placeOf {source : List Char} (h : source.length < UInt32.size - 1) (file : String)
    {k : Nat} (hk : k ≤ source.length) : (placeOf source file k).IsAt source k := by
  have hline := lineAt_le source k
  have hcolumn := columnAt_le source k
  rw [placeOf_eq source file hk]
  constructor
  · exact UInt32.toNat_ofNat_of_lt' (by omega)
  · exact UInt32.toNat_ofNat_of_lt' (by omega)

theorem Position.IsAt.key_eq {p : Position} {source : List Char} {k : Nat} (h : p.IsAt source k) :
    p.key = toLex (lineAt source k, columnAt source k) := by
  rw [Position.key, h.1, h.2]

theorem stop_ofLexemes (p : Position) (cs : List Char) :
    (Scanned.ofLexemes p (lexemes cs)).stop = p.after cs none := by
  fun_induction lexemes cs generalizing p with
  | case1 => rfl
  | case2 c cs cut ih =>
    have hcut : cut.1.text ++ cut.2 = c :: cs := Lexeme.first_append c cs
    rw [Scanned.stop_cons, ih, Scanned.placeAfter, head?_lexemes, ← hcut, Position.after_append,
      Option.or_none]

theorem stop_scan (source : String) (file : Option String) :
    (scan source file).stop = placeOf source.toList (file.getD defaultName) source.length := by
  rw [scan, scanChars, stop_ofLexemes, placeOf, ← String.length_toList, List.take_length,
    List.drop_length]
  rfl

theorem Tiled.exists_at {At : Token → Nat → Nat → Prop} {k : Nat} {cs : List Char}
    {ts : List Token} (h : Tiled At k cs ts) {t : Token} (ht : t ∈ ts) :
    ∃ i j, k ≤ i ∧ At t i j := by
  induction h with
  | gap hv => cases ht
  | token hv htext hat hts ih =>
    rcases List.mem_cons.1 ht with rfl | ht
    · exact ⟨_, _, Nat.le_add_right _ _, hat⟩
    · obtain ⟨i, j, hi, h⟩ := ih ht
      exact ⟨i, j, by omega, h⟩

theorem Tiled.pairwise {At : Token → Nat → Nat → Prop} {k : Nat} {cs : List Char}
    {ts : List Token} (h : Tiled At k cs ts) :
    ts.Pairwise fun t u => ∃ i j, At t i j ∧ ∃ i' j', At u i' j' ∧ j ≤ i' := by
  induction h with
  | gap hv => exact .nil
  | token hv htext hat hts ih =>
    refine .cons (fun u hu => ?_) ih
    obtain ⟨i, j, hi, h⟩ := hts.exists_at hu
    exact ⟨_, _, hat, i, j, h, hi⟩

section

variable {source : String} (h : source.length < UInt32.size - 1) {file : Option String}
include h

theorem Token.Lies.spans {t : Token} {i j : Nat}
    (ht : t.Lies source.toList (file.getD defaultName) i j) : t.Spans source.toList i j := by
  obtain ⟨hij, hj, hspan⟩ := ht
  rw [← String.length_toList] at h
  rw [Token.Spans, hspan]
  exact ⟨isAt_placeOf h _ (by omega), isAt_placeOf h _ hj⟩

theorem isAt_stop : (scan source file).stop.IsAt source.toList source.length := by
  rw [← String.length_toList] at h
  rw [stop_scan, ← String.length_toList]
  exact isAt_placeOf h _ (Nat.le_refl _)

theorem precedes_of_lies {t u : Token} {i j i' j' : Nat}
    (ht : t.Lies source.toList (file.getD defaultName) i j)
    (hu : u.Lies source.toList (file.getD defaultName) i' j') (hle : j ≤ i') : t.Precedes u := by
  have hmono := strictMono_place source.toList
  obtain ⟨htstart, htstop⟩ := ht.spans h
  obtain ⟨hustart, -⟩ := hu.spans h
  rw [Token.Precedes, Token.start, Token.start, htstart.key_eq, htstop.key_eq, hustart.key_eq]
  exact ⟨hmono (by have := ht.1; omega), hmono.monotone hle⟩

theorem precedes_eof {t : Token} {i j : Nat}
    (ht : t.Lies source.toList (file.getD defaultName) i j) :
    t.Precedes (Token.eof (scan source file).stop) := by
  have hmono := strictMono_place source.toList
  obtain ⟨hstart, hstop⟩ := ht.spans h
  have hj := ht.2.1
  rw [String.length_toList] at hj
  rw [Token.Precedes, Token.start, Token.eof_start, hstart.key_eq, hstop.key_eq,
    (isAt_stop h).key_eq]
  exact ⟨hmono (Nat.lt_of_lt_of_le ht.1 hj), hmono.monotone hj⟩

theorem pairwise_tokenize : (tokenize source file).Pairwise Token.Precedes := by
  have htiled := tiled_scan source file
  rw [tokenize, Scanned.toList, List.pairwise_append]
  refine ⟨htiled.pairwise.imp ?_, List.pairwise_singleton _ _, ?_⟩
  · rintro t u ⟨i, j, ht, i', j', hu, hle⟩
    exact precedes_of_lies h ht hu hle
  · intro t ht u hu
    obtain ⟨i, j, -, hlies⟩ := htiled.exists_at ht
    rw [List.mem_singleton.1 hu]
    exact precedes_eof h hlies

end

/-- In a source of fewer than `2 ^ 32 - 1` characters, every token lies where its text does and the
end of input where the source ends. So tokens stand one behind the other. -/
theorem tokenize_places (source : String) (file : Option String)
    (h : source.length < UInt32.size - 1) :
    Tiled (Token.Spans source.toList) 0 source.toList (tokenize source file).dropLast ∧
      (∃ e, (tokenize source file).getLast? = some e ∧ e.kind = .endOfInput ∧
        e.Spans source.toList source.length source.length) ∧
      (tokenize source file).Pairwise Token.Precedes := by
  refine ⟨?_, ⟨Token.eof (scan source file).stop, ?_, rfl, ?_⟩, pairwise_tokenize h⟩
  · rw [dropLast_tokenize]
    exact (tiled_scan source file).mono fun t i j ht => ht.spans h
  · rw [tokenize, Scanned.toList, List.getLast?_append, List.getLast?_singleton, Option.some_or]
  · exact ⟨isAt_stop h, isAt_stop h⟩

theorem tokenize_places_mixed :
    Tiled (Token.Spans "'\\\r\n'--[[\r]]\n\rx".toList) 0 "'\\\r\n'--[[\r]]\n\rx".toList
        (tokenize "'\\\r\n'--[[\r]]\n\rx" none).dropLast ∧
      (∃ e, (tokenize "'\\\r\n'--[[\r]]\n\rx" none).getLast? = some e ∧ e.kind = .endOfInput ∧
        e.Spans "'\\\r\n'--[[\r]]\n\rx".toList "'\\\r\n'--[[\r]]\n\rx".length
          "'\\\r\n'--[[\r]]\n\rx".length) ∧
      (tokenize "'\\\r\n'--[[\r]]\n\rx" none).Pairwise Token.Precedes :=
  tokenize_places _ none (by decide)

end LuaSyntax
