import LuaSyntax.Proofs.Completeness
import LuaSyntax.Proofs.Lexicon

/-! Spellings of string values. A character can be written as it is, by a short escape or by its
code, and all of these may be mixed. Whatever the spelling, the scanner takes the literal for one
token and the value is read back. -/

namespace LuaSyntax

namespace Escape

open Text Lexeme

def shortForms : List (Char × Char) :=
  [('n', '\n'), ('t', '\t'), ('r', '\r'), ('a', '\x07'), ('b', '\x08'), ('f', '\x0c'),
    ('v', '\x0b'), ('\\', '\\'), ('"', '"'), ('\x27', '\x27'), ('\n', '\n')]

def Ended (p : Char → Bool) (rest : List Char) : Prop := ∀ c ∈ rest.head?, p c = false

/-- The last argument spells the character `c` between quotes, before `rest`. A code with fewer
digits than it may have is followed by something else than a digit. -/
inductive SpellsChar (quote c : Char) (rest : List Char) : List Char → Prop
  | plain (hc : c ∉ [quote, '\\', '\n', '\r']) : SpellsChar quote c rest [c]
  | short {e} (he : (e, c) ∈ shortForms) : SpellsChar quote c rest ['\\', e]
  | hex {ds} (hds : isHexDigits ds = true) (hlen : ds.length ≤ 2) (hc : c.toNat = ofDigits 16 ds)
      (hend : ds.length < 2 → Ended isHexDigit rest) : SpellsChar quote c rest ('\\' :: 'x' :: ds)
  | decimal {ds} (hds : isDigits ds = true) (hlen : ds.length ≤ 3) (hc : c.toNat = ofDigits 10 ds)
      (hcode : c.toNat ≤ 255) (hend : ds.length < 3 → Ended isDigit rest) :
      SpellsChar quote c rest ('\\' :: ds)

inductive Spells (quote : Char) : List Char → List Char → Prop
  | nil : Spells quote [] []
  | cons {c cs text rest} (hc : SpellsChar quote c rest text) (hcs : Spells quote cs rest) :
      Spells quote (c :: cs) (text ++ rest)

def literal (quote : Char) (text : List Char) : String :=
  String.ofList (quote :: (text ++ [quote]))

/-! Decoding a spelling. -/

theorem single?_of_mem_shortForms {e c : Char} (h : (e, c) ∈ shortForms) : single? e = some c := by
  have hall : ∀ p ∈ shortForms, single? p.1 = some p.2 := by decide
  exact hall (e, c) h

theorem single?_of_isDigit {d : Char} (h : isDigit d = true) : single? d = none := by
  unfold single?
  split <;> first | rfl | exact absurd h (by decide)

theorem ne_of_isDigit {d e : Char} (h : isDigit d = true) (he : isDigit e = false) : d ≠ e := by
  rintro rfl
  rw [h] at he
  cases he

theorem takeWhile_take_append {p : Char → Bool} {n : Nat} {ds rest : List Char}
    (hds : ∀ d ∈ ds, p d = true) (hlen : ds.length ≤ n)
    (hend : ds.length < n → Ended p rest) : ((ds ++ rest).take n).takeWhile p = ds := by
  have htake : (ds ++ rest).take n = ds ++ rest.take (n - ds.length) := by
    rw [List.take_append, List.take_of_length_le hlen]
  have hbehind : ∀ c ∈ (rest.take (n - ds.length)).head?, p c = false := by
    intro c hc
    rw [List.head?_take] at hc
    split at hc
    · cases hc
    · exact hend (by omega) c hc
  rw [htake]
  exact (span_append hds hbehind).1

theorem decodeBody_plain {c : Char} (h : c ≠ '\\') (rest : List Char) :
    decodeBody (c :: rest) = c :: decodeBody rest := by
  rw [decodeBody.eq_def]
  exact if_neg h

theorem decodeBody_escape (d : Char) (rest : List Char) :
    decodeBody ('\\' :: d :: rest) =
      (escape d rest).1 ++ decodeBody (rest.drop (escape d rest).2) := by
  rw [decodeBody, if_pos rfl]

theorem escape_short {e c : Char} (h : (e, c) ∈ shortForms) (rest : List Char) :
    escape e rest = ([c], 0) := by
  rw [escape, single?_of_mem_shortForms h]

theorem escape_hex {c : Char} {ds rest : List Char} (hds : isHexDigits ds = true)
    (hlen : ds.length ≤ 2) (hc : c.toNat = ofDigits 16 ds)
    (hend : ds.length < 2 → Ended isHexDigit rest) :
    escape 'x' (ds ++ rest) = ([c], ds.length) := by
  obtain ⟨hne, hall⟩ : ds.isEmpty = false ∧ ∀ d ∈ ds, isHexDigit d = true := by
    simpa [isHexDigits] using hds
  have hread := takeWhile_take_append hall hlen hend
  have hchar : Char.ofNat (ofDigits 16 ds) = c := by rw [← hc, Char.ofNat_toNat]
  have hnone : single? 'x' = none := rfl
  simp only [escape, hnone, if_true, hread, hne, Bool.false_eq_true, if_false, hchar]

theorem escape_decimal {c d : Char} {ds rest : List Char} (hds : isDigits (d :: ds) = true)
    (hlen : ds.length ≤ 2) (hc : c.toNat = ofDigits 10 (d :: ds)) (hcode : c.toNat ≤ 255)
    (hend : ds.length < 2 → Ended isDigit rest) :
    escape d (ds ++ rest) = ([c], ds.length) := by
  obtain ⟨hd, hall⟩ : isDigit d = true ∧ ∀ e ∈ ds, isDigit e = true := by
    simpa [isDigits] using hds
  have hread := takeWhile_take_append hall hlen hend
  have hx : d ≠ 'x' := ne_of_isDigit hd rfl
  rw [hc] at hcode
  have hchar : Char.ofNat (ofDigits 10 (d :: ds)) = c := by rw [← hc, Char.ofNat_toNat]
  simp only [escape, single?_of_isDigit hd, if_neg hx, if_pos hd, hread, if_pos hcode, hchar]

theorem SpellsChar.decodeBody {quote c : Char} {rest text : List Char}
    (h : SpellsChar quote c rest text) :
    Escape.decodeBody (text ++ rest) = c :: Escape.decodeBody rest := by
  cases h with
  | plain hc =>
    have hne : c ≠ '\\' := by
      rintro rfl
      simp at hc
    exact decodeBody_plain hne rest
  | short he =>
    change Escape.decodeBody ('\\' :: _ :: rest) = _
    rw [decodeBody_escape, escape_short he]
    rfl
  | @hex ds hds hlen hc hend =>
    change Escape.decodeBody ('\\' :: 'x' :: (ds ++ rest)) = _
    rw [decodeBody_escape, escape_hex hds hlen hc hend, List.drop_left]
    rfl
  | @decimal ds hds hlen hc hcode hend =>
    cases ds with
    | nil => cases hds
    | cons d ds =>
      -- The first digit stands for the escape itself, so at most two more are read behind it.
      rw [List.length_cons] at hlen hend
      have hescape := escape_decimal hds (by omega) hc hcode fun hlt => hend (by omega)
      change Escape.decodeBody ('\\' :: d :: (ds ++ rest)) = _
      rw [decodeBody_escape, hescape, List.drop_left]
      rfl

theorem Spells.decodeBody {quote : Char} {value text : List Char} (h : Spells quote value text) :
    Escape.decodeBody text = value := by
  induction h with
  | nil => rw [Escape.decodeBody]
  | cons hc hcs ih => rw [hc.decodeBody, ih]

theorem body_literal (quote : Char) (text : List Char) :
    body (literal quote text).toList = text := by
  rw [literal, String.toList_ofList, body, List.getLast?_concat, if_pos rfl, List.dropLast_concat]

theorem Spells.decode_literal {quote : Char} {value : String} {text : List Char}
    (h : Spells quote value.toList text) : decode (literal quote text) = value := by
  rw [decode, body_literal, h.decodeBody, String.ofList_toList]

/-! Scanning a spelling. -/

theorem stringTail_escape (quote e : Char) (r : List Char) :
    stringTail quote ('\\' :: e :: r) = (stringTail quote r).push ['\\', e] :=
  stringTail_of_escape r (by decide) rfl e

section

variable {quote : Char} (hquote : quote = '"' ∨ quote = '\x27')
include hquote

theorem stringTail_digits {ds : List Char} (hds : ∀ d ∈ ds, isHexDigit d = true) (r : List Char) :
    stringTail quote (ds ++ r) = (stringTail quote r).push ds := by
  induction ds with
  | nil => rfl
  | cons d ds ih =>
    obtain ⟨hd, hds⟩ := List.forall_mem_cons.1 hds
    have hne : ∀ e, isHexDigit e = false → d ≠ e := by
      rintro e he rfl
      rw [hd] at he
      cases he
    have hother : d ≠ quote := by
      rcases hquote with rfl | rfl
      · exact hne _ rfl
      · exact hne _ rfl
    have hline : ¬(d = '\n' ∨ d = '\r') := not_or.2 ⟨hne _ rfl, hne _ rfl⟩
    rw [List.cons_append, stringTail_of_other _ hline (hne _ rfl) hother, ih hds]
    rfl

theorem SpellsChar.stringTail {c : Char} {rest text : List Char}
    (h : SpellsChar quote c rest text) (r : List Char) :
    Lexeme.stringTail quote (text ++ r) = (Lexeme.stringTail quote r).push text := by
  cases h with
  | plain hc =>
    simp only [List.mem_cons, List.not_mem_nil, or_false, not_or] at hc
    obtain ⟨hquote, hescape, hfeed, hreturn⟩ := hc
    exact stringTail_of_other r (not_or.2 ⟨hfeed, hreturn⟩) hescape hquote
  | short he => exact stringTail_escape quote _ r
  | @hex ds hds hlen hc hend =>
    have hall : ∀ d ∈ ds, isHexDigit d = true := by simp_all [isHexDigits]
    change Lexeme.stringTail quote ('\\' :: 'x' :: (ds ++ r)) = _
    rw [stringTail_escape, stringTail_digits hquote hall]
    rfl
  | @decimal ds hds hlen hc hcode hend =>
    cases ds with
    | nil => cases hds
    | cons d ds =>
      have hall : ∀ e ∈ ds, isHexDigit e = true := by simp_all [isDigits, isHexDigit]
      change Lexeme.stringTail quote ('\\' :: d :: (ds ++ r)) = _
      rw [stringTail_escape, stringTail_digits hquote hall]
      rfl

theorem Spells.stringTail {value text : List Char} (h : Spells quote value text) (r : List Char) :
    Lexeme.stringTail quote (text ++ quote :: r) = ⟨text ++ [quote], true, r⟩ := by
  induction h with
  | nil =>
    refine stringTail_of_quote r ?_ ?_ rfl
    · rcases hquote with rfl | rfl <;> decide
    · rcases hquote with rfl | rfl <;> decide
  | cons hc hcs ih =>
    rw [List.append_assoc, hc.stringTail hquote, ih, Tail.push, List.append_assoc]

theorem Spells.lexemes {value text : List Char} (h : Spells quote value text) :
    lexemes (quote :: (text ++ [quote])) = [⟨some .string, quote :: (text ++ [quote])⟩] := by
  have htail := h.stringTail hquote []
  rw [lexemes_cons, first_of_quote hquote, stringLiteral, htail]
  exact congrArg _ lexemes_nil

theorem Spells.scan_literal {value text : List Char} (h : Spells quote value text)
    (file : Option String) :
    ∃ t stop, scan (literal quote text) file = ⟨[t], stop⟩ ∧ t.kind = .string ∧
      t.value = literal quote text := by
  rw [scan, scanChars, literal, String.toList_ofList, h.lexemes hquote]
  exact ⟨_, _, rfl, rfl, rfl⟩

theorem exists_spells (value : List Char) : ∃ text, Spells quote value text := by
  induction value with
  | nil => exact ⟨[], .nil⟩
  | cons c cs ih =>
    obtain ⟨rest, hrest⟩ := ih
    by_cases hc : c ∈ [quote, '\\', '\n', '\r']
    · obtain ⟨e, he⟩ : ∃ e, (e, c) ∈ shortForms := by
        simp only [List.mem_cons, List.not_mem_nil, or_false] at hc
        rcases hquote with rfl | rfl <;> rcases hc with rfl | rfl | rfl | rfl
        · exact ⟨'"', by decide⟩
        · exact ⟨'\\', by decide⟩
        · exact ⟨'n', by decide⟩
        · exact ⟨'r', by decide⟩
        · exact ⟨'\x27', by decide⟩
        · exact ⟨'\\', by decide⟩
        · exact ⟨'n', by decide⟩
        · exact ⟨'r', by decide⟩
      exact ⟨['\\', e] ++ rest, .cons (.short he) hrest⟩
    · exact ⟨[c] ++ rest, .cons (.plain hc) hrest⟩

end

end Escape

open Escape

/-- Every string value can be written, and in every spelling of it between quotes it is read back:
the text is one token, whose value decodes to it, and the program is that string. -/
theorem parse_spelled_string {quote : Char} (hquote : quote = '"' ∨ quote = '\x27')
    (value : String) (file : Option String) :
    (∃ text, Spells quote value.toList text) ∧
      ∀ text, Spells quote value.toList text →
        ∃ t stop, tokenize (literal quote text) file = [t, .eof stop] ∧
          t.kind = .string ∧ t.value = literal quote text ∧
          decode (literal quote text) = value ∧
          parse (literal quote text) file = ⟨[.expression t (.string t value)], []⟩ := by
  refine ⟨exists_spells hquote value.toList, fun text h => ?_⟩
  obtain ⟨t, stop, hscan, hkind, hvalue⟩ := h.scan_literal hquote file
  have hdecode := h.decode_literal
  refine ⟨t, stop, ?_, hkind, hvalue, hdecode, ?_⟩
  · rw [tokenize, hscan]
    rfl
  · have hread : Expr.ofToken? t = some (.ok (.string t value)) := by
      rw [Expr.ofToken?, hkind, ← hdecode, ← hvalue]
      rfl
    have hbare : t.kind.startsStmt = false := by
      rw [hkind]
      rfl
    rw [parse, hscan]
    apply Parsed.ofTokens_of_sentence
    exact .cons (.expression ⟨.closed, .literal hread⟩ (.inl hbare) (Grammar.stops_none _)) .nil

theorem parse_spelled_string_mixed :
    Spells '"' "\x04g\n\"é7".toList "\\x4g\\\n\\\"\\2337".toList ∧
      ∃ t stop, tokenize (literal '"' "\\x4g\\\n\\\"\\2337".toList) none = [t, .eof stop] ∧
        t.kind = .string ∧ t.value = literal '"' "\\x4g\\\n\\\"\\2337".toList ∧
        decode (literal '"' "\\x4g\\\n\\\"\\2337".toList) = "\x04g\n\"é7" ∧
        parse (literal '"' "\\x4g\\\n\\\"\\2337".toList) none =
          ⟨[.expression t (.string t "\x04g\n\"é7")], []⟩ := by
  have hdecimal : SpellsChar '"' 'é' ['7'] ['\\', '2', '3', '3'] :=
    .decimal rfl (by decide) rfl (by decide) nofun
  have hquoted : Spells '"' ['\n', '"', 'é', '7']
      ['\\', '\n', '\\', '"', '\\', '2', '3', '3', '7'] :=
    .cons (.short (by decide)) (.cons (.short (by decide))
      (.cons hdecimal (.cons (.plain (by decide)) .nil)))
  have hhex : SpellsChar '"' '\x04' ('g' :: '\\' :: "\n\\\"\\2337".toList) ['\\', 'x', '4'] := by
    refine .hex rfl (by decide) rfl fun _ => ?_
    rintro c ⟨⟩
    rfl
  have hspells : Spells '"' "\x04g\n\"é7".toList "\\x4g\\\n\\\"\\2337".toList :=
    .cons hhex (.cons (.plain (by decide)) hquoted)
  exact ⟨hspells, (parse_spelled_string (.inl rfl) _ none).2 _ hspells⟩

end LuaSyntax
