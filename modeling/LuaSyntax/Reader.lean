/-! Reading characters from bytes, a line at a time. A line that is not valid UTF-8
is lost whole and ends the input; the error is held until it is taken. -/

namespace LuaSyntax

inductive ReadError where
  | invalidUtf8
deriving DecidableEq

namespace ReadError

def kind : ReadError → String
  | invalidUtf8 => "InvalidData"

def message : ReadError → String
  | invalidUtf8 => "stream did not contain valid UTF-8"

end ReadError

def cutLine : List UInt8 → List UInt8 × List UInt8
  | [] => ([], [])
  | b :: bs =>
    if b = 0x0a then ([b], bs)
    else
      let (line, rest) := cutLine bs
      (b :: line, rest)

theorem cutLine_append (bs : List UInt8) : (cutLine bs).1 ++ (cutLine bs).2 = bs := by
  induction bs with
  | nil => rfl
  | cons b bs ih =>
    unfold cutLine
    split
    · rfl
    · simp [ih]

theorem length_cutLine_lt (b : UInt8) (bs : List UInt8) :
    (cutLine (b :: bs)).2.length < (b :: bs).length := by
  have happend := congrArg List.length (cutLine_append (b :: bs))
  have hpos : 0 < (cutLine (b :: bs)).1.length := by
    unfold cutLine
    split <;> simp
  rw [List.length_append] at happend
  omega

def decodeBytes? (bytes : List UInt8) : Option (List Char) :=
  (String.fromUTF8? ⟨bytes.toArray⟩).map String.toList

/-- The characters that can be read from `bytes`, and the error that cuts them off. -/
def readAll : List UInt8 → List Char × Option ReadError
  | [] => ([], none)
  | b :: bs =>
    match decodeBytes? (cutLine (b :: bs)).1 with
    | none => ([], some .invalidUtf8)
    | some line =>
      let (chars, error) := readAll (cutLine (b :: bs)).2
      (line ++ chars, error)
termination_by bytes => bytes.length
decreasing_by exact length_cutLine_lt b bs

def utf8 (cs : List Char) : List UInt8 := cs.flatMap String.utf8EncodeChar

theorem utf8_cons (c : Char) (cs : List Char) :
    utf8 (c :: cs) = String.utf8EncodeChar c ++ utf8 cs := List.flatMap_cons

theorem utf8_append (cs ds : List Char) : utf8 (cs ++ ds) = utf8 cs ++ utf8 ds :=
  List.flatMap_append

theorem toByteArray_utf8 (cs : List Char) :
    (utf8 cs).toByteArray = (String.ofList cs).toByteArray := rfl

theorem mk_toArray (bs : List UInt8) : ByteArray.mk bs.toArray = bs.toByteArray :=
  ByteArray.ext List.data_toByteArray.symm

theorem decodeBytes?_eq_some {bs : List UInt8} {cs : List Char} :
    decodeBytes? bs = some cs ↔ bs = utf8 cs := by
  rw [decodeBytes?, mk_toArray, String.fromUTF8?]
  constructor
  · intro h
    split at h
    · next hvalid =>
      obtain rfl := Option.some.inj h
      rw [← List.toByteArray_inj, toByteArray_utf8, String.ofList_toList]
      rfl
    · cases h
  · rintro rfl
    have hvalid : (utf8 cs).toByteArray.IsValidUTF8 := (String.ofList cs).isValidUTF8
    rw [dif_pos hvalid]
    exact congrArg some String.toList_ofList

theorem ne_nil_of_decodeBytes? {b : UInt8} {bs : List UInt8} {line : List Char}
    (h : decodeBytes? (cutLine (b :: bs)).1 = some line) : line ≠ [] := by
  rintro rfl
  have happend := cutLine_append (b :: bs)
  have hlength := length_cutLine_lt b bs
  rw [decodeBytes?_eq_some.1 h] at happend
  rw [show (cutLine (b :: bs)).2 = b :: bs from happend] at hlength
  exact Nat.lt_irrefl _ hlength

@[simp] theorem readAll_nil : readAll [] = ([], none) := by
  rw [readAll]

theorem readAll_of_none {b : UInt8} {bs : List UInt8}
    (h : decodeBytes? (cutLine (b :: bs)).1 = none) :
    readAll (b :: bs) = ([], some .invalidUtf8) := by
  rw [readAll, h]

theorem readAll_of_some {b : UInt8} {bs : List UInt8} {line : List Char}
    (h : decodeBytes? (cutLine (b :: bs)).1 = some line) :
    readAll (b :: bs) =
      (line ++ (readAll (cutLine (b :: bs)).2).1, (readAll (cutLine (b :: bs)).2).2) := by
  rw [readAll, h]

/-- A reader over bytes: the bytes not yet looked at, the rest of the line that was decoded
last, whether the input is over, and the error that is held. -/
structure Reader where
  bytes : List UInt8
  buffer : List Char
  exhausted : Bool
  error : Option ReadError
deriving DecidableEq

namespace Reader

def ofBytes (bytes : List UInt8) : Reader := ⟨bytes, [], false, none⟩

def fill (r : Reader) : Reader :=
  if r.buffer ≠ [] ∨ r.exhausted then r
  else match r.bytes with
    | [] => { r with exhausted := true }
    | b :: bs =>
      match decodeBytes? (cutLine (b :: bs)).1 with
      | none => ⟨(cutLine (b :: bs)).2, [], true, some .invalidUtf8⟩
      | some line => ⟨(cutLine (b :: bs)).2, line, false, r.error⟩

def read (r : Reader) : Option Char × Reader :=
  let r := r.fill
  (r.buffer.head?, { r with buffer := r.buffer.tail })

def peek (r : Reader) : Option Char × Reader :=
  let r := r.fill
  (r.buffer.head?, r)

def atEnd (r : Reader) : Bool × Reader :=
  let (c, r) := r.peek
  (c.isNone, r)

/-- Takes the error that is held. The input stays over. -/
def takeError (r : Reader) : Option ReadError × Reader := (r.error, { r with error := none })

def remaining (r : Reader) : List Char :=
  r.buffer ++ if r.exhausted then [] else (readAll r.bytes).1

def ahead (r : Reader) : Option ReadError := if r.exhausted then none else (readAll r.bytes).2

/-- While characters are left, the buffer holds the next one once it is filled. -/
theorem fill_of_cons {r : Reader} {c : Char} {cs : List Char} (h : r.remaining = c :: cs) :
    ∃ ds, r.fill.buffer = c :: ds ∧
      ds ++ (if r.fill.exhausted then [] else (readAll r.fill.bytes).1) = cs ∧
      r.fill.ahead = r.ahead ∧ r.fill.error = r.error := by
  obtain ⟨bytes, buffer, exhausted, error⟩ := r
  cases buffer with
  | cons d ds =>
    obtain ⟨rfl, hcs⟩ := List.cons.inj h
    exact ⟨ds, rfl, hcs, rfl, rfl⟩
  | nil =>
    cases exhausted with
    | true => cases h
    | false =>
      cases bytes with
      | nil =>
        simp [remaining] at h
      | cons b bs =>
        have hchars : (readAll (b :: bs)).1 = c :: cs := h
        rcases hline : decodeBytes? (cutLine (b :: bs)).1 with _ | line
        · rw [readAll_of_none hline] at hchars
          cases hchars
        · obtain ⟨d, ds, rfl⟩ := List.exists_cons_of_ne_nil (ne_nil_of_decodeBytes? hline)
          rw [readAll_of_some hline] at hchars
          obtain ⟨rfl, rfl⟩ := List.cons.inj hchars
          have hfill : fill ⟨b :: bs, [], false, error⟩ =
              ⟨(cutLine (b :: bs)).2, d :: ds, false, error⟩ := by
            simp [fill, hline]
          have hahead : ahead ⟨b :: bs, [], false, error⟩ = (readAll (cutLine (b :: bs)).2).2 := by
            simp [ahead, readAll_of_some hline]
          rw [hfill, hahead]
          exact ⟨ds, rfl, rfl, rfl, rfl⟩

/-- Where none is left, filling the buffer finds the end or the line that cannot be decoded. -/
theorem fill_of_nil {r : Reader} (h : r.remaining = []) :
    r.fill.buffer = [] ∧ r.fill.exhausted = true ∧ r.fill.error = r.ahead.or r.error := by
  obtain ⟨bytes, buffer, exhausted, error⟩ := r
  obtain ⟨hbuffer, hbytes⟩ := List.append_eq_nil_iff.1 h
  obtain rfl : buffer = [] := hbuffer
  cases exhausted with
  | true => exact ⟨rfl, rfl, rfl⟩
  | false =>
    cases bytes with
    | nil =>
      have hahead : ahead ⟨[], [], false, error⟩ = none := by simp [ahead]
      rw [hahead]
      exact ⟨rfl, rfl, rfl⟩
    | cons b bs =>
      have hchars : (readAll (b :: bs)).1 = [] := hbytes
      rcases hline : decodeBytes? (cutLine (b :: bs)).1 with _ | line
      · have hahead : ahead ⟨b :: bs, [], false, error⟩ = some .invalidUtf8 := by
          simp [ahead, readAll_of_none hline]
        have hfill : fill ⟨b :: bs, [], false, error⟩ =
            ⟨(cutLine (b :: bs)).2, [], true, some .invalidUtf8⟩ := by
          simp [fill, hline]
        rw [hfill, hahead]
        exact ⟨rfl, rfl, rfl⟩
      · rw [readAll_of_some hline] at hchars
        exact absurd (List.append_eq_nil_iff.1 hchars).1 (ne_nil_of_decodeBytes? hline)

theorem remaining_read (r : Reader) :
    r.read.1 = r.remaining.head? ∧ r.read.2.remaining = r.remaining.tail := by
  rcases h : r.remaining with _ | ⟨c, cs⟩
  · obtain ⟨hbuffer, hexhausted, -⟩ := fill_of_nil h
    simp [read, remaining, hbuffer, hexhausted]
  · obtain ⟨ds, hbuffer, hrest, -, -⟩ := fill_of_cons h
    simp [read, remaining, hbuffer, hrest]

theorem remaining_peek (r : Reader) :
    r.peek.1 = r.remaining.head? ∧ r.peek.2.remaining = r.remaining := by
  rcases h : r.remaining with _ | ⟨c, cs⟩
  · obtain ⟨hbuffer, hexhausted, -⟩ := fill_of_nil h
    simp [peek, remaining, hbuffer, hexhausted]
  · obtain ⟨ds, hbuffer, hrest, -, -⟩ := fill_of_cons h
    simp [peek, remaining, hbuffer, hrest]

/-- An error that lies ahead is not lost: it is still ahead, or it is held. -/
theorem ahead_or_error_fill (r : Reader) : r.fill.ahead.or r.fill.error = r.ahead.or r.error := by
  rcases h : r.remaining with _ | ⟨c, cs⟩
  · obtain ⟨-, hexhausted, herror⟩ := fill_of_nil h
    rw [herror, ahead, if_pos hexhausted, Option.none_or]
  · obtain ⟨ds, -, -, hahead, herror⟩ := fill_of_cons h
    rw [hahead, herror]

end Reader

structure CharSource where
  chars : List Char
deriving DecidableEq

namespace CharSource

def read (s : CharSource) : Option Char × CharSource := (s.chars.head?, ⟨s.chars.tail⟩)

def peek (s : CharSource) : Option Char × CharSource := (s.chars.head?, s)

def atEnd (s : CharSource) : Bool × CharSource := (s.chars.isEmpty, s)

end CharSource

end LuaSyntax
