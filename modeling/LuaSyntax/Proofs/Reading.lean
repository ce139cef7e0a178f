import LuaSyntax.Parse.Program

/-! Reading from bytes. However its operations follow each other, a reader answers like the text of
the lines that can be decoded, and a line that cannot be decoded is reported once the text before it
is used up. -/

namespace LuaSyntax

/-! Encoded text. -/

theorem data_toUTF8 (s : String) : s.toUTF8.data.toList = utf8 s.toList := by
  rw [String.toUTF8_eq_toByteArray, ← String.ofList_toList (s := s), ← toByteArray_utf8,
    List.data_toByteArray, String.toList_ofList]

theorem isValidUTF8_iff {bs : List UInt8} :
    (ByteArray.mk bs.toArray).IsValidUTF8 ↔ ∃ cs, bs = utf8 cs := by
  rw [mk_toArray]
  constructor
  · rintro ⟨cs, hcs⟩
    exact ⟨cs, List.toByteArray_inj.1 hcs⟩
  · rintro ⟨cs, rfl⟩
    exact (String.ofList cs).isValidUTF8

theorem not_isValidUTF8_of_decodeBytes? {bs : List UInt8} (h : decodeBytes? bs = none) :
    ¬(ByteArray.mk bs.toArray).IsValidUTF8 := by
  intro hvalid
  obtain ⟨cs, hcs⟩ := isValidUTF8_iff.1 hvalid
  rw [decodeBytes?_eq_some.2 hcs] at h
  cases h

theorem ofNat_ne_lineFeed {n : Nat} (hn : 0x80 ≤ n) (hlt : n < 0x100) :
    (0x0a : UInt8) ≠ UInt8.ofNat n := by
  intro h
  have htoNat := congrArg UInt8.toNat h
  rw [UInt8.toNat_ofNat_of_lt' hlt] at htoNat
  change 10 = n at htoNat
  omega

theorem eq_lineFeed_of_mem {c : Char} (h : 0x0a ∈ String.utf8EncodeChar c) : c = '\n' := by
  revert h
  fun_cases String.utf8EncodeChar with
  | case1 v hv =>
    intro h
    have htoNat := congrArg UInt8.toNat (List.mem_singleton.1 h)
    rw [UInt8.toNat_ofNat_of_lt' (show v < 0x100 by omega)] at htoNat
    exact Char.toNat_inj.1 htoNat.symm
  | case2 v =>
    intro h
    simp only [List.mem_cons, List.not_mem_nil, or_false] at h
    rcases h with h | h <;> exact absurd h (ofNat_ne_lineFeed (by omega) (by omega))
  | case3 v =>
    intro h
    simp only [List.mem_cons, List.not_mem_nil, or_false] at h
    rcases h with h | h | h <;> exact absurd h (ofNat_ne_lineFeed (by omega) (by omega))
  | case4 v =>
    intro h
    simp only [List.mem_cons, List.not_mem_nil, or_false] at h
    rcases h with h | h | h | h <;> exact absurd h (ofNat_ne_lineFeed (by omega) (by omega))

/-! Lines of bytes. -/

theorem cutLine_append_of_not_mem {as : List UInt8} (h : 0x0a ∉ as) (bs : List UInt8) :
    cutLine (as ++ bs) = (as ++ (cutLine bs).1, (cutLine bs).2) := by
  induction as with
  | nil => rfl
  | cons a as ih =>
    obtain ⟨ha, has⟩ := not_or.1 (mt List.mem_cons.2 h)
    rw [List.cons_append, cutLine, if_neg (Ne.symm ha), ih has]
    rfl

theorem exists_cutLine_utf8 (cs : List Char) :
    ∃ front back, cutLine (utf8 cs) = (utf8 front, utf8 back) := by
  induction cs with
  | nil => exact ⟨[], [], rfl⟩
  | cons c cs ih =>
    by_cases hc : c = '\n'
    · subst hc
      exact ⟨['\n'], cs, rfl⟩
    · obtain ⟨front, back, hcut⟩ := ih
      refine ⟨c :: front, back, ?_⟩
      rw [utf8_cons, cutLine_append_of_not_mem (mt eq_lineFeed_of_mem hc), hcut, utf8_cons]

theorem isValidUTF8_iff_cutLine (bs : List UInt8) :
    (ByteArray.mk bs.toArray).IsValidUTF8 ↔
      (ByteArray.mk (cutLine bs).1.toArray).IsValidUTF8 ∧
        (ByteArray.mk (cutLine bs).2.toArray).IsValidUTF8 := by
  simp only [isValidUTF8_iff]
  constructor
  · rintro ⟨cs, rfl⟩
    obtain ⟨front, back, hcut⟩ := exists_cutLine_utf8 cs
    rw [hcut]
    exact ⟨⟨front, rfl⟩, ⟨back, rfl⟩⟩
  · rintro ⟨⟨front, hfront⟩, ⟨back, hback⟩⟩
    refine ⟨front ++ back, ?_⟩
    rw [← cutLine_append bs, hfront, hback, utf8_append]

def byteLines : List UInt8 → List (List UInt8)
  | [] => []
  | b :: bs =>
    if b = 0x0a then [b] :: byteLines bs
    else
      match byteLines bs with
      | [] => [[b]]
      | line :: lines => (b :: line) :: lines

theorem byteLines_cons (b : UInt8) (bs : List UInt8) :
    byteLines (b :: bs) = (cutLine (b :: bs)).1 :: byteLines (cutLine (b :: bs)).2 := by
  induction bs generalizing b with
  | nil =>
    rw [byteLines, cutLine]
    split <;> rfl
  | cons d ds ih =>
    rw [byteLines, cutLine]
    split
    · rfl
    · rw [ih d]

/-- The text of the lines before the first one that is not valid UTF-8. -/
def readable (bytes : List UInt8) : List Char :=
  (((byteLines bytes).map decodeBytes?).takeWhile Option.isSome).flatMap fun line => line.getD []

def readError? (bytes : List UInt8) : Option ReadError :=
  if (ByteArray.mk bytes.toArray).IsValidUTF8 then none else some .invalidUtf8

theorem readError?_utf8 (cs : List Char) : readError? (utf8 cs) = none :=
  if_pos (isValidUTF8_iff.2 ⟨cs, rfl⟩)

section

variable {b : UInt8} {bs : List UInt8}

theorem readable_of_none (h : decodeBytes? (cutLine (b :: bs)).1 = none) :
    readable (b :: bs) = [] ∧ readError? (b :: bs) = some .invalidUtf8 := by
  have hvalid : ¬(ByteArray.mk (b :: bs).toArray).IsValidUTF8 := by
    rw [isValidUTF8_iff_cutLine]
    exact fun hboth => not_isValidUTF8_of_decodeBytes? h hboth.1
  constructor
  · rw [readable, byteLines_cons, List.map_cons, h]
    rfl
  · exact if_neg hvalid

theorem readable_of_some {line : List Char} (h : decodeBytes? (cutLine (b :: bs)).1 = some line) :
    readable (b :: bs) = line ++ readable (cutLine (b :: bs)).2 ∧
      readError? (b :: bs) = readError? (cutLine (b :: bs)).2 := by
  have hvalid : (ByteArray.mk (cutLine (b :: bs)).1.toArray).IsValidUTF8 :=
    isValidUTF8_iff.2 ⟨line, decodeBytes?_eq_some.1 h⟩
  constructor
  · rw [readable, byteLines_cons, List.map_cons, h]
    rfl
  · simp only [readError?, isValidUTF8_iff_cutLine (b :: bs), hvalid, true_and]

end

theorem readAll_eq (bytes : List UInt8) : readAll bytes = (readable bytes, readError? bytes) := by
  fun_induction readAll bytes with
  | case1 => exact congrArg (Prod.mk []) (readError?_utf8 []).symm
  | case2 b bs hnone =>
    obtain ⟨hchars, herror⟩ := readable_of_none hnone
    rw [hchars, herror]
  | case3 b bs line hline chars error hmore ih =>
    obtain ⟨hchars, herror⟩ := readable_of_some hline
    rw [hmore] at ih
    obtain ⟨rfl, rfl⟩ := Prod.mk.inj ih
    rw [hchars, herror]

theorem utf8_injective : Function.Injective utf8 := by
  intro cs ds h
  have hcs : decodeBytes? (utf8 cs) = some cs := decodeBytes?_eq_some.2 rfl
  rw [decodeBytes?_eq_some.2 h] at hcs
  exact (Option.some.inj hcs).symm

theorem utf8_readAll {bytes : List UInt8} (h : (ByteArray.mk bytes.toArray).IsValidUTF8) :
    utf8 (readAll bytes).1 = bytes := by
  fun_induction readAll bytes with
  | case1 => rfl
  | case2 b bs hnone =>
    rw [isValidUTF8_iff_cutLine] at h
    exact absurd h.1 (not_isValidUTF8_of_decodeBytes? hnone)
  | case3 b bs line hline chars error hmore ih =>
    rw [isValidUTF8_iff_cutLine] at h
    have hchars := ih h.2
    rw [hmore] at hchars
    rw [utf8_append, hchars, ← decodeBytes?_eq_some.1 hline, cutLine_append]

theorem readable_utf8 (cs : List Char) : readable (utf8 cs) = cs := by
  have hread := utf8_readAll (isValidUTF8_iff.2 ⟨cs, rfl⟩)
  rw [readAll_eq] at hread
  exact utf8_injective hread

/-! Calls and answers. -/

inductive SourceCall where
  | read | peek | atEnd
deriving DecidableEq

inductive ReaderCall where
  | ask (call : SourceCall)
  | takeError
deriving DecidableEq

inductive SourceAnswer where
  | char (c : Option Char)
  | ended (b : Bool)
deriving DecidableEq

def SourceAnswer.isEnd : SourceAnswer → Bool
  | char c => c.isNone
  | ended b => b

namespace CharSource

def answer (s : CharSource) : SourceCall → SourceAnswer × CharSource
  | .read => s.read.map .char id
  | .peek => s.peek.map .char id
  | .atEnd => s.atEnd.map .ended id

def run (s : CharSource) : List ReaderCall → List SourceAnswer × CharSource
  | [] => ([], s)
  | .ask call :: calls =>
    ((s.answer call).1 :: ((s.answer call).2.run calls).1, ((s.answer call).2.run calls).2)
  | .takeError :: calls => s.run calls

/-- The calls behind the first one that finds nothing left, if there is one. -/
def afterEnd (s : CharSource) : List ReaderCall → Option (List ReaderCall)
  | [] => none
  | .ask call :: calls => if s.chars = [] then some calls else (s.answer call).2.afterEnd calls
  | .takeError :: calls => s.afterEnd calls

theorem answer_nil (call : SourceCall) :
    (answer ⟨[]⟩ call).1.isEnd = true ∧ (answer ⟨[]⟩ call).2 = ⟨[]⟩ := by
  cases call <;> exact ⟨rfl, rfl⟩

theorem run_nil (calls : List ReaderCall) :
    (run ⟨[]⟩ calls).1.all SourceAnswer.isEnd = true ∧ (run ⟨[]⟩ calls).2 = ⟨[]⟩ := by
  induction calls with
  | nil => exact ⟨rfl, rfl⟩
  | cons call calls ih =>
    cases call with
    | takeError => exact ih
    | ask call =>
      obtain ⟨hend, hsame⟩ := answer_nil call
      rw [run, hsame, List.all_cons, hend, ih.1]
      exact ⟨rfl, ih.2⟩

theorem chars_run_of_afterEnd {s : CharSource} {calls back : List ReaderCall}
    (h : s.afterEnd calls = some back) : (s.run calls).2.chars = [] := by
  induction calls generalizing s with
  | nil => cases h
  | cons call calls ih =>
    cases call with
    | takeError => exact ih h
    | ask call =>
      rw [afterEnd] at h
      split at h
      · next hnil =>
        obtain rfl : s = ⟨[]⟩ := congrArg CharSource.mk hnil
        rw [(run_nil _).2]
      · exact ih h

end CharSource

namespace Reader

def answer (r : Reader) : SourceCall → SourceAnswer × Reader
  | .read => r.read.map .char id
  | .peek => r.peek.map .char id
  | .atEnd => r.atEnd.map .ended id

def run (r : Reader) : List ReaderCall → List SourceAnswer × Reader
  | [] => ([], r)
  | .ask call :: calls =>
    ((r.answer call).1 :: ((r.answer call).2.run calls).1, ((r.answer call).2.run calls).2)
  | .takeError :: calls => r.takeError.2.run calls

theorem remaining_ofBytes (bytes : List UInt8) : (ofBytes bytes).remaining = readable bytes :=
  congrArg Prod.fst (readAll_eq bytes)

theorem ahead_ofBytes (bytes : List UInt8) : (ofBytes bytes).ahead = readError? bytes :=
  congrArg Prod.snd (readAll_eq bytes)

theorem answer_eq (r : Reader) (call : SourceCall) :
    (r.answer call).1 = (CharSource.answer ⟨r.remaining⟩ call).1 ∧
      (r.answer call).2.remaining = (CharSource.answer ⟨r.remaining⟩ call).2.chars := by
  obtain ⟨hread, htail⟩ := remaining_read r
  obtain ⟨hpeek, hsame⟩ := remaining_peek r
  cases call with
  | read => exact ⟨congrArg SourceAnswer.char hread, htail⟩
  | peek => exact ⟨congrArg SourceAnswer.char hpeek, hsame⟩
  | atEnd =>
    have hend : r.atEnd.1 = r.remaining.head?.isNone := congrArg Option.isNone hpeek
    refine ⟨congrArg SourceAnswer.ended (hend.trans ?_), hsame⟩
    cases r.remaining <;> rfl

theorem error_answer_of_ne_nil {r : Reader} (h : r.remaining ≠ []) (call : SourceCall) :
    (r.answer call).2.ahead = r.ahead ∧ (r.answer call).2.error = r.error := by
  obtain ⟨c, cs, hcons⟩ := List.exists_cons_of_ne_nil h
  obtain ⟨ds, -, -, hahead, herror⟩ := fill_of_cons hcons
  cases call <;> exact ⟨hahead, herror⟩

theorem error_answer_of_nil {r : Reader} (h : r.remaining = []) (call : SourceCall) :
    (r.answer call).2.ahead = none ∧ (r.answer call).2.error = r.ahead.or r.error := by
  obtain ⟨-, hexhausted, herror⟩ := fill_of_nil h
  have hahead : ∀ q : Reader, q.exhausted = true → q.ahead = none := fun q hq => if_pos hq
  cases call <;> exact ⟨hahead _ hexhausted, herror⟩

theorem run_eq (r : Reader) (calls : List ReaderCall) :
    (r.run calls).1 = (CharSource.run ⟨r.remaining⟩ calls).1 ∧
      (r.run calls).2.remaining = (CharSource.run ⟨r.remaining⟩ calls).2.chars := by
  induction calls generalizing r with
  | nil => exact ⟨rfl, rfl⟩
  | cons call calls ih =>
    cases call with
    | takeError => exact ih r.takeError.2
    | ask call =>
      obtain ⟨hanswer, hremaining⟩ := answer_eq r call
      obtain ⟨hanswers, hleft⟩ := ih (r.answer call).2
      rw [hremaining] at hanswers hleft
      rw [run, CharSource.run, hanswer, hanswers]
      exact ⟨rfl, hleft⟩

theorem error_run_of_nil {r : Reader} (h : r.remaining = []) (hahead : r.ahead = none)
    (calls : List ReaderCall) :
    (r.run calls).2.error = if .takeError ∈ calls then none else r.error := by
  induction calls generalizing r with
  | nil => rfl
  | cons call calls ih =>
    cases call with
    | takeError =>
      have htaken := ih (r := r.takeError.2) h hahead
      rw [if_pos List.mem_cons_self]
      refine htaken.trans ?_
      split <;> rfl
    | ask call =>
      obtain ⟨hahead', herror⟩ := error_answer_of_nil h call
      obtain ⟨-, hremaining⟩ := answer_eq r call
      rw [h, (CharSource.answer_nil call).2] at hremaining
      rw [run, ih hremaining hahead', herror, hahead]
      simp

/-- An error is held from the first call on that finds nothing left, until it is taken. -/
theorem error_run {r : Reader} (h : r.error = none) (calls : List ReaderCall) :
    (r.run calls).2.error =
      match CharSource.afterEnd ⟨r.remaining⟩ calls with
      | none => none
      | some back => if .takeError ∈ back then none else r.ahead := by
  -- until the text is used up a call changes neither the error ahead nor the one that is held
  induction calls generalizing r with
  | nil => exact h
  | cons call calls ih =>
    cases call with
    | takeError => exact ih (r := r.takeError.2) rfl
    | ask call =>
      obtain ⟨-, hremaining⟩ := answer_eq r call
      rw [run, CharSource.afterEnd]
      by_cases hnil : r.remaining = []
      · obtain ⟨hahead, herror⟩ := error_answer_of_nil hnil call
        rw [hnil, (CharSource.answer_nil call).2] at hremaining
        rw [if_pos hnil, error_run_of_nil hremaining hahead, herror, h, Option.or_none]
      · obtain ⟨hahead, herror⟩ := error_answer_of_ne_nil hnil call
        rw [if_neg hnil, ih (herror.trans h), hremaining, hahead]

def drain (r : Reader) : List Char × Reader :=
  match _h : r.read with
  | (none, q) => ([], q)
  | (some c, q) => (c :: q.drain.1, q.drain.2)
termination_by r.remaining.length
decreasing_by
  all_goals
    obtain ⟨hhead, htail⟩ := remaining_read r
    rw [_h] at hhead htail
    obtain ⟨cs, hcs⟩ := List.head?_eq_some_iff.1 hhead.symm
    have hq : q.remaining = r.remaining.tail := htail
    rw [hq, hcs]
    exact Nat.lt_succ_self _

theorem drain_eq (r : Reader) :
    r.drain.1 = r.remaining ∧ r.drain.2.error = r.ahead.or r.error := by
  fun_induction drain r with
  | case1 r q h =>
    obtain ⟨hhead, -⟩ := remaining_read r
    rw [h] at hhead
    have hnil : r.remaining = [] := List.head?_eq_none_iff.1 hhead.symm
    obtain ⟨-, herror⟩ := error_answer_of_nil hnil .read
    rw [answer, h] at herror
    exact ⟨hnil.symm, herror⟩
  | case2 r c q h ih =>
    obtain ⟨hhead, htail⟩ := remaining_read r
    rw [h] at hhead htail
    obtain ⟨cs, hcs⟩ := List.head?_eq_some_iff.1 hhead.symm
    have hne : r.remaining ≠ [] := by
      rw [hcs]
      exact List.cons_ne_nil c cs
    have hq : q.remaining = cs := by
      rw [hcs] at htail
      exact htail
    have hsame := error_answer_of_ne_nil hne .read
    rw [answer, h] at hsame
    obtain ⟨hahead, herror⟩ : q.ahead = r.ahead ∧ q.error = r.error := hsame
    rw [ih.1, ih.2, hcs, hq, hahead, herror]
    exact ⟨rfl, rfl⟩

theorem run_of_afterEnd {r : Reader} {calls back : List ReaderCall}
    (h : CharSource.afterEnd ⟨r.remaining⟩ calls = some back) (more : List ReaderCall) :
    ((r.run calls).2.run more).1.all SourceAnswer.isEnd = true := by
  have hnil : (r.run calls).2.remaining = [] :=
    (run_eq r calls).2.trans (CharSource.chars_run_of_afterEnd h)
  rw [(run_eq _ more).1, hnil]
  exact (CharSource.run_nil more).1

theorem error_run_ofBytes (bytes : List UInt8) (calls : List ReaderCall) :
    ((ofBytes bytes).run calls).2.error =
      match CharSource.afterEnd ⟨readable bytes⟩ calls with
      | none => none
      | some back => if .takeError ∈ back then none else readError? bytes := by
  rw [error_run rfl calls, remaining_ofBytes, ahead_ofBytes]

theorem error_run_utf8 (cs : List Char) (calls : List ReaderCall) :
    ((ofBytes (utf8 cs)).run calls).2.error = none := by
  rw [error_run_ofBytes, readError?_utf8]
  split
  · rfl
  · exact ite_self none

end Reader

theorem readError?_eq_none {bytes : List UInt8} :
    readError? bytes = none ↔ (ByteArray.mk bytes.toArray).IsValidUTF8 := by
  rw [readError?]
  split
  · next hvalid => exact ⟨fun _ => hvalid, fun _ => rfl⟩
  · next hvalid => exact ⟨nofun, fun h => absurd h hvalid⟩

theorem scanBytes_eq (bytes : List UInt8) (file : Option String) :
    scanBytes bytes file = (scanChars (readable bytes) file, readError? bytes) := by
  rw [scanBytes_eq_readAll, readAll_eq]

/-- A reader over bytes and characters in memory are the same. Over the bytes of a text, whatever is
asked, the reader answers like the text, holds no error, and gives the same tokens and program. Over
any bytes it answers like the text of the lines before the first one that is not valid UTF-8. It
holds an error from the first call that finds none of this text left until the error is taken, if
the bytes are not valid UTF-8, and otherwise never; after that call no character is returned, also
if the error is taken. Drained to the end it gives the whole of this text and is left with an error
if and only if the bytes are not valid UTF-8, and that is what a scan of the bytes is made of. -/
theorem reader_eq_source (s : String) (bytes : List UInt8) (calls : List ReaderCall)
    (file : Option String) :
    (((Reader.ofBytes s.toUTF8.data.toList).run calls).1 = (CharSource.run ⟨s.toList⟩ calls).1 ∧
      ((Reader.ofBytes s.toUTF8.data.toList).run calls).2.error = none ∧
      scanBytes s.toUTF8.data.toList file = (scan s file, none) ∧
      parseBytes s.toUTF8.data.toList file = (parse s file, none)) ∧
    ((Reader.ofBytes bytes).run calls).1 = (CharSource.run ⟨readable bytes⟩ calls).1 ∧
    (match CharSource.afterEnd ⟨readable bytes⟩ calls with
      | none => ((Reader.ofBytes bytes).run calls).2.error = none
      | some back =>
        ((Reader.ofBytes bytes).run calls).2.error =
            (if (ByteArray.mk bytes.toArray).IsValidUTF8 ∨ .takeError ∈ back then none
              else some .invalidUtf8) ∧
          ∀ more, (((Reader.ofBytes bytes).run calls).2.run more).1.all SourceAnswer.isEnd = true) ∧
    (Reader.ofBytes bytes).drain.1 = readable bytes ∧
    ((Reader.ofBytes bytes).drain.2.error = none ↔ (ByteArray.mk bytes.toArray).IsValidUTF8) ∧
    scanBytes bytes file =
      (scanChars (Reader.ofBytes bytes).drain.1 file, (Reader.ofBytes bytes).drain.2.error) := by
  obtain ⟨hdrained, hleft⟩ := (Reader.ofBytes bytes).drain_eq
  rw [Reader.remaining_ofBytes] at hdrained
  rw [Reader.ahead_ofBytes] at hleft
  have hleft : (Reader.ofBytes bytes).drain.2.error = readError? bytes :=
    hleft.trans Option.or_none
  refine ⟨?_, ?_, ?_, hdrained, ?_, ?_⟩
  · rw [data_toUTF8, parseBytes, scanBytes_eq, (Reader.run_eq _ calls).1, Reader.remaining_ofBytes,
      readable_utf8, readError?_utf8]
    exact ⟨rfl, Reader.error_run_utf8 _ calls, rfl, rfl⟩
  · rw [(Reader.run_eq _ calls).1, Reader.remaining_ofBytes]
  · have hheld := Reader.error_run_ofBytes bytes calls
    split
    · next hnever => rwa [hnever] at hheld
    · next back hback =>
      refine ⟨?_, Reader.run_of_afterEnd (by rwa [Reader.remaining_ofBytes])⟩
      rw [hheld, hback]
      by_cases htaken : .takeError ∈ back
      · simp only [htaken, or_true, if_true]
      · simp only [htaken, or_false, if_false]
        rfl
  · rw [hleft, readError?_eq_none]
  · rw [scanBytes_eq, hleft, hdrained]

example : ((Reader.ofBytes [0x61, 0x0a, 0xff, 0x62]).run
    [.ask .read, .ask .read, .ask .peek, .takeError, .ask .read]).1 =
      [.char 'a', .char '\n', .char none, .char none] := by
  decide +kernel

end LuaSyntax
