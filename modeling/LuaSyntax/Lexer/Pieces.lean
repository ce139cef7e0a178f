import LuaSyntax.Reader
import LuaSyntax.Scanner

/-! Taking a piece of text from a source whose characters can only be read and looked at one by one.
Each piece is taken by a loop over these two operations. The text that is left tells what the loop
comes to: it takes the first lexeme of that text, wherever its characters come from. -/

namespace LuaSyntax

/-- A source of characters. What it still holds is told by `left`, which no scan evaluates. -/
class Source (σ : Type) where
  read : σ → Option Char × σ
  peek : σ → Option Char × σ
  left : σ → List Char
  read_eq (s : σ) : (read s).1 = (left s).head? ∧ left (read s).2 = (left s).tail
  peek_eq (s : σ) : (peek s).1 = (left s).head? ∧ left (peek s).2 = left s

instance : Source CharSource where
  read := CharSource.read
  peek := CharSource.peek
  left := CharSource.chars
  read_eq _ := ⟨rfl, rfl⟩
  peek_eq _ := ⟨rfl, rfl⟩

instance : Source Reader where
  read := Reader.read
  peek := Reader.peek
  left := Reader.remaining
  read_eq := Reader.remaining_read
  peek_eq := Reader.remaining_peek

/-- One source is the other after some of its characters were read and looked at. -/
inductive Source.Reaches {σ : Type} [Source σ] (s : σ) : σ → Prop where
  | refl : Reaches s s
  | read {t : σ} : Reaches s t → Reaches s (Source.read t).2
  | peek {t : σ} : Reaches s t → Reaches s (Source.peek t).2

theorem Source.Reaches.trans {σ : Type} [Source σ] {s t u : σ} (h : Reaches s t)
    (h' : Reaches t u) : Reaches s u := by
  induction h' with
  | refl => exact h
  | read _ ih => exact ih.read
  | peek _ ih => exact ih.peek

structure Lexer (σ : Type) where
  source : σ
  position : Position

namespace Lexer

variable {σ : Type} [Source σ] {l l' l'' : Lexer σ}

def left (l : Lexer σ) : List Char := Source.left l.source

/-- Reading `text` leads from `l` to `l'`. -/
structure Takes (l : Lexer σ) (text : List Char) (l' : Lexer σ) : Prop where
  reaches : Source.Reaches l.source l'.source
  left_eq : l.left = text ++ l'.left
  position_eq : l'.position = l.position.after text l'.left.head?

theorem Takes.trans {front back : List Char} (h : Takes l front l') (h' : Takes l' back l'') :
    Takes l (front ++ back) l'' where
  reaches := h.reaches.trans h'.reaches
  left_eq := by rw [h.left_eq, h'.left_eq, List.append_assoc]
  position_eq := by
    rw [h'.position_eq, h.position_eq, h'.left_eq, List.head?_append, Position.after_append]

theorem Takes.left_of_append {text rest : List Char} (h : Takes l text l')
    (heq : text ++ rest = l.left) : l'.left = rest :=
  (List.append_cancel_left (heq.trans h.left_eq)).symm

theorem Takes.length_le {text : List Char} (h : Takes l text l') :
    l'.left.length ≤ l.left.length := by
  rw [h.left_eq, List.length_append]
  exact Nat.le_add_left _ _

theorem Takes.length_lt {text : List Char} (h : Takes l text l') (hne : text ≠ []) :
    l'.left.length < l.left.length := by
  rw [h.left_eq, List.length_append]
  exact Nat.lt_add_of_pos_left (List.length_pos_iff.2 hne)

def peek (l : Lexer σ) : Option Char × Lexer σ :=
  let (c, s) := Source.peek l.source
  (c, { l with source := s })

/-- Takes a character. Only behind a carriage return does the place of the next one depend on
what that is. -/
def advance (l : Lexer σ) : Option Char × Lexer σ :=
  match Source.read l.source with
  | (none, s) => (none, { l with source := s })
  | (some c, s) =>
    if c = '\r' then
      let (next, s) := Source.peek s
      (some c, ⟨s, l.position.step c next⟩)
    else (some c, ⟨s, l.position.step c none⟩)

theorem takes_of_peek {a : Option Char} (h : l.peek = (a, l')) :
    l.left.head? = a ∧ Takes l [] l' := by
  obtain ⟨hhead, hleft⟩ := Source.peek_eq l.source
  obtain ⟨rfl, rfl⟩ := Prod.mk.inj h
  exact ⟨hhead.symm, Source.Reaches.refl.peek, hleft.symm, rfl⟩

theorem step_eq {c : Char} (h : c ≠ '\r') (p : Position) (next next' : Option Char) :
    p.step c next = p.step c next' := by
  simp [Position.step, Position.breaksLine, h]

theorem takes_of_advance {a : Option Char} (h : l.advance = (a, l')) :
    l.left.head? = a ∧ Takes l a.toList l' := by
  obtain ⟨hhead, htail⟩ := Source.read_eq l.source
  rw [advance] at h
  rcases hread : Source.read l.source with ⟨b, s⟩
  rw [hread] at h hhead htail
  have hreaches : Source.Reaches l.source s := by
    have := Source.Reaches.refl (s := l.source) |>.read
    rwa [hread] at this
  cases b with
  | none =>
    obtain ⟨rfl, rfl⟩ := Prod.mk.inj h
    have hnil : l.left = [] := List.head?_eq_none_iff.1 hhead.symm
    have hsame : Source.left s = [] := htail.trans (congrArg List.tail hnil)
    exact ⟨hhead.symm, hreaches, hnil.trans hsame.symm, rfl⟩
  | some c =>
    obtain ⟨cs, hcs⟩ := List.head?_eq_some_iff.1 hhead.symm
    rw [hcs] at htail
    dsimp only at h
    split at h
    · obtain ⟨hnext, hsame⟩ := Source.peek_eq s
      obtain ⟨rfl, rfl⟩ := Prod.mk.inj h
      refine ⟨hhead.symm, hreaches.peek, ?_, ?_⟩
      · exact hcs.trans (congrArg (c :: ·) (hsame.trans htail).symm)
      · rw [Option.toList_some, Position.after, Position.after_nil, List.head?_nil, Option.none_or,
          hnext]
        exact congrArg (fun t => l.position.step c (List.head? t)) hsame.symm
    · next hc =>
      obtain ⟨rfl, rfl⟩ := Prod.mk.inj h
      refine ⟨hhead.symm, hreaches, hcs.trans (congrArg (c :: ·) htail.symm), ?_⟩
      exact step_eq hc l.position _ _

theorem takes_advance {c : Char} (h : l.peek = (some c, l')) :
    Takes l [c] l'.advance.2 ∧ l.left = c :: l'.advance.2.left := by
  obtain ⟨hhead, hpeek⟩ := takes_of_peek h
  obtain ⟨hhead', hadvance⟩ := takes_of_advance (l := l') (a := l'.advance.1) rfl
  rw [hpeek.left_eq, List.nil_append, hhead'] at hhead
  have htakes := hpeek.trans hadvance
  rw [hhead] at htakes
  exact ⟨htakes, htakes.left_eq⟩

theorem length_left_advance_lt {c : Char} (h : l.peek = (some c, l')) :
    l'.advance.2.left.length < l.left.length :=
  (takes_advance h).1.length_lt (List.cons_ne_nil _ _)

/-! Runs of characters. -/

def takeWhile (keep : String → Char → Bool) (value : String) (l : Lexer σ) : String × Lexer σ :=
  match _h : l.peek with
  | (none, l') => (value, l')
  | (some c, l') =>
    if keep value c then takeWhile keep (value.push c) l'.advance.2 else (value, l')
termination_by l.left.length
decreasing_by exact length_left_advance_lt _h

def run (keep : String → Char → Bool) (value : String) : List Char → List Char
  | [] => []
  | c :: cs => if keep value c then c :: run keep (value.push c) cs else []

theorem run_const (p : Char → Bool) (value : String) (cs : List Char) :
    run (fun _ => p) value cs = cs.takeWhile p := by
  induction cs generalizing value with
  | nil => rfl
  | cons c cs ih =>
    rw [run, List.takeWhile_cons]
    split <;> simp_all

theorem takes_takeWhile (keep : String → Char → Bool) (value : String) (l : Lexer σ) :
    (l.takeWhile keep value).1.toList = value.toList ++ run keep value l.left ∧
      Takes l (run keep value l.left) (l.takeWhile keep value).2 := by
  fun_induction takeWhile keep value l with
  | case1 value l l' h =>
    obtain ⟨hhead, htakes⟩ := takes_of_peek h
    rw [List.head?_eq_none_iff.1 hhead]
    exact ⟨(List.append_nil _).symm, htakes⟩
  | case2 value l c l' h hkeep ih =>
    obtain ⟨htakes, hleft⟩ := takes_advance h
    rw [hleft, run, if_pos hkeep]
    refine ⟨?_, htakes.trans ih.2⟩
    rw [ih.1, String.toList_push, List.append_assoc]
    rfl
  | case3 value l c l' h hkeep =>
    obtain ⟨-, hleft⟩ := takes_advance h
    obtain ⟨-, htakes⟩ := takes_of_peek h
    rw [hleft, run, if_neg hkeep]
    exact ⟨(List.append_nil _).symm, htakes⟩

theorem takes_takeWhile_const (p : Char → Bool) (value : String) (l : Lexer σ) :
    (l.takeWhile (fun _ => p) value).1.toList = value.toList ++ l.left.takeWhile p ∧
      Takes l (l.left.takeWhile p) (l.takeWhile (fun _ => p) value).2 ∧
      (l.takeWhile (fun _ => p) value).2.left = l.left.dropWhile p := by
  obtain ⟨hvalue, htakes⟩ := takes_takeWhile (fun _ => p) value l
  rw [run_const] at hvalue htakes
  exact ⟨hvalue, htakes, htakes.left_of_append List.takeWhile_append_dropWhile⟩

/-! Numerals. -/

def keepsNumeral (value : String) (c : Char) : Bool :=
  Text.isLetter c || Text.isDigit c || c == '.' ||
    (Lexeme.isSign c && value.toList.getLast?.any Lexeme.isExponentMark &&
      !Lexeme.isHexLead value.toList)

theorem isExponentMark_of_isDigit {c : Char} (h : Text.isDigit c) :
    Lexeme.isExponentMark c = false := by
  rw [Lexeme.isExponentMark, Bool.or_eq_false_iff, beq_eq_false_iff_ne, beq_eq_false_iff_ne]
  constructor <;> rintro rfl <;> exact absurd h (by decide)

theorem isHexLead_append {c d : Char} {front rest : List Char} :
    Lexeme.isHexLead (c :: d :: front ++ rest) = Lexeme.isHexLead (c :: d :: front) := by
  by_cases hc : c = '0'
  · subst hc
    rfl
  · simp [Lexeme.isHexLead, hc]

section

variable {value : String} {c last : Char} {front : List Char}

/-- What was taken of a numeral tells as much about a sign behind it as the whole text does: the
mark before the sign is not the first character, so the first two are known. -/
theorem keepsNumeral_eq (hc : Text.isDigit c) (hvalue : value.toList = c :: front)
    (hlast : (c :: front).getLast? = some last) (rest : List Char) (d : Char) :
    keepsNumeral value d =
      Lexeme.extendsNumeral (Lexeme.isHexLead (c :: front ++ rest)) last d := by
  rw [keepsNumeral, Lexeme.extendsNumeral, hvalue, hlast, Option.any_some]
  cases front with
  | nil =>
    obtain rfl : c = last := Option.some.inj hlast
    simp [isExponentMark_of_isDigit hc]
  | cons e front =>
    rw [isHexLead_append, Bool.and_comm, ← Bool.and_assoc]

theorem run_keepsNumeral (hc : Text.isDigit c) (hvalue : value.toList = c :: front)
    (hlast : (c :: front).getLast? = some last) (rest : List Char) :
    run keepsNumeral value rest =
      (Lexeme.numeralTail (Lexeme.isHexLead (c :: front ++ rest)) last rest).1 := by
  induction rest generalizing value front last with
  | nil => rfl
  | cons d rest ih =>
    rw [run, Lexeme.numeralTail, keepsNumeral_eq hc hvalue hlast (d :: rest)]
    split
    · have hpush : (value.push d).toList = c :: (front ++ [d]) := by
        rw [String.toList_push, hvalue, List.cons_append]
      have hmore := ih hpush (List.getLast?_concat (l := c :: front))
      simp only [List.cons_append, List.append_assoc, List.nil_append] at hmore
      simp [hmore]
    · rfl

end

/-! String literals. -/

theorem length_left_advance_advance_lt {c : Char} {d : Option Char} (h : l.peek = (some c, l'))
    (h' : l'.advance.2.advance = (d, l'')) : l''.left.length < l.left.length :=
  Nat.lt_of_le_of_lt (takes_of_advance h').2.length_le (length_left_advance_lt h)

def stringTail (quote : Char) (value : String) (l : Lexer σ) : Kind × String × Lexer σ :=
  match _h : l.peek with
  | (none, l') => (.illegal, value, l')
  | (some c, l') =>
    if c = '\n' ∨ c = '\r' then (.illegal, value, l')
    else if c = '\\' then
      match _h' : l'.advance.2.advance with
      | (escaped, l'') =>
        stringTail quote (escaped.elim (value.push c) (value.push c).push) l''
    else if c = quote then (.string, value.push c, l'.advance.2)
    else stringTail quote (value.push c) l'.advance.2
termination_by l.left.length
decreasing_by
  · exact length_left_advance_advance_lt _h _h'
  · exact length_left_advance_lt _h

theorem takes_stringTail (quote : Char) (value : String) (l : Lexer σ) :
    let tail := Lexeme.stringTail quote l.left
    (l.stringTail quote value).1 = (if tail.closed then .string else .illegal) ∧
      (l.stringTail quote value).2.1.toList = value.toList ++ tail.text ∧
      Takes l tail.text (l.stringTail quote value).2.2 := by
  fun_induction stringTail quote value l with
  | case1 value l l' h =>
    obtain ⟨hhead, htakes⟩ := takes_of_peek h
    rw [List.head?_eq_none_iff.1 hhead]
    exact ⟨rfl, (List.append_nil _).symm, htakes⟩
  | case2 value l c l' h hend =>
    obtain ⟨-, hleft⟩ := takes_advance h
    rw [hleft, Lexeme.stringTail_of_lineEnd _ hend]
    exact ⟨rfl, (List.append_nil _).symm, (takes_of_peek h).2⟩
  | case3 value l l' escaped l'' h' h hend ih =>
    obtain ⟨htakes, hleft⟩ := takes_advance h
    obtain ⟨hescaped, htakes'⟩ := takes_of_advance h'
    have htail : Lexeme.stringTail quote l.left =
        (Lexeme.stringTail quote l''.left).push ('\\' :: escaped.toList) := by
      have hrest := htakes'.left_eq
      rw [hleft, hrest]
      cases escaped with
      | none =>
        rw [List.head?_eq_none_iff.1 hescaped] at hrest
        simp [Lexeme.stringTail, (List.append_eq_nil_iff.1 hrest.symm).2, Lexeme.Tail.push]
      | some d => exact Lexeme.stringTail_of_escape _ hend rfl d
    simp only [htail, Lexeme.Tail.push_text, Lexeme.Tail.push_closed]
    refine ⟨ih.1, ?_, (htakes.trans htakes').trans ih.2.2⟩
    rw [ih.2.1]
    cases escaped <;> simp
  | case4 value l l' h hend hc =>
    obtain ⟨htakes, hleft⟩ := takes_advance h
    rw [hleft, Lexeme.stringTail_of_quote _ hend hc rfl]
    exact ⟨rfl, String.toList_push _, htakes⟩
  | case5 value l c l' h hend hc hquote ih =>
    obtain ⟨htakes, hleft⟩ := takes_advance h
    rw [hleft, Lexeme.stringTail_of_other _ hend hc hquote]
    refine ⟨ih.1, ?_, htakes.trans ih.2.2⟩
    rw [ih.2.1, String.toList_push, List.append_assoc]
    rfl

/-! Comments. -/

def takeEquals (l : Lexer σ) : String × Lexer σ := l.takeWhile (fun _ c => c == '=') ""

theorem takes_of_takeEquals {equals : String} (h : l.takeEquals = (equals, l')) :
    equals.toList = l.left.takeWhile (· == '=') ∧ Takes l (l.left.takeWhile (· == '=')) l' ∧
      l'.left = l.left.dropWhile (· == '=') := by
  have hrun := takes_takeWhile_const (· == '=') "" l
  rwa [show l.takeWhile (fun _ c => c == '=') "" = (equals, l') from h] at hrun

/-- Takes a comment through the closing bracket of its level. `text` is what was taken before it,
and whether the bracket was found comes first. -/
def longComment (level : Nat) (text : String) (l : Lexer σ) : Bool × String × Lexer σ :=
  match _h : l.advance with
  | (none, l') => (false, text, l')
  | (some c, l') =>
    if c = ']' then
      match _h₁ : l'.takeEquals with
      | (equals, l₁) =>
        match _h₂ : l₁.peek with
        | (next, l₂) =>
          if equals.length = level ∧ next = some ']' then (true, text, l₂.advance.2)
          else longComment level (text.push c ++ equals) l₂
    else longComment level (text.push c) l'
termination_by l.left.length
decreasing_by
  · have htakes := (takes_of_advance _h).2.trans (takes_of_takeEquals _h₁).2.1
    exact Nat.lt_of_le_of_lt (takes_of_peek _h₂).2.length_le (htakes.length_lt (by simp))
  · exact (takes_of_advance _h).2.length_lt (List.cons_ne_nil _ _)

theorem takes_bracket {equals : String} {next : Option Char} {l₁ l₂ : Lexer σ}
    (h : l.advance = (some ']', l')) (h₁ : l'.takeEquals = (equals, l₁))
    (h₂ : l₁.peek = (next, l₂)) (level : Nat) :
    Takes l (']' :: equals.toList) l₂ ∧ l₂.left.head? = next ∧
      Lexeme.closeBracket level none l.left =
        if equals.length = level ∧ next = some ']' then
          ⟨']' :: equals.toList ++ [']'], true, l₂.left.tail⟩
        else (Lexeme.closeBracket level none l₂.left).push (']' :: equals.toList) := by
  obtain ⟨-, htakes⟩ := takes_of_advance h
  obtain ⟨hequals, htakes₁, hleft₁⟩ := takes_of_takeEquals h₁
  obtain ⟨hnext, htakes₂⟩ := takes_of_peek h₂
  have hleft₂ : l₂.left = l'.left.dropWhile (· == '=') := htakes₂.left_eq.symm.trans hleft₁
  rw [hleft₁, ← hleft₂] at hnext
  have hall := (htakes.trans htakes₁).trans htakes₂
  rw [← hequals, List.append_nil] at hall
  refine ⟨hall, hnext, ?_⟩
  rw [htakes.left_eq, Option.toList_some, List.singleton_append, Lexeme.closeBracket_cons,
    ← hleft₂, ← hequals, hnext, String.length_toList]

theorem takes_longComment (level : Nat) (text : String) (l : Lexer σ) :
    let tail := Lexeme.closeBracket level none l.left
    (l.longComment level text).1 = tail.closed ∧
      (tail.closed = false → (l.longComment level text).2.1.toList = text.toList ++ tail.text) ∧
      Takes l tail.text (l.longComment level text).2.2 := by
  fun_induction longComment level text l with
  | case1 text l l' h =>
    obtain ⟨hhead, htakes⟩ := takes_of_advance h
    rw [List.head?_eq_none_iff.1 hhead]
    exact ⟨rfl, fun _ => (List.append_nil _).symm, htakes⟩
  | case2 text l l' equals l₁ h₁ next l₂ h₂ hclose h =>
    obtain ⟨htakes, hnext, htail⟩ := takes_bracket h h₁ h₂ level
    obtain ⟨hhead, hlast⟩ := takes_of_advance (l := l₂) (a := l₂.advance.1) rfl
    rw [← hhead, hnext, hclose.2] at hlast
    rw [htail, if_pos hclose]
    exact ⟨rfl, nofun, htakes.trans hlast⟩
  | case3 text l l' equals l₁ h₁ next l₂ h₂ hclose h ih =>
    obtain ⟨htakes, -, htail⟩ := takes_bracket h h₁ h₂ level
    rw [htail, if_neg hclose]
    refine ⟨ih.1, fun hopen => ?_, htakes.trans ih.2.2⟩
    rw [ih.2.1 hopen]
    simp
  | case4 text l c l' h hc ih =>
    obtain ⟨-, htakes⟩ := takes_of_advance h
    have htail : Lexeme.closeBracket level none l.left =
        (Lexeme.closeBracket level none l'.left).push [c] := by
      rw [htakes.left_eq, Option.toList_some, List.singleton_append, Lexeme.closeBracket, if_neg hc]
      exact ite_self _
    rw [htail]
    refine ⟨ih.1, fun hopen => ?_, htakes.trans ih.2.2⟩
    rw [ih.2.1 hopen, String.toList_push, List.append_assoc]
    rfl

def token (l : Lexer σ) (k : Kind) (value : String) (start : Position) : Token :=
  ⟨k, value, ⟨start, l.position⟩⟩

def lineComment (l : Lexer σ) : Lexer σ := (l.takeWhile (fun _ c => !Lexeme.isLineEnd c) "").2

theorem takes_lineComment (l : Lexer σ) :
    Takes l (l.left.takeWhile (!Lexeme.isLineEnd ·)) l.lineComment :=
  (takes_takeWhile_const (!Lexeme.isLineEnd ·) "" l).2.1

/-- Takes the comment whose `--` has been taken. There is a token only if it never ends. -/
def comment (start : Position) (l : Lexer σ) : Option Token × Lexer σ :=
  let (next, l₁) := l.peek
  if next = some '[' then
    let (equals, l₂) := l₁.advance.2.takeEquals
    let (next, l₃) := l₂.peek
    if next = some '[' then
      let (closed, text, l₄) :=
        l₃.advance.2.longComment equals.length ("--[" ++ equals ++ "[")
      (if closed then none else some (l₄.token .illegal text start), l₄)
    else (none, l₃.lineComment)
  else (none, l₁.lineComment)

/-- The piece that starts at `l` was taken, and this is its token, if it has one. -/
structure Cuts (l : Lexer σ) (lexeme : Lexeme) (r : Option Token × Lexer σ) : Prop where
  takes : Takes l lexeme.text r.2
  token_eq : r.1 = lexeme.kind.map fun k => lexeme.token k l.position r.2.position

theorem cuts_token {lexeme : Lexeme} {k : Kind} {value : String} (htakes : Takes l lexeme.text l')
    (hkind : lexeme.kind = some k) (hk : k ≠ .newline) (hvalue : value.toList = lexeme.text) :
    Cuts l lexeme (some (l'.token k value l.position), l') := by
  refine ⟨htakes, ?_⟩
  rw [hkind, Option.map_some, Lexeme.token, if_neg hk, ← hvalue, String.ofList_toList]
  rfl

theorem cuts_lineComment {cs front : List Char} (hbracket : Lexeme.longBracket? cs = none)
    (h : Takes l ('-' :: '-' :: front) l') (hcs : cs = front ++ l'.left)
    (hfront : ∀ c ∈ front, Lexeme.isLineEnd c = false) :
    Cuts l (Lexeme.comment cs).1 (none, l'.lineComment) := by
  have hcomment : (Lexeme.comment cs).1 =
      ⟨none, '-' :: '-' :: (front ++ l'.left.takeWhile (!Lexeme.isLineEnd ·))⟩ := by
    simp only [Lexeme.comment, Lexeme.commentTail, hbracket, if_true]
    rw [hcs, List.takeWhile_append_of_pos fun c hc => by rw [hfront c hc]; rfl]
  rw [hcomment]
  exact ⟨h.trans (takes_lineComment l'), rfl⟩

theorem cuts_longComment {cs body : List Char} {level : Nat} {text : String}
    (hbracket : Lexeme.longBracket? cs = some (level, body)) (hbody : l'.left = body)
    (htext : text.toList = '-' :: '-' :: Lexeme.openBracket level) (h : Takes l text.toList l') :
    Cuts l (Lexeme.comment cs).1
      (if (l'.longComment level text).1 then none
        else some ((l'.longComment level text).2.2.token .illegal (l'.longComment level text).2.1
          l.position), (l'.longComment level text).2.2) := by
  obtain ⟨hclosed, hvalue, htakes⟩ := takes_longComment level text l'
  rw [hbody] at hclosed hvalue htakes
  have hcomment : (Lexeme.comment cs).1 =
      ⟨if (Lexeme.closeBracket level none body).closed then none else some .illegal,
        text.toList ++ (Lexeme.closeBracket level none body).text⟩ := by
    simp only [Lexeme.comment, Lexeme.commentTail, hbracket, htext]
    rfl
  rw [hcomment, hclosed]
  cases hend : (Lexeme.closeBracket level none body).closed with
  | true => exact ⟨h.trans htakes, rfl⟩
  | false => exact cuts_token (h.trans htakes) rfl (by decide) (hvalue hend)

theorem takes_opening {equals : String} {next : Option Char} {l₁ l₂ l₃ : Lexer σ}
    (h : l.peek = (some '[', l₁)) (h₁ : l₁.advance.2.takeEquals = (equals, l₂))
    (h₂ : l₂.peek = (next, l₃)) :
    Takes l ('[' :: equals.toList) l₃ ∧ equals.toList = List.replicate equals.length '=' ∧
      l₃.left.head? = next ∧
      Lexeme.longBracket? l.left =
        if next = some '[' then some (equals.length, l₃.left.tail) else none := by
  obtain ⟨htakes, hleft⟩ := takes_advance h
  obtain ⟨hequals, htakes₁, hleft₁⟩ := takes_of_takeEquals h₁
  obtain ⟨hnext, htakes₂⟩ := takes_of_peek h₂
  have hleft₃ : l₃.left = l₁.advance.2.left.dropWhile (· == '=') :=
    htakes₂.left_eq.symm.trans hleft₁
  rw [hleft₁, ← hleft₃] at hnext
  have hall := (htakes.trans htakes₁).trans htakes₂
  rw [← hequals, List.append_nil] at hall
  refine ⟨hall, ?_, hnext, ?_⟩
  · rw [← String.length_toList, hequals]
    exact Lexeme.takeWhile_eq_replicate '=' _
  · rw [hleft, Lexeme.longBracket?_cons, ← hleft₃, hnext, ← hequals, String.length_toList]

theorem cuts_comment (h : Takes l ['-', '-'] l') :
    Cuts l (Lexeme.comment l'.left).1 (l'.comment l.position) := by
  rcases hpeek : l'.peek with ⟨next, l₁⟩
  by_cases hopen : next = some '['
  · subst hopen
    rcases hequals : l₁.advance.2.takeEquals with ⟨equals, l₂⟩
    rcases hpeek₂ : l₂.peek with ⟨next, l₃⟩
    obtain ⟨htakes, hreplicate, hnext, hbracket⟩ := takes_opening hpeek hequals hpeek₂
    simp only [comment, hpeek, hequals, hpeek₂, if_true]
    by_cases hopen : next = some '['
    · subst hopen
      obtain ⟨hhead, hlast⟩ := takes_of_advance (l := l₃) (a := l₃.advance.1) rfl
      rw [← hhead, hnext] at hlast
      have hbody : l₃.advance.2.left = l₃.left.tail := by rw [hlast.left_eq]; rfl
      have htext : ("--[" ++ equals ++ "[").toList =
          '-' :: '-' :: Lexeme.openBracket equals.length := by
        simp [Lexeme.openBracket, hreplicate]
      have hall := (h.trans htakes).trans hlast
      rw [if_pos rfl] at hbracket ⊢
      refine cuts_longComment hbracket hbody htext ?_
      rw [htext, Lexeme.openBracket, ← hreplicate]
      exact hall
    · rw [if_neg hopen] at hbracket ⊢
      refine cuts_lineComment hbracket (h.trans htakes) htakes.left_eq ?_
      intro c hc
      rw [hreplicate] at hc
      rcases List.mem_cons.1 hc with rfl | hc
      · rfl
      · rw [List.eq_of_mem_replicate hc]
        rfl
  · obtain ⟨hnext, htakes⟩ := takes_of_peek hpeek
    simp only [comment, hpeek, if_neg hopen]
    rw [← hnext] at hopen
    exact cuts_lineComment (Lexeme.longBracket?_of_head? hopen) (h.trans htakes)
      htakes.left_eq (by simp)

/-! Symbols. -/

def extendSymbol (k : Kind) (l : Lexer σ) : Kind × Lexer σ :=
  match _h : l.peek with
  | (none, l') => (k, l')
  | (some c, l') =>
    match Lexeme.longer? k c with
    | some k' => extendSymbol k' l'.advance.2
    | none => (k, l')
termination_by l.left.length
decreasing_by exact length_left_advance_lt _h

theorem takes_extendSymbol (k : Kind) (l : Lexer σ) :
    (l.extendSymbol k).1 = (Lexeme.longest k l.left).1 ∧
      ∃ text, Takes l text (l.extendSymbol k).2 ∧
        k.text.toList ++ text = (l.extendSymbol k).1.text.toList := by
  fun_induction extendSymbol k l with
  | case1 k l l' h =>
    obtain ⟨hhead, htakes⟩ := takes_of_peek h
    rw [List.head?_eq_none_iff.1 hhead]
    exact ⟨rfl, [], htakes, List.append_nil _⟩
  | case2 k l c l' h k' hlonger ih =>
    obtain ⟨htakes, hleft⟩ := takes_advance h
    obtain ⟨hkind, text, hmore, htext⟩ := ih
    rw [hleft, Lexeme.longest, hlonger]
    refine ⟨hkind, c :: text, htakes.trans hmore, ?_⟩
    rw [← htext, Lexeme.text_longer? hlonger, List.append_assoc]
    rfl
  | case3 k l c l' h hlonger =>
    obtain ⟨-, hleft⟩ := takes_advance h
    rw [hleft, Lexeme.longest, hlonger]
    exact ⟨rfl, [], (takes_of_peek h).2, List.append_nil _⟩

def symbol (c : Char) (start : Position) (l : Lexer σ) : Option Token × Lexer σ :=
  match Lexeme.single? c with
  | some k =>
    let (k', l') := l.extendSymbol k
    (some (l'.token k' k'.text start), l')
  | none => (some (l.token .illegal (String.singleton c) start), l)

theorem cuts_symbol {c : Char} (h : Takes l [c] l') :
    Cuts l (Lexeme.symbol c l'.left).1 (l'.symbol c l.position) := by
  have hsymbol := Lexeme.symbol?_cons c l'.left
  rw [Lexeme.symbol, symbol]
  cases hsingle : Lexeme.single? c with
  | none =>
    rw [hsingle, Option.map_none] at hsymbol
    rw [hsymbol]
    exact cuts_token h rfl (by decide) (String.toList_singleton c)
  | some k =>
    rw [hsingle, Option.map_some] at hsymbol
    have hmem := Lexeme.mem_symbols_of_symbol? hsymbol
    obtain ⟨hkind, text, htakes, htext⟩ := takes_extendSymbol k l'
    have hall := h.trans htakes
    rw [← Lexeme.text_single? hsingle, htext] at hall
    rw [hsymbol]
    dsimp only
    rw [← hkind] at hmem ⊢
    refine cuts_token hall rfl ?_ rfl
    intro hnewline
    rw [hnewline] at hmem
    exact absurd hmem (by decide)

end Lexer

end LuaSyntax
