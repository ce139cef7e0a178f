/-! Pieces of text with an opening and an end: comments and string literals. After `--`, a long
bracket `[`, any number of `=`, `[` opens a comment that runs through the first closing bracket of
the same level; anything else is a comment up to the end of the line. In a string literal a
backslash takes the next character with it, whatever that is; otherwise the literal ends at its
quote, and a line end cuts it off. -/

namespace LuaSyntax.Lexeme

/-- The text read after an opening, whether the end that it calls for was found, and what
follows. -/
structure Tail where
  text : List Char
  closed : Bool
  rest : List Char
deriving DecidableEq

namespace Tail

def push (front : List Char) (t : Tail) : Tail := { t with text := front ++ t.text }

@[simp] theorem push_text (front : List Char) (t : Tail) : (t.push front).text = front ++ t.text :=
  rfl

@[simp] theorem push_closed (front : List Char) (t : Tail) : (t.push front).closed = t.closed :=
  rfl

@[simp] theorem push_rest (front : List Char) (t : Tail) : (t.push front).rest = t.rest := rfl

end Tail

/-! Comments. -/

def longBracket? (cs : List Char) : Option (Nat × List Char) :=
  match cs with
  | '[' :: ds =>
    match ds.dropWhile (· == '=') with
    | '[' :: body => some ((ds.takeWhile (· == '=')).length, body)
    | _ => none
  | _ => none

def openBracket (level : Nat) : List Char := '[' :: List.replicate level '=' ++ ['[']

/-- Reads through the first closing bracket of the level. The state says how much of one has
just been read: `some k` after `]` and `k` signs `=`, and `none` otherwise. -/
def closeBracket (level : Nat) (state : Option Nat) : List Char → Tail
  | [] => ⟨[], false, []⟩
  | c :: cs =>
    if c = ']' then
      if state = some level then ⟨[c], true, cs⟩
      else (closeBracket level (some 0) cs).push [c]
    else if c = '=' then (closeBracket level (state.map (· + 1)) cs).push [c]
    else (closeBracket level none cs).push [c]

def isLineEnd (c : Char) : Bool := c == '\n' || c == '\r'

def commentTail (cs : List Char) : Tail :=
  match longBracket? cs with
  | some (level, body) => (closeBracket level none body).push (openBracket level)
  | none => ⟨cs.takeWhile (!isLineEnd ·), true, cs.dropWhile (!isLineEnd ·)⟩

theorem closeBracket_append (level : Nat) (state : Option Nat) (cs : List Char) :
    (closeBracket level state cs).text ++ (closeBracket level state cs).rest = cs := by
  fun_induction closeBracket level state cs <;> simp_all

theorem takeWhile_eq_replicate (c : Char) (cs : List Char) :
    cs.takeWhile (· == c) = List.replicate (cs.takeWhile (· == c)).length c := by
  rw [List.eq_replicate_iff]
  refine ⟨rfl, fun b hb => ?_⟩
  have := List.all_takeWhile (p := (· == c)) (l := cs)
  rw [List.all_eq_true] at this
  simpa using this b hb

theorem closeBracket_replicate (level j k : Nat) (cs : List Char) :
    closeBracket level (some j) (List.replicate k '=' ++ cs) =
      (closeBracket level (some (j + k)) cs).push (List.replicate k '=') := by
  induction k generalizing j with
  | zero => rfl
  | succ k ih =>
    rw [List.replicate_succ, List.cons_append, closeBracket, if_neg (by decide), if_pos rfl,
      Option.map_some, ih, Nat.add_right_comm]
    rfl

/-- What has been read of a closing bracket is of no use if the next character does not go on
with it. -/
theorem closeBracket_some {level k : Nat} {cs : List Char} (hequals : cs.head? ≠ some '=')
    (hclose : ¬(k = level ∧ cs.head? = some ']')) :
    closeBracket level (some k) cs = closeBracket level none cs := by
  cases cs with
  | nil => rfl
  | cons c cs =>
    have hc : c ≠ '=' := fun h => hequals (congrArg some h)
    rw [closeBracket, closeBracket, if_neg hc, if_neg hc]
    split
    · next hbracket =>
      have hlevel : some k ≠ some level := fun h =>
        hclose ⟨Option.some.inj h, congrArg some hbracket⟩
      rw [if_neg hlevel, if_neg (Option.some_ne_none level).symm]
    · rfl

/-- Behind a bracket and all the `=` that follow it, the comment is closed or goes on afresh. -/
theorem closeBracket_cons (level : Nat) (cs : List Char) :
    closeBracket level none (']' :: cs) =
      if (cs.takeWhile (· == '=')).length = level ∧
          (cs.dropWhile (· == '=')).head? = some ']' then
        ⟨']' :: cs.takeWhile (· == '=') ++ [']'], true, (cs.dropWhile (· == '=')).tail⟩
      else (closeBracket level none (cs.dropWhile (· == '='))).push
        (']' :: cs.takeWhile (· == '=')) := by
  rw [closeBracket, if_pos rfl, if_neg (Option.some_ne_none level).symm]
  conv => lhs; rw [← List.takeWhile_append_dropWhile (p := (· == '=')) (l := cs)]
  rw [takeWhile_eq_replicate, closeBracket_replicate, Nat.zero_add]
  generalize (cs.takeWhile (· == '=')).length = k
  have hequals : (cs.dropWhile (· == '=')).head? ≠ some '=' := by
    intro h
    have hnot := List.head?_dropWhile_not (· == '=') cs
    rw [h] at hnot
    exact absurd hnot (by decide)
  generalize cs.dropWhile (· == '=') = rest at hequals ⊢
  rw [List.length_replicate]
  split
  · next h =>
    obtain ⟨rfl, hhead⟩ := h
    obtain ⟨ds, rfl⟩ := List.head?_eq_some_iff.1 hhead
    rw [closeBracket, if_pos rfl, if_pos rfl]
    rfl
  · next h =>
    rw [closeBracket_some hequals h]
    rfl

theorem longBracket?_of_head? {cs : List Char} (h : cs.head? ≠ some '[') :
    longBracket? cs = none := by
  unfold longBracket?
  split
  · exact absurd rfl h
  · rfl

theorem longBracket?_cons (cs : List Char) :
    longBracket? ('[' :: cs) =
      if (cs.dropWhile (· == '=')).head? = some '[' then
        some ((cs.takeWhile (· == '=')).length, (cs.dropWhile (· == '=')).tail)
      else none := by
  rw [longBracket?]
  split
  · next body hbody => rw [hbody, List.head?_cons, if_pos rfl, List.tail_cons]
  · next hbody =>
    rw [if_neg]
    intro hhead
    obtain ⟨body, hcons⟩ := List.head?_eq_some_iff.1 hhead
    exact hbody body hcons

theorem openBracket_append {cs body : List Char} {level : Nat}
    (h : longBracket? cs = some (level, body)) : openBracket level ++ body = cs := by
  unfold longBracket? at h
  split at h
  · next ds =>
    split at h
    · next rest hd =>
      obtain ⟨rfl, rfl⟩ : (ds.takeWhile (· == '=')).length = level ∧ rest = body := by
        simpa using h
      have hds : List.replicate (ds.takeWhile (· == '=')).length '=' ++ '[' :: rest = ds := by
        rw [← takeWhile_eq_replicate, ← hd]
        exact List.takeWhile_append_dropWhile
      simp [openBracket, hds]
    · simp at h
  · simp at h

theorem commentTail_append (cs : List Char) :
    (commentTail cs).text ++ (commentTail cs).rest = cs := by
  unfold commentTail
  split
  · next level body h =>
    simp [closeBracket_append, openBracket_append h]
  · simp

/-! String literals. -/

def stringTail (quote : Char) : List Char → Tail
  | [] => ⟨[], false, []⟩
  | c :: cs =>
    if c = '\n' ∨ c = '\r' then ⟨[], false, c :: cs⟩
    else if c = '\\' then
      match cs with
      | [] => ⟨[c], false, []⟩
      | d :: ds => (stringTail quote ds).push [c, d]
    else if c = quote then ⟨[c], true, cs⟩
    else (stringTail quote cs).push [c]

section

variable {quote c : Char} (cs : List Char)

theorem stringTail_of_lineEnd (hline : c = '\n' ∨ c = '\r') :
    stringTail quote (c :: cs) = ⟨[], false, c :: cs⟩ := by
  cases cs <;> rw [stringTail, if_pos hline]

theorem stringTail_of_escape (hline : ¬(c = '\n' ∨ c = '\r')) (hescape : c = '\\') (d : Char) :
    stringTail quote (c :: d :: cs) = (stringTail quote cs).push [c, d] := by
  rw [stringTail, if_neg hline, if_pos hescape]

theorem stringTail_of_quote (hline : ¬(c = '\n' ∨ c = '\r')) (hescape : ¬c = '\\')
    (hquote : c = quote) : stringTail quote (c :: cs) = ⟨[c], true, cs⟩ := by
  cases cs <;> rw [stringTail, if_neg hline, if_neg hescape, if_pos hquote]

theorem stringTail_of_other (hline : ¬(c = '\n' ∨ c = '\r')) (hescape : ¬c = '\\')
    (hquote : ¬c = quote) : stringTail quote (c :: cs) = (stringTail quote cs).push [c] := by
  cases cs with
  | nil => simp [stringTail, not_or.1 hline, hescape, hquote, Tail.push]
  | cons d ds => rw [stringTail, if_neg hline, if_neg hescape, if_neg hquote]

end

theorem stringTail_append (quote : Char) (cs : List Char) :
    (stringTail quote cs).text ++ (stringTail quote cs).rest = cs := by
  fun_induction stringTail quote cs <;> simp_all

end LuaSyntax.Lexeme
