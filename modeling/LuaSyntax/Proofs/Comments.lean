import LuaSyntax.Proofs.Layout

/-! Where comments end. A long bracket is over with the first bracket of its level that closes it,
although the search never goes back and brackets overlap; any other comment is over with its
line. -/

namespace LuaSyntax

/-- Of the places in the text where the pattern occurs, the first is right behind `front`. There it
is followed by `rest`. -/
structure FirstAt (pattern text front rest : List Char) : Prop where
  occurs : text = front ++ (pattern ++ rest)
  first : ∀ front' rest', text = front' ++ (pattern ++ rest') → front.length ≤ front'.length

theorem FirstAt.unique {pattern text front rest front' rest' : List Char}
    (h : FirstAt pattern text front rest) (h' : FirstAt pattern text front' rest') :
    front = front' ∧ rest = rest' := by
  have hlength := Nat.le_antisymm (h.first _ _ h'.occurs) (h'.first _ _ h.occurs)
  obtain ⟨hfront, hback⟩ := List.append_inj (h.occurs.symm.trans h'.occurs) hlength
  exact ⟨hfront, List.append_cancel_left hback⟩

theorem firstAt_of_not_before {pattern front : List Char}
    (h : ¬pattern <:+: (front ++ pattern).dropLast) (rest : List Char) :
    FirstAt pattern (front ++ (pattern ++ rest)) front rest := by
  refine ⟨rfl, fun front' rest' heq => Nat.le_of_not_lt fun hlt => h ?_⟩
  have hstart : front' ++ pattern <+: front ++ pattern ++ rest := by
    rw [List.append_assoc, heq, ← List.append_assoc]
    exact List.prefix_append _ rest'
  have hend : (front ++ pattern).dropLast <+: front ++ pattern ++ rest :=
    (List.dropLast_prefix _).trans (List.prefix_append _ rest)
  have hlength : (front' ++ pattern).length ≤ (front ++ pattern).dropLast.length := by
    rw [List.length_dropLast, List.length_append, List.length_append]
    omega
  exact (List.suffix_append front' pattern).isInfix.trans
    (List.prefix_of_prefix_length_le hstart hend hlength).isInfix

namespace Lexeme

theorem count_closingBracket (level : Nat) : (closingBracket level).count ']' = 2 := by
  simp [closingBracket, List.count_append, List.count_replicate]

theorem count_opened_le (state : Option Nat) : (opened state).count ']' ≤ 1 := by
  cases state with
  | none => exact Nat.zero_le 1
  | some k => simp [opened, List.count_replicate]

/-- A search that fails has missed no closing bracket, not even one of which a part had been read
before. -/
theorem not_infix_of_open {level : Nat} {state : Option Nat} {cs : List Char}
    (h : (closeBracket level state cs).closed = false) :
    ¬closingBracket level <:+: opened state ++ cs := by
  fun_induction closeBracket level state cs with
  | case1 state =>
    intro hinfix
    have hcount := hinfix.sublist.count_le ']'
    have hle := count_opened_le state
    rw [List.append_nil, count_closingBracket] at hcount
    omega
  | case2 => cases h
  | case3 state cs hstate ih =>
    exact fun hinfix => ih h (infix_of_infix_opened (by decide) (fun hs => hstate hs.1) hinfix)
  | case4 state cs hclose ih =>
    intro hinfix
    apply ih h
    cases state with
    | none => exact infix_of_infix_cons (by decide) hinfix
    | some k => rwa [Option.map_some, opened_succ, List.append_assoc]
  | case5 state c cs hclose heq ih =>
    intro hinfix
    have hrest := infix_of_infix_opened heq (fun hs => hclose hs.2) hinfix
    exact ih h (infix_of_infix_cons hclose hrest)

section Long

variable {level : Nat} {body : List Char}

theorem commentTail_of_closing (h : closingBracket level <:+: body) :
    ∃ inside rest, FirstAt (closingBracket level) body inside rest ∧
      commentTail (openBracket level ++ body) =
        ⟨openBracket level ++ (inside ++ closingBracket level), true, rest⟩ := by
  have hclosed : (closeBracket level none body).closed = true :=
    eq_true_of_ne_false fun hopen => not_infix_of_open hopen h
  obtain ⟨inside, hinside, hfirst⟩ := exists_closingBracket hclosed
  have htext : (closeBracket level none body).text = inside ++ closingBracket level := hinside
  have hbody := closeBracket_append level none body
  rw [htext, List.append_assoc] at hbody
  rw [← dropLast_append_closingBracket] at hfirst
  have hplace := firstAt_of_not_before hfirst (closeBracket level none body).rest
  rw [hbody] at hplace
  refine ⟨inside, _, hplace, ?_⟩
  simp only [commentTail, longBracket?_openBracket]
  rw [Tail.push, htext, hclosed]

theorem commentTail_of_no_closing (h : ¬closingBracket level <:+: body) :
    commentTail (openBracket level ++ body) = ⟨openBracket level ++ body, false, []⟩ := by
  have hbody := closeBracket_append level none body
  have hopen : (closeBracket level none body).closed = false := by
    refine eq_false_of_ne_true fun hclosed => h ?_
    obtain ⟨inside, hinside, -⟩ := exists_closingBracket hclosed
    rw [show (closeBracket level none body).text = inside ++ closingBracket level from hinside]
      at hbody
    exact ⟨inside, _, hbody⟩
  have hrest := closeBracket_rest_of_open hopen
  rw [hrest, List.append_nil] at hbody
  simp only [commentTail, longBracket?_openBracket]
  rw [Tail.push, hbody, hopen, hrest]

end Long

theorem longBracket?_eq_none {w : List Char} (h : ∀ level, ¬openBracket level <+: w) :
    longBracket? w = none := by
  rcases hbracket : longBracket? w with _ | ⟨level, body⟩
  · rfl
  · exact absurd ⟨body, openBracket_append hbracket⟩ (h level)

theorem commentTail_of_line {w : List Char} (h : ∀ level, ¬openBracket level <+: w) :
    ∃ line rest, w = line ++ rest ∧ (∀ c ∈ line, c ≠ '\n' ∧ c ≠ '\r') ∧
      (∀ c ∈ rest.head?, c = '\n' ∨ c = '\r') ∧ commentTail w = ⟨line, true, rest⟩ := by
  have hclosed : (commentTail w).closed = true := by
    simp only [commentTail, longBracket?_eq_none h]
  have hskipped := skipped_of_commentTail hclosed
  have happend := commentTail_append w
  refine ⟨(commentTail w).text, (commentTail w).rest, happend.symm, ?_⟩
  generalize htext : '-' :: '-' :: (commentTail w).text = text at hskipped
  cases hskipped with
  | blank => cases htext
  | lineComment hopen hline hrest =>
    cases htext
    exact ⟨hline, hrest, by rw [← hclosed]⟩
  | @longComment level body hbody =>
    have hbracket := (List.cons.inj (List.cons.inj htext).2).2
    rw [hbracket, List.append_assoc] at happend
    exact absurd ⟨_, happend⟩ (h level)

theorem first_of_dashes (w : List Char) : first '-' ('-' :: w) = comment w := rfl

end Lexeme

namespace Scanner

open Lexeme

/-- A scan that stands at `p` before two dashes, `text` and `rest` takes the dashes and the text
for a comment, which is no token, and goes on with the rest. -/
def SkipsComment (p : Position) (text rest : List Char) : Prop :=
  comment (text ++ rest) = (⟨none, '-' :: '-' :: text⟩, rest) ∧
    next ⟨p, '-' :: '-' :: (text ++ rest)⟩ =
      next ⟨p.after ('-' :: '-' :: text) rest.head?, rest⟩

theorem skipsComment_of_closed {w text rest : List Char} (h : commentTail w = ⟨text, true, rest⟩)
    (p : Position) : SkipsComment p text rest := by
  have hw : text ++ rest = w := by
    have happend := commentTail_append w
    rwa [h] at happend
  have hcomment : comment w = (⟨none, '-' :: '-' :: text⟩, rest) := by
    simp only [comment, h, if_true]
  rw [SkipsComment, hw]
  refine ⟨hcomment, ?_⟩
  rw [next, first_of_dashes, hcomment]

theorem next_of_open {w : List Char} (h : commentTail w = ⟨w, false, []⟩) (p : Position) :
    next ⟨p, '-' :: '-' :: w⟩ =
      (⟨.illegal, String.ofList ('-' :: '-' :: w), ⟨p, p.after ('-' :: '-' :: w) none⟩⟩,
        ⟨p.after ('-' :: '-' :: w) none, []⟩) := by
  have hcomment : comment w = (⟨some .illegal, '-' :: '-' :: w⟩, []) := by
    simp [comment, h]
  rw [next, first_of_dashes, hcomment]
  rfl

/-- Where a comment that begins before `w` ends. Behind a long bracket it goes through the first
bracket that closes it; if there is none it takes all that is left and is illegal. Behind anything
else it goes up to the next line end. -/
theorem comment_ends (p : Position) (w : List Char) :
    (∀ level body, w = openBracket level ++ body →
      (closingBracket level <:+: body →
        ∃ inside rest, FirstAt (closingBracket level) body inside rest ∧
          SkipsComment p (openBracket level ++ (inside ++ closingBracket level)) rest) ∧
      (¬closingBracket level <:+: body →
        next ⟨p, '-' :: '-' :: w⟩ =
          (⟨.illegal, String.ofList ('-' :: '-' :: w), ⟨p, p.after ('-' :: '-' :: w) none⟩⟩,
            ⟨p.after ('-' :: '-' :: w) none, []⟩))) ∧
    ((∀ level, ¬openBracket level <+: w) →
      ∃ line rest, w = line ++ rest ∧ (∀ c ∈ line, c ≠ '\n' ∧ c ≠ '\r') ∧
        (∀ c ∈ rest.head?, c = '\n' ∨ c = '\r') ∧ SkipsComment p line rest) := by
  refine ⟨?_, fun hopen => ?_⟩
  · rintro level body rfl
    refine ⟨fun hclose => ?_, fun hclose => ?_⟩
    · obtain ⟨inside, rest, hfirst, htail⟩ := commentTail_of_closing hclose
      exact ⟨inside, rest, hfirst, skipsComment_of_closed htail p⟩
    · exact next_of_open (commentTail_of_no_closing hclose) p
  · obtain ⟨line, rest, hw, hline, hrest, htail⟩ := commentTail_of_line hopen
    exact ⟨line, rest, hw, hline, hrest, skipsComment_of_closed htail p⟩

theorem comment_ends_overlap :
    let p := Position.origin defaultName
    SkipsComment p "[=[]==]=]".toList "]=]".toList ∧
      next ⟨p, "--[=[]]".toList⟩ =
        (⟨.illegal, "--[=[]]", ⟨p, ⟨1, 8, defaultName⟩⟩⟩, ⟨⟨1, 8, defaultName⟩, []⟩) := by
  intro p
  constructor
  · have hnot : ¬closingBracket 1 <:+: ("]==".toList ++ closingBracket 1).dropLast := by decide
    have hinfix : closingBracket 1 <:+: "]==]=]]=]".toList := ⟨"]==".toList, "]=]".toList, rfl⟩
    obtain ⟨inside, rest, hfirst, hskips⟩ := ((comment_ends p _).1 1 _ rfl).1 hinfix
    obtain ⟨rfl, rfl⟩ := (firstAt_of_not_before hnot "]=]".toList).unique hfirst
    exact hskips
  · exact ((comment_ends p _).1 1 "]]".toList rfl).2 (by decide)

end Scanner

end LuaSyntax
