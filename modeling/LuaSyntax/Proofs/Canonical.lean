import LuaSyntax.Parse.Header
import LuaSyntax.Proofs.Lexicon
import LuaSyntax.Proofs.Marks

/-! A reader of canonical text, which finds the tree without its marks. It goes down by a bound on
its depth, for which the length of the text is always enough. -/

namespace LuaSyntax

namespace Canonical

/-- Where the tokens of canonical text are taken to stand. -/
def here : Position := .origin defaultName

def cut : List Char → Option (Token × List Char)
  | [] => none
  | c :: cs =>
    (Lexeme.first c cs).1.kind.map fun k =>
      (.synthetic k (String.ofList (Lexeme.first c cs).1.text) here, (Lexeme.first c cs).2)

def skip (s : String) (cs : List Char) : Option (List Char) :=
  if s.toList.isPrefixOf cs then some (cs.drop s.toList.length) else none

def readName (cs : List Char) : Option (Name Unit × List Char) :=
  (cut cs).map fun (t, cs) => (⟨(), t.value⟩, cs)

def readItems {α : Type} (read : List Char → Option (α × List Char)) :
    Nat → List Char → Option (List α × List Char)
  | 0, _ => none
  | n + 1, cs =>
    match skip "[" cs with
    | none => some ([], cs)
    | some cs => do
      let (a, cs) ← read cs
      let cs ← skip "]" cs
      let (as, cs) ← readItems read n cs
      return (a :: as, cs)

def readLiteral (t : Token) : Option (Expr Unit) :=
  match Expr.ofToken? t with
  | some (.ok e) => some (e.map fun _ => ())
  | _ => none

def readExpr : Nat → List Char → Option (Expr Unit × List Char)
  | 0, _ => none
  | n + 1, cs => do
    let (t, cs) ← cut cs
    if t.kind = .leftBracket then
      let (op, ds) ← cut cs
      if op.kind.isUnary then
        let ds ← skip " " ds
        let (e, ds) ← readExpr n ds
        let ds ← skip "]" ds
        return (.unary () op.value e, ds)
      else
        let (l, cs) ← readExpr n cs
        let cs ← skip " " cs
        let (op, cs) ← cut cs
        let cs ← skip " " cs
        let (r, cs) ← readExpr n cs
        let cs ← skip "]" cs
        return (.binary () op.value l r, cs)
    else
      match skip "[" cs with
      | none =>
        let e ← readLiteral t
        return (e, cs)
      | some cs =>
        let (es, cs) ← readItems (readExpr n) n cs
        let cs ← skip "]" cs
        return (.call () ⟨(), t.value⟩ es, cs)

def readAssign (isLocal : Bool) (n : Nat) (cs : List Char) : Option (Assign Unit × List Char) := do
  let (name, cs) ← readName cs
  let cs ← skip " = " cs
  let (e, cs) ← readExpr n cs
  return (⟨(), name, e, isLocal⟩, cs)

def readStmt : Nat → List Char → Option (Stmt Unit × List Char)
  | 0, _ => none
  | n + 1, cs => do
    let (t, ds) ← cut cs
    match t.kind with
    | .kwReturn =>
      match skip " " ds with
      | none => return (.ret () none, ds)
      | some ds =>
        let (e, ds) ← readExpr n ds
        return (.ret () (some e), ds)
    | .kwLocal =>
      let ds ← skip " " ds
      let (a, ds) ← readAssign true n ds
      return (.assign a, ds)
    | .kwIf =>
      let ds ← skip " " ds
      let (c, ds) ← readExpr n ds
      let ds ← skip " then " ds
      let (ss, ds) ← readItems (readStmt n) n ds
      match skip " else " ds with
      | none =>
        let ds ← skip " end" ds
        return (.cond () c ⟨(), ss⟩ none, ds)
      | some ds =>
        let (us, ds) ← readItems (readStmt n) n ds
        let ds ← skip " end" ds
        return (.cond () c ⟨(), ss⟩ (some ⟨(), us⟩), ds)
    | .kwWhile =>
      let ds ← skip " " ds
      let (c, ds) ← readExpr n ds
      let ds ← skip " do " ds
      let (ss, ds) ← readItems (readStmt n) n ds
      let ds ← skip " end" ds
      return (.whileLoop () c ⟨(), ss⟩, ds)
    | .kwFor =>
      let ds ← skip " " ds
      let ds ← skip "[" ds
      let (a, ds) ← readAssign false n ds
      let ds ← skip ", " ds
      let (l, ds) ← readExpr n ds
      let ds ← skip ", " ds
      let (s, ds) ← readExpr n ds
      let ds ← skip "]" ds
      let ds ← skip " do " ds
      let (ss, ds) ← readItems (readStmt n) n ds
      let ds ← skip " end" ds
      return (.forLoop () a l s ⟨(), ss⟩, ds)
    | .kwRepeat =>
      let ds ← skip " " ds
      let (ss, ds) ← readItems (readStmt n) n ds
      let ds ← skip " until " ds
      let (c, ds) ← readExpr n ds
      return (.repeatLoop () ⟨(), ss⟩ c, ds)
    | .kwFunction =>
      let ds ← skip " " ds
      let (name, ds) ← readName ds
      let ds ← skip "[" ds
      let (ps, ds) ← readItems readName n ds
      let ds ← skip "]" ds
      let ds ← skip " " ds
      let (ss, ds) ← readItems (readStmt n) n ds
      let ds ← skip " end" ds
      return (.function () name ps ⟨(), ss⟩, ds)
    | _ =>
      let (e, ds) ← readExpr (n + 1) cs
      if (skip " = " ds).isSome then
        let (a, ds) ← readAssign false (n + 1) cs
        return (.assign a, ds)
      else return (.expression () e, ds)

def readLines : Nat → List Char → Option (Program Unit)
  | 0, _ => none
  | _ + 1, [] => some []
  | n + 1, cs =>
    match readStmt n cs with
    | none => none
    | some (s, []) => some [s]
    | some (s, _ :: cs) => (readLines n cs).map (s :: ·)

def readProgram (text : String) : Option (Program Unit) :=
  readLines (text.length + 2) text.toList

/-! What may stand behind a piece of canonical text. -/

def Ends (r : List Char) : Prop := ∀ c ∈ r.head?, isBreak c = true ∧ c ≠ '['

def Closes (r : List Char) : Prop := ∀ c ∈ r.head?, c = '\n' ∨ c = ']'

theorem Ends.breaks {r : List Char} (h : Ends r) : Breaks r := fun c hc => (h c hc).1

theorem Closes.ends {r : List Char} (h : Closes r) : Ends r := by
  intro c hc
  rcases h c hc with rfl | rfl
  · exact ⟨rfl, by decide⟩
  · exact ⟨rfl, by decide⟩

theorem breaks_cons {c : Char} (h : isBreak c = true) (cs : List Char) : Breaks (c :: cs) := by
  rintro _ ⟨⟩
  exact h

theorem ends_text (s : String) {c : Char} (hs : s.toList.head? = some c)
    (hc : isBreak c = true ∧ c ≠ '[') (r : List Char) : Ends (s.toList ++ r) := by
  rw [Ends, List.head?_append, hs]
  rintro _ ⟨⟩
  exact hc

theorem closes_bracket (cs : List Char) : Closes (']' :: cs) := by
  rintro _ ⟨⟩
  exact .inr rfl

/-! The readers of tokens and of fixed texts. -/

theorem skip_append (s : String) (r : List Char) : skip s (s.toList ++ r) = some r := by
  have hprefix : s.toList.isPrefixOf (s.toList ++ r) = true :=
    List.isPrefixOf_iff_prefix.2 (List.prefix_append _ _)
  rw [skip, if_pos hprefix, List.drop_left]

theorem skip_eq_none {s : String} {c : Char} {r : List Char} (hs : s.toList.head? = some c)
    (hr : ∀ d ∈ r.head?, d ≠ c) : skip s r = none := by
  rw [skip, if_neg]
  intro hprefix
  obtain ⟨ds, rfl⟩ := List.isPrefixOf_iff_prefix.1 hprefix
  rw [List.head?_append, hs] at hr
  exact hr c rfl rfl

theorem skip_bracket_of_ends {r : List Char} (hr : Ends r) : skip "[" r = none :=
  skip_eq_none rfl fun d hd => (hr d hd).2

theorem Closes.ne_space {r : List Char} (hr : Closes r) : ∀ d ∈ r.head?, d ≠ ' ' := by
  intro d hd
  rcases hr d hd with rfl | rfl
  · decide
  · decide

theorem cut_append {t : Token} (ht : t.StandsAlone) {r : List Char} (hr : Breaks r) :
    cut (t.value.toList ++ r) = some (t.move fun _ => here, r) := by
  obtain ⟨c, ds, htext, hfirst⟩ := ht
  have hvalue : t.value = String.ofList (c :: ds) := by rw [← htext, String.ofList_toList]
  rw [htext, List.cons_append, cut, hfirst r hr, Option.map_some]
  simp only [← hvalue]
  rfl

theorem cut_keyword {k : Kind} (hk : k ∈ Kind.keywords) {r : List Char} (hr : Breaks r) :
    cut (k.text.toList ++ r) = some (.synthetic k k.text here, r) := by
  have hmem := List.mem_append_left Kind.symbols hk
  obtain ⟨-, -, -, hillegal, -⟩ := Lexeme.ne_of_mem_spelled hmem
  have halone : (Token.synthetic k k.text here).StandsAlone :=
    standsAlone_of_isToken (Spelling.isToken_of_mem hmem) hillegal
  exact cut_append halone hr

theorem cut_opener (k : Kind) {s : String} (hk : k ∈ Kind.keywords) (hs : k.text ++ " " = s)
    (cs : List Char) :
    cut (s.toList ++ cs) = some (.synthetic k k.text here, " ".toList ++ cs) := by
  rw [← hs, String.toList_append, List.append_assoc]
  exact cut_keyword hk (breaks_cons rfl cs)

theorem cut_bracket (cs : List Char) :
    cut ("[".toList ++ cs) = some (.synthetic .leftBracket "[" here, cs) := rfl

theorem readName_append {t : Token} (ht : t.StandsAlone) {r : List Char} (hr : Breaks r) :
    readName (t.value.toList ++ r) = some ((Name.ofToken t).map fun _ => (), r) := by
  rw [readName, cut_append ht hr]
  rfl

/-- The reader finds the value in the text, before whatever satisfies `R`. -/
def ReadsAs {α : Type} (read : Nat → List Char → Option (α × List Char)) (R : List Char → Prop)
    (text : String) (value : α) : Prop :=
  ∀ n, text.length < n → ∀ r, R r → read n (text.toList ++ r) = some (value, r)

theorem ReadsAs.of_succ {α : Type} {read : Nat → List Char → Option (α × List Char)}
    {R : List Char → Prop} {text : String} {value : α}
    (h : ∀ n, text.length ≤ n → ∀ r, R r → read (n + 1) (text.toList ++ r) = some (value, r)) :
    ReadsAs read R text value := by
  intro n hn r hr
  cases n with
  | zero => exact absurd hn (Nat.not_lt_zero _)
  | succ n => exact h n (Nat.le_of_lt_succ hn) r hr

def items {β : Type} (text : β → String) (xs : List β) : String :=
  String.join (xs.map fun x => bracketed (text x))

section Items

variable {α β : Type} {text : β → String} {value : β → α}

theorem toList_items_cons (x : β) (xs : List β) :
    (items text (x :: xs)).toList = '[' :: ((text x).toList ++ ']' :: (items text xs).toList) := by
  simp [items, bracketed]

theorem length_items_cons (x : β) (xs : List β) :
    (items text (x :: xs)).length = (text x).length + (items text xs).length + 2 := by
  simp only [← String.length_toList, toList_items_cons, List.length_cons, List.length_append]
  omega

theorem length_le_length_items (xs : List β) : xs.length ≤ (items text xs).length := by
  induction xs with
  | nil => exact Nat.zero_le _
  | cons x xs ih =>
    rw [List.length_cons, length_items_cons]
    omega

theorem length_text_le_of_mem {x : β} {xs : List β} (hx : x ∈ xs) :
    (text x).length ≤ (items text xs).length := by
  induction xs with
  | nil => cases hx
  | cons y ys ih =>
    rw [length_items_cons]
    rcases List.mem_cons.1 hx with rfl | hx
    · omega
    · have := ih hx
      omega

theorem readItems_of_forall {read : List Char → Option (α × List Char)} {xs : List β}
    (h : ∀ x ∈ xs, ∀ r, read ((text x).toList ++ ']' :: r) = some (value x, ']' :: r)) {n : Nat}
    (hn : xs.length < n) {r : List Char} (hr : ∀ d ∈ r.head?, d ≠ '[') :
    readItems read n ((items text xs).toList ++ r) = some (xs.map value, r) := by
  induction xs generalizing n with
  | nil =>
    cases n with
    | zero => exact absurd hn (Nat.not_lt_zero _)
    | succ n =>
      change readItems read (n + 1) r = _
      rw [readItems, skip_eq_none rfl hr]
      rfl
  | cons x xs ih =>
    cases n with
    | zero => exact absurd hn (Nat.not_lt_zero _)
    | succ n =>
      have hopen : ∀ cs, skip "[" ('[' :: cs) = some cs := skip_append "["
      have hclose : ∀ cs, skip "]" (']' :: cs) = some cs := skip_append "]"
      have hrest := ih (fun y hy => h y (List.mem_cons_of_mem x hy)) (Nat.lt_of_succ_lt_succ hn)
      simp only [toList_items_cons, List.cons_append, List.append_assoc, readItems, hopen,
        h x List.mem_cons_self, hclose, hrest, Option.bind_eq_bind, Option.bind_some,
        List.map_cons]
      rfl

theorem readItems_of_readsAs {read : Nat → List Char → Option (α × List Char)}
    {R : List Char → Prop} {xs : List β} (hR : ∀ r, R (']' :: r))
    (h : ∀ x ∈ xs, ReadsAs read R (text x) (value x)) {n : Nat}
    (hn : (items text xs).length < n) {r : List Char} (hr : ∀ d ∈ r.head?, d ≠ '[') :
    readItems (read n) n ((items text xs).toList ++ r) = some (xs.map value, r) := by
  apply readItems_of_forall
  · intro x hx r
    exact h x hx n (Nat.lt_of_le_of_lt (length_text_le_of_mem hx) hn) _ (hR r)
  · exact Nat.lt_of_le_of_lt (length_le_length_items xs) hn
  · exact hr

end Items

end Canonical

end LuaSyntax
