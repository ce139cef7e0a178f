import LuaSyntax.Parse.Expression

/-! Changing the marks of a tree, and moving tokens to other places. What a token denotes and
how a tree is rendered do not depend on places. -/

namespace LuaSyntax

variable {τ υ ω : Type}

mutual

theorem Expr.map_map (f : τ → υ) (g : υ → ω) : ∀ e : Expr τ,
    (e.map f).map g = e.map fun t => g (f t)
  | .name _ | .integer _ _ | .float _ _ | .boolean _ _ | .string _ _ | .nil _ => rfl
  | .unary _ _ e => by simp only [Expr.map, Expr.map_map f g e]
  | .binary _ _ l r => by simp only [Expr.map, Expr.map_map f g l, Expr.map_map f g r]
  | .call _ _ es => by simp only [Expr.map, Expr.mapAll_mapAll f g es, Name.map]

theorem Expr.mapAll_mapAll (f : τ → υ) (g : υ → ω) : ∀ es : List (Expr τ),
    Expr.mapAll g (Expr.mapAll f es) = Expr.mapAll (fun t => g (f t)) es
  | [] => rfl
  | e :: es => by simp only [Expr.mapAll, Expr.map_map f g e, Expr.mapAll_mapAll f g es]

end

theorem Assign.map_map (f : τ → υ) (g : υ → ω) (a : Assign τ) :
    (a.map f).map g = a.map fun t => g (f t) := by
  simp only [Assign.map, Name.map, Expr.map_map]

mutual

theorem Stmt.map_map (f : τ → υ) (g : υ → ω) : ∀ s : Stmt τ,
    (s.map f).map g = s.map fun t => g (f t)
  | .expression _ e => by simp only [Stmt.map, Expr.map_map]
  | .assign a => by simp only [Stmt.map, Assign.map_map]
  | .ret _ none => rfl
  | .ret _ (some e) => by simp only [Stmt.map, Option.map_some, Expr.map_map]
  | .block b => by simp only [Stmt.map, Block.map_map f g b]
  | .cond _ c b none => by simp only [Stmt.map, Expr.map_map, Block.map_map f g b]
  | .cond _ c b (some a) => by
    simp only [Stmt.map, Expr.map_map, Block.map_map f g b, Block.map_map f g a]
  | .whileLoop _ c b => by simp only [Stmt.map, Expr.map_map, Block.map_map f g b]
  | .forLoop _ i l s b => by
    simp only [Stmt.map, Assign.map_map, Expr.map_map, Block.map_map f g b]
  | .repeatLoop _ b c => by simp only [Stmt.map, Expr.map_map, Block.map_map f g b]
  | .function _ n ps b => by
    simp only [Stmt.map, Name.map, List.map_map, Block.map_map f g b, Function.comp_def]

theorem Block.map_map (f : τ → υ) (g : υ → ω) : ∀ b : Block τ (Stmt τ),
    Block.map g (Block.map f b) = Block.map (fun t => g (f t)) b
  | ⟨_, ss⟩ => by simp only [Block.map, Stmt.mapAll_mapAll f g ss]

theorem Stmt.mapAll_mapAll (f : τ → υ) (g : υ → ω) : ∀ ss : List (Stmt τ),
    Stmt.mapAll g (Stmt.mapAll f ss) = Stmt.mapAll (fun t => g (f t)) ss
  | [] => rfl
  | s :: ss => by simp only [Stmt.mapAll, Stmt.map_map f g s, Stmt.mapAll_mapAll f g ss]

end

mutual

theorem Expr.map_id : ∀ e : Expr τ, e.map (fun t => t) = e
  | .name _ | .integer _ _ | .float _ _ | .boolean _ _ | .string _ _ | .nil _ => rfl
  | .unary _ _ e => by simp only [Expr.map, Expr.map_id e]
  | .binary _ _ l r => by simp only [Expr.map, Expr.map_id l, Expr.map_id r]
  | .call _ _ es => by simp only [Expr.map, Expr.mapAll_id es, Name.map]

theorem Expr.mapAll_id : ∀ es : List (Expr τ), Expr.mapAll (fun t => t) es = es
  | [] => rfl
  | e :: es => by simp only [Expr.mapAll, Expr.map_id e, Expr.mapAll_id es]

end

theorem Assign.map_id (a : Assign τ) : a.map (fun t => t) = a := by
  simp only [Assign.map, Name.map, Expr.map_id]

mutual

theorem Stmt.map_id : ∀ s : Stmt τ, s.map (fun t => t) = s
  | .expression _ e => by simp only [Stmt.map, Expr.map_id]
  | .assign a => by simp only [Stmt.map, Assign.map_id]
  | .ret _ none => rfl
  | .ret _ (some e) => by simp only [Stmt.map, Option.map_some, Expr.map_id]
  | .block b => by simp only [Stmt.map, Block.map_id b]
  | .cond _ c b none => by simp only [Stmt.map, Expr.map_id, Block.map_id b]
  | .cond _ c b (some a) => by simp only [Stmt.map, Expr.map_id, Block.map_id b, Block.map_id a]
  | .whileLoop _ c b => by simp only [Stmt.map, Expr.map_id, Block.map_id b]
  | .forLoop _ i l s b => by simp only [Stmt.map, Assign.map_id, Expr.map_id, Block.map_id b]
  | .repeatLoop _ b c => by simp only [Stmt.map, Expr.map_id, Block.map_id b]
  | .function _ n ps b => by simp only [Stmt.map, Name.map, List.map_id', Block.map_id b]

theorem Block.map_id : ∀ b : Block τ (Stmt τ), Block.map (fun t => t) b = b
  | ⟨_, ss⟩ => by simp only [Block.map, Stmt.mapAll_id ss]

theorem Stmt.mapAll_id : ∀ ss : List (Stmt τ), Stmt.mapAll (fun t => t) ss = ss
  | [] => rfl
  | s :: ss => by simp only [Stmt.mapAll, Stmt.map_id s, Stmt.mapAll_id ss]

end

def Token.move (place : Position → Position) (t : Token) : Token :=
  ⟨t.kind, t.value, ⟨place t.span.start, place t.span.stop⟩⟩

def Diagnostic.move (place : Position → Position) (d : Diagnostic) : Diagnostic :=
  ⟨d.problem, place d.position⟩

def Token.content (t : Token) : Kind × String := (t.kind, t.value)

section Move

variable (place : Position → Position)

@[simp] theorem Token.move_kind (t : Token) : (t.move place).kind = t.kind := rfl

@[simp] theorem Token.move_value (t : Token) : (t.move place).value = t.value := rfl

theorem map_content_move (ts : List Token) :
    (ts.map (Token.move place)).map Token.content = ts.map Token.content := by
  rw [List.map_map]
  rfl

mutual

theorem Expr.render_move : ∀ e : Expr Token, (e.map (Token.move place)).render = e.render
  | .name _ | .integer _ _ | .float _ _ | .boolean _ _ | .string _ _ | .nil _ => rfl
  | .unary _ _ e => by simp only [Expr.map, Expr.render, Expr.render_move e]
  | .binary _ _ l r => by
    simp only [Expr.map, Expr.render, Expr.render_move l, Expr.render_move r]
  | .call _ _ es => by simp only [Expr.map, Expr.render, Expr.renderAll_move es, Name.map]

theorem Expr.renderAll_move : ∀ es : List (Expr Token),
    Expr.renderAll (Expr.mapAll (Token.move place) es) = Expr.renderAll es
  | [] => rfl
  | e :: es => by
    simp only [Expr.mapAll, Expr.renderAll, Expr.render_move e, Expr.renderAll_move es]

end

theorem Expr.ofNumeral_move (t : Token) :
    Expr.ofNumeral (t.move place) = (Expr.ofNumeral t).map (Expr.map (Token.move place)) := by
  simp only [Expr.ofNumeral, Token.move_value]
  rcases Number.ofText? t.value.toList with _ | n
  · rfl
  · cases n <;> rfl

theorem Expr.ofBoolean_move (t : Token) :
    Expr.ofBoolean (t.move place) = (Expr.ofBoolean t).map (Expr.map (Token.move place)) := by
  unfold Expr.ofBoolean
  by_cases htrue : t.value = "true"
  · simp [htrue, Except.map, Expr.map]
  by_cases hfalse : t.value = "false"
  · simp [hfalse, Except.map, Expr.map]
  · simp [htrue, hfalse, Except.map]

theorem Expr.ofToken?_move (t : Token) :
    Expr.ofToken? (t.move place) =
      (Expr.ofToken? t).map (Except.map (Expr.map (Token.move place))) := by
  unfold Expr.ofToken?
  rw [Token.move_kind, Expr.ofNumeral_move, Expr.ofBoolean_move]
  cases t.kind <;> rfl

end Move

end LuaSyntax
