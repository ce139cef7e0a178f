import LuaSyntax.Double
import LuaSyntax.Token

/-! Trees of programs. Every node carries a mark of type `τ`: the token that
introduced it when the tree was read from a source, or nothing at all when only
the meaning of the tree matters. -/

namespace LuaSyntax

structure Name (τ : Type) where
  token : τ
  value : String
deriving DecidableEq

/-- Expressions. Only a name can be called. -/
inductive Expr (τ : Type) where
  | name (name : Name τ)
  | integer (token : τ) (value : Int64)
  | float (token : τ) (value : Double)
  | boolean (token : τ) (value : Bool)
  | string (token : τ) (value : String)
  | nil (token : τ)
  | unary (token : τ) (operator : String) (operand : Expr τ)
  | binary (token : τ) (operator : String) (left right : Expr τ)
  | call (token : τ) (callee : Name τ) (arguments : List (Expr τ))

structure Assign (τ : Type) where
  token : τ
  name : Name τ
  value : Expr τ
  isLocal : Bool

/-- Statements of type `σ` after the token that opens them. -/
structure Block (τ σ : Type) where
  token : τ
  body : List σ

/-- Statements. An `elseif` is an alternative that holds a single conditional. -/
inductive Stmt (τ : Type) where
  | expression (token : τ) (value : Expr τ)
  | assign (assign : Assign τ)
  | ret (token : τ) (value : Option (Expr τ))
  | block (block : Block τ (Stmt τ))
  | cond (token : τ) (condition : Expr τ) (consequence : Block τ (Stmt τ))
      (alternative : Option (Block τ (Stmt τ)))
  | whileLoop (token : τ) (condition : Expr τ) (body : Block τ (Stmt τ))
  | forLoop (token : τ) (init : Assign τ) (limit step : Expr τ) (body : Block τ (Stmt τ))
  | repeatLoop (token : τ) (body : Block τ (Stmt τ)) (condition : Expr τ)
  | function (token : τ) (name : Name τ) (parameters : List (Name τ)) (body : Block τ (Stmt τ))

abbrev Program (τ : Type) := List (Stmt τ)

variable {τ υ : Type}

def Stmt.token : Stmt τ → τ
  | expression t _ | ret t _ | cond t _ _ _ | whileLoop t _ _ | forLoop t _ _ _ _
  | repeatLoop t _ _ | function t _ _ _ => t
  | assign a => a.token
  | block b => b.token

def Expr.token : Expr τ → τ
  | name n => n.token
  | integer t _ | float t _ | boolean t _ | string t _ | nil t | unary t _ _ | binary t _ _ _
  | call t _ _ => t

def Name.ofToken (t : Token) : Name Token := ⟨t, t.value⟩

/-! Changing the marks, which leaves everything else as it is. -/

def Name.map (f : τ → υ) (n : Name τ) : Name υ := ⟨f n.token, n.value⟩

mutual

def Expr.map (f : τ → υ) : Expr τ → Expr υ
  | .name n => .name (n.map f)
  | .integer t n => .integer (f t) n
  | .float t x => .float (f t) x
  | .boolean t b => .boolean (f t) b
  | .string t s => .string (f t) s
  | .nil t => .nil (f t)
  | .unary t op e => .unary (f t) op (e.map f)
  | .binary t op l r => .binary (f t) op (l.map f) (r.map f)
  | .call t n es => .call (f t) (n.map f) (Expr.mapAll f es)

def Expr.mapAll (f : τ → υ) : List (Expr τ) → List (Expr υ)
  | [] => []
  | e :: es => e.map f :: Expr.mapAll f es

end

def Assign.map (f : τ → υ) (a : Assign τ) : Assign υ :=
  ⟨f a.token, a.name.map f, a.value.map f, a.isLocal⟩

mutual

def Stmt.map (f : τ → υ) : Stmt τ → Stmt υ
  | .expression t e => .expression (f t) (e.map f)
  | .assign a => .assign (a.map f)
  | .ret t e => .ret (f t) (e.map (·.map f))
  | .block b => .block (Block.map f b)
  | .cond t c b none => .cond (f t) (c.map f) (Block.map f b) none
  | .cond t c b (some a) => .cond (f t) (c.map f) (Block.map f b) (some (Block.map f a))
  | .whileLoop t c b => .whileLoop (f t) (c.map f) (Block.map f b)
  | .forLoop t i l s b => .forLoop (f t) (i.map f) (l.map f) (s.map f) (Block.map f b)
  | .repeatLoop t b c => .repeatLoop (f t) (Block.map f b) (c.map f)
  | .function t n ps b => .function (f t) (n.map f) (ps.map (·.map f)) (Block.map f b)

def Block.map (f : τ → υ) : Block τ (Stmt τ) → Block υ (Stmt υ)
  | ⟨t, ss⟩ => ⟨f t, Stmt.mapAll f ss⟩

def Stmt.mapAll (f : τ → υ) : List (Stmt τ) → List (Stmt υ)
  | [] => []
  | s :: ss => s.map f :: Stmt.mapAll f ss

end

theorem Expr.mapAll_eq_map (f : τ → υ) (es : List (Expr τ)) :
    Expr.mapAll f es = es.map (·.map f) := by
  induction es with
  | nil => rfl
  | cons e es ih => simp [Expr.mapAll, ih]

theorem Stmt.mapAll_eq_map (f : τ → υ) (ss : List (Stmt τ)) :
    Stmt.mapAll f ss = ss.map (·.map f) := by
  induction ss with
  | nil => rfl
  | cons s ss ih => simp [Stmt.mapAll, ih]

def Stmt.erase (s : Stmt τ) : Stmt Unit := s.map fun _ => ()

end LuaSyntax
