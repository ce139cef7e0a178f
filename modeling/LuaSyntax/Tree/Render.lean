import LuaSyntax.Tree

/-! The canonical text of a tree: operators, arguments, parameters and statements
in brackets. A literal is written as its token spells it. -/

namespace LuaSyntax

def bracketed (s : String) : String := "[" ++ s ++ "]"

mutual

def Expr.render : Expr Token → String
  | .name n => n.value
  | .integer t _ | .float t _ | .boolean t _ | .string t _ | .nil t => t.value
  | .unary _ op e => bracketed (op ++ " " ++ e.render)
  | .binary _ op l r => bracketed (l.render ++ " " ++ op ++ " " ++ r.render)
  | .call _ n es => n.value ++ bracketed (Expr.renderAll es)

def Expr.renderAll : List (Expr Token) → String
  | [] => ""
  | e :: es => bracketed e.render ++ Expr.renderAll es

end

def Assign.render (a : Assign Token) : String :=
  (if a.isLocal then "local " else "") ++ a.name.value ++ " = " ++ a.value.render

def renderParameters (ps : List (Name Token)) : String :=
  String.join (ps.map fun p => bracketed p.value)

mutual

def Stmt.render : Stmt Token → String
  | .expression _ e => e.render
  | .assign a => a.render
  | .ret _ none => "return"
  | .ret _ (some e) => "return " ++ e.render
  | .block b => Block.render b
  | .cond _ c b none => "if " ++ c.render ++ " then " ++ Block.render b ++ " end"
  | .cond _ c b (some a) =>
    "if " ++ c.render ++ " then " ++ Block.render b ++ " else " ++ Block.render a ++ " end"
  | .whileLoop _ c b => "while " ++ c.render ++ " do " ++ Block.render b ++ " end"
  | .forLoop _ i l s b =>
    "for " ++ bracketed (i.render ++ ", " ++ l.render ++ ", " ++ s.render) ++ " do " ++
      Block.render b ++ " end"
  | .repeatLoop _ b c => "repeat " ++ Block.render b ++ " until " ++ c.render
  | .function _ n ps b =>
    "function " ++ n.value ++ bracketed (renderParameters ps) ++ " " ++ Block.render b ++ " end"

def Block.render : Block Token (Stmt Token) → String
  | ⟨_, ss⟩ => Stmt.renderAll ss

def Stmt.renderAll : List (Stmt Token) → String
  | [] => ""
  | s :: ss => bracketed s.render ++ Stmt.renderAll ss

end

theorem Stmt.render_ret (t : Token) : (Stmt.ret t none).render = "return" := by
  rw [Stmt.render]

def Program.render (p : Program Token) : String := "\n".intercalate (p.map Stmt.render)

end LuaSyntax
