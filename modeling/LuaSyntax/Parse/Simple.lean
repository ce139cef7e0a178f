import LuaSyntax.Parse.Expression

/-! Statements that hold no others: expressions, assignments, calls and `return`.
Each reader gets the token `t` that opens the statement and what follows it. -/

namespace LuaSyntax.Parse

variable (stop : Position)

def exprStmt (t : Token) (us : List Token) : Attempt (Stmt Token) [t] us :=
  (exprFrom stop .lowest t us).map (.expression t)

def assignment (t : Token) (name : Name Token) (isLocal : Bool) (us : List Token) :
    Attempt (Assign Token) [] us :=
  (expr stop .lowest us).map fun value => ⟨t, name, value, isLocal⟩

def callStmt (t op : Token) (us : List Token) : Attempt (Stmt Token) [] us :=
  (arguments stop us).map fun es => .expression t (.call op (.ofToken t) es)

/-- A statement that starts with the name `t`: an assignment, a call, or a bare expression. A
call ends at its parenthesis. -/
def nameStmt (t : Token) (us : List Token) : Attempt (Stmt Token) [t] us :=
  match us with
  | [] => exprStmt stop t []
  | u :: vs =>
    if u.kind = .assign then
      (((assignment stop t (.ofToken t) false vs).map .assign).past u).taking t
    else if u.kind = .leftParen then ((callStmt stop t u vs).past u).taking t
    else exprStmt stop t (u :: vs)

def localStmt (t : Token) (us : List Token) : Attempt (Stmt Token) [] us :=
  (expect stop .identifier (.wanted .assignment "identifier after `local`") us).bind
    fun name vs _ =>
  (expect stop .assign
    (.wanted .assignment ("`=` after local `" ++ name.value ++ "`")) vs).bind
    fun _ vs _ =>
  (assignment stop t (.ofToken name) true vs).map .assign

def endsStmt : List Token → Bool
  | [] => true
  | t :: _ => t.kind.isSeparator || t.kind.isBlockEnd

def expectEnd (ts : List Token) : Attempt Unit [] ts :=
  if endsStmt ts then .pure () ts
  else
    let t := ts.headD (.eof stop)
    .failBefore ⟨.wanted .returning "end of statement after return" t, t.start⟩ ts

def returnStmt (t : Token) (us : List Token) : Attempt (Stmt Token) [] us :=
  if endsStmt us then .pure (.ret t none) us
  else
    (expr stop .lowest us).bind fun value vs _ =>
    (expectEnd stop vs).map fun _ => .ret t (some value)

end LuaSyntax.Parse
