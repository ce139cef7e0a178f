import LuaSyntax.Parse.Program

/-! A parser that is driven step by step: the token it stands on, the tokens after
that, and the diagnostics so far. A reading that succeeds leaves it on the last
token taken. -/

namespace LuaSyntax

/-- A parser. It stands on the first of the tokens that are left, or on the end of input. -/
structure Parser where
  tokens : List Token
  stop : Position
  diagnostics : List Diagnostic
deriving DecidableEq

namespace Parser

def ofScanned (s : Scanned) : Parser := ⟨s.tokens, s.stop, []⟩

def ofText (text : String) (file : Option String) : Parser := ofScanned (scan text file)

def current (p : Parser) : Token := p.tokens.headD (.eof p.stop)

def peek (p : Parser) : Token := p.tokens.tail.headD (.eof p.stop)

def next (p : Parser) : Parser := { p with tokens := p.tokens.tail }

def report (p : Parser) (problem : Problem) (position : Position) : Parser :=
  { p with diagnostics := p.diagnostics ++ [⟨problem, position⟩] }

def reportCurrent (p : Parser) (problem : Problem) : Parser := p.report problem p.current.start

def expectPeek (p : Parser) (kind : Kind) (problem : Token → Problem) : Bool × Parser :=
  if p.peek.kind = kind then (true, p.next)
  else (false, p.report (problem p.peek) p.peek.start)

def expectCurrent (p : Parser) (kind : Kind) (problem : Token → Problem) : Bool × Parser :=
  if p.current.kind = kind then (true, p) else (false, p.reportCurrent (problem p.current))

/-- Skips to the token before a line end, the end of input or a keyword that closes a block,
unless the parser stands on a line end. -/
def recoverTokens : List Token → List Token
  | t :: u :: ts =>
    if t.kind = .newline ∨ Halt.stopsRecovery u then t :: u :: ts else recoverTokens (u :: ts)
  | ts => ts

def recover (p : Parser) : Parser := { p with tokens := recoverTokens p.tokens }

/-- Recovery and one step on lead where a failure at the first token resumes. -/
theorem tail_recoverTokens (ts : List Token) : (recoverTokens ts).tail = (Halt.on ts).resume := by
  fun_induction recoverTokens ts with
  | case1 t u ts h =>
    simp only [Halt.resume, List.tail_cons, Halt.skipLine, List.dropWhile_cons]
    split
    · rfl
    · simp_all
  | case2 t u ts h ih =>
    obtain ⟨ht, hu⟩ := not_or.1 h
    have hline : u.kind ≠ .newline := by
      intro hk
      simp [Halt.stopsRecovery, hk] at hu
    simp_all [Halt.resume, Halt.skipLine]
  | case3 ts h =>
    cases ts with
    | nil => rfl
    | cons t ts =>
      cases ts with
      | nil => simp [Halt.resume, Halt.skipLine]
      | cons u us => exact absurd rfl (h t u us)

def keepLast (p : Parser) (n : Nat) : Parser :=
  { p with tokens := p.tokens.drop (p.tokens.length - n) }

/-- What an attempt at the current token gave, and the parser after it. -/
def settle {α : Type} {lead us : List Token} (p : Parser) : Attempt α lead us → Option α × Parser
  | .done a rest _ => (some a, p.keepLast (rest.length + 1))
  | .failed d (.on rest) _ => (none, (p.keepLast rest.length).report d.problem d.position)
  | .failed d (.before rest) _ => (none, (p.keepLast (rest.length + 1)).report d.problem d.position)

def settleLogged {α : Type} {lead us : List Token} (p : Parser) (a : Logged α lead us) :
    Option α × Parser :=
  { p with diagnostics := p.diagnostics ++ a.log }.settle a.attempt

def expr (p : Parser) (level : Precedence) : Option (Expr Token) × Parser :=
  p.settle (Parse.exprFrom p.stop level p.current p.tokens.tail)

def literal (p : Parser) (read : Token → Except Problem (Expr Token)) :
    Option (Expr Token) × Parser :=
  p.settle (.ofToken p.current p.tokens.tail (read p.current))

def unary (p : Parser) : Option (Expr Token) × Parser :=
  p.settle (Parse.unary p.stop p.current p.tokens.tail)

def grouped (p : Parser) : Option (Expr Token) × Parser :=
  p.settle (Parse.grouped p.stop p.tokens.tail)

def binary (p : Parser) (left : Expr Token) : Option (Expr Token) × Parser :=
  p.settle (Parse.binary p.stop left p.current p.tokens.tail)

def call (p : Parser) (callee : Expr Token) : Option (Expr Token) × Parser :=
  p.settle (Parse.call p.stop callee p.current p.tokens.tail)

def arguments (p : Parser) : Option (List (Expr Token)) × Parser :=
  p.settle (Parse.arguments p.stop p.tokens.tail)

/-- The statement at the current token. A separator is none, and no problem either. -/
def stmt (p : Parser) : Option (Stmt Token) × Parser :=
  if p.current.kind.isSeparator then (none, p)
  else p.settleLogged (Parse.stmtFrom p.stop p.current p.tokens.tail)

def exprStmt (p : Parser) : Option (Stmt Token) × Parser :=
  p.settle (Parse.exprStmt p.stop p.current p.tokens.tail)

def nameStmt (p : Parser) : Option (Stmt Token) × Parser :=
  p.settle (Parse.nameStmt p.stop p.current p.tokens.tail)

/-! Statements of one form each, taking the current token for their keyword. -/

def localStmt (p : Parser) : Option (Stmt Token) × Parser :=
  p.settle (Parse.localStmt p.stop p.current p.tokens.tail)

def returnStmt (p : Parser) : Option (Stmt Token) × Parser :=
  p.settle (Parse.returnStmt p.stop p.current p.tokens.tail)

def condStmt (p : Parser) : Option (Stmt Token) × Parser :=
  p.settleLogged (Parse.condStmt p.stop p.current p.tokens.tail)

def whileStmt (p : Parser) : Option (Stmt Token) × Parser :=
  p.settleLogged (Parse.whileStmt p.stop p.current p.tokens.tail)

def forStmt (p : Parser) : Option (Stmt Token) × Parser :=
  p.settleLogged (Parse.forStmt p.stop p.current p.tokens.tail)

def repeatStmt (p : Parser) : Option (Stmt Token) × Parser :=
  p.settleLogged (Parse.repeatStmt p.stop p.current p.tokens.tail)

def functionStmt (p : Parser) : Option (Stmt Token) × Parser :=
  p.settleLogged (Parse.functionStmt p.stop p.current p.tokens.tail)

end Parser

end LuaSyntax
