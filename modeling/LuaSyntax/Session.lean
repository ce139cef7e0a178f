import LuaSyntax.Parser

/-! A parser at work. It moves along its tokens and appends a diagnostic where something is wrong.
A reading that fails gives nothing, and the loops over statements tell a statement that failed from
a separator by the number of diagnostics alone.

Readings are bounded by a number, which goes down where one reading calls for another or a loop is
passed again. At zero there is no result, not even a failure; a number greater than that of the
tokens that are left is never used up. -/

namespace LuaSyntax

/-- A call for a statement: the token it is made at, the tokens behind that, and whether there was a
statement to return. -/
structure Call where
  token : Token
  behind : List Token
  returned : Bool
deriving DecidableEq

namespace Call

def place (c : Call) : List Token := c.token :: c.behind

/-- No statement is lost at a separator. -/
def isDropped (c : Call) : Bool := !c.returned && !c.token.kind.isSeparator

end Call

/-- A parser, and the calls for statements that its loops have made, in their order. No step looks
at the calls. -/
structure Session where
  parser : Parser
  calls : List Call
deriving DecidableEq

namespace Session

abbrev Steps := StateT Session Option

/-- Steps that may fail, which is not the same as having no result. -/
abbrev Reading := OptionT Steps

def ofText (text : String) (file : Option String) : Session := ⟨Parser.ofText text file, []⟩

def exhausted {α : Type} : Reading α := fun _ => none

def current : Steps Token := return (← get).parser.current

def peek : Steps Token := return (← get).parser.peek

def atEnd : Steps Bool := return (← get).parser.tokens.isEmpty

def endsNext : Steps Bool := return Parse.endsStmt (← get).parser.tokens.tail

def diagnosticCount : Steps Nat := return (← get).parser.diagnostics.length

def next : Steps Unit := modify fun s => { s with parser := s.parser.next }

def recover : Steps Unit := modify fun s => { s with parser := s.parser.recover }

def report (problem : Problem) (position : Position) : Steps Unit :=
  modify fun s => { s with parser := s.parser.report problem position }

def reportCurrent (problem : Problem) : Steps Unit :=
  modify fun s => { s with parser := s.parser.reportCurrent problem }

/-- Asks for a token, and fails if the parser has reported that another stands there. -/
def ask (check : Parser → Bool × Parser) : Reading Token := fun s =>
  let (found, parser) := check s.parser
  some (if found then some parser.current else none, { s with parser })

def expectPeek (kind : Kind) (problem : Token → Problem) : Reading Token :=
  ask (·.expectPeek kind problem)

def expectCurrent (kind : Kind) (problem : Token → Problem) : Reading Token :=
  ask (·.expectCurrent kind problem)

/-! Expressions. What starts at the current token or has it in the middle is read from there on, and
the parser is left on the last token. `inner` reads the expressions inside. -/

def name : Reading (Expr Token) := return .ofName (← current)

def numeral : Reading (Expr Token) := do
  let t ← current
  match Number.ofText? t.value.toList with
  | some (.integer n) => return .integer t n
  | some (.float x) => return .float t x
  | none =>
    reportCurrent (.numeral t.value)
    failure

def boolean : Reading (Expr Token) := do
  let t ← current
  if t.value = "true" then return .boolean t true
  else if t.value = "false" then return .boolean t false
  else
    reportCurrent (.boolean t.value)
    failure

def string : Reading (Expr Token) := return .ofString (← current)

def nil : Reading (Expr Token) := return .nil (← current)

section

variable (inner : Precedence → Reading (Expr Token))

def unary : Reading (Expr Token) := do
  let op ← current
  next
  let e ← inner .unary
  return .unary op op.value e

def grouped : Reading (Expr Token) := do
  next
  let e ← inner .lowest
  let _ ← expectPeek .rightParen Parse.unclosedGroup
  return e

def operand : Reading (Expr Token) := do
  let t ← current
  match t.kind with
  | .identifier => name
  | .numeral => numeral
  | .kwTrue | .kwFalse => boolean
  | .string => string
  | .kwNil => nil
  | .minus | .kwNot | .hash | .tilde => unary inner
  | .leftParen => grouped inner
  | _ =>
    reportCurrent (Parse.noExpression t)
    failure

def moreArguments : Nat → Reading (List (Expr Token))
  | 0 => exhausted
  | n + 1 => do
    let t ← peek
    if t.kind = .comma then
      next
      next
      let e ← inner .lowest
      let es ← moreArguments n
      return e :: es
    else
      let _ ← expectPeek .rightParen (Parse.notExpected .rightParen)
      return []

def arguments (n : Nat) : Reading (List (Expr Token)) := do
  let t ← peek
  next
  if t.kind = .rightParen then return []
  else
    let e ← inner .lowest
    let es ← moreArguments inner n
    return e :: es

def call (n : Nat) (callee : Expr Token) : Reading (Expr Token) := do
  let op ← current
  match callee with
  | .name callee =>
    let es ← arguments inner n
    return .call op callee es
  | _ =>
    reportCurrent (Parse.notCallable callee)
    failure

def binary (left : Expr Token) : Reading (Expr Token) := do
  let op ← current
  next
  let right ← inner op.kind.operandLevel
  return .binary op op.value left right

def extendOnce (n : Nat) (left : Expr Token) : Reading (Expr Token) := do
  let op ← current
  if op.kind = .leftParen then call inner n left else binary inner left

def extend (level : Precedence) : Nat → Expr Token → Reading (Expr Token)
  | 0, _ => exhausted
  | n + 1, left => do
    let op ← peek
    if level < .of op.kind then
      next
      let e ← extendOnce inner n left
      extend level n e
    else return left

end

def expr : Nat → Precedence → Reading (Expr Token)
  | 0, _ => exhausted
  | n + 1, level => do
    let left ← operand (expr n)
    extend (expr n) level n left

/-! Statements that hold no others, and headers. -/

def exprStmt (n : Nat) : Reading (Stmt Token) := do
  let t ← current
  let e ← expr n .lowest
  return .expression t e

def assignment (n : Nat) (t : Token) (name : Name Token) (isLocal : Bool) :
    Reading (Assign Token) := do
  next
  let value ← expr n .lowest
  return ⟨t, name, value, isLocal⟩

def callStmt (n : Nat) : Reading (Stmt Token) := do
  let t ← current
  next
  let op ← current
  let es ← arguments (expr n) n
  return .expression t (.call op (.ofToken t) es)

def nameStmt (n : Nat) : Reading (Stmt Token) := do
  let u ← peek
  if u.kind = .assign then
    let t ← current
    next
    let a ← assignment n t (.ofToken t) false
    return .assign a
  else if u.kind = .leftParen then callStmt n
  else exprStmt n

def localStmt (n : Nat) : Reading (Stmt Token) := do
  let t ← current
  let name ← expectPeek .identifier (.wanted .assignment "identifier after `local`")
  let _ ← expectPeek .assign (.wanted .assignment ("`=` after local `" ++ name.value ++ "`"))
  let a ← assignment n t (.ofToken name) true
  return .assign a

def returnStmt (n : Nat) : Reading (Stmt Token) := do
  let t ← current
  if ← endsNext then return .ret t none
  else
    next
    let value ← expr n .lowest
    if ← endsNext then return .ret t (some value)
    else
      let found ← peek
      report (.wanted .returning "end of statement after return" found) found.start
      failure

def moreParameters : Nat → Reading (List (Name Token) × Token)
  | 0 => exhausted
  | n + 1 => do
    let t ← peek
    if t.kind = .comma then
      next
      let name ← expectPeek .identifier Parse.noParameter
      let more ← moreParameters n
      return (.ofToken name :: more.1, more.2)
    else
      let closer ← expectPeek .rightParen Parse.unclosedParameters
      return ([], closer)

def parameters (n : Nat) : Reading (List (Name Token) × Token) := do
  let t ← peek
  if t.kind = .rightParen then
    next
    return ([], t)
  else
    let name ← expectPeek .identifier Parse.noParameter
    let more ← moreParameters n
    return (.ofToken name :: more.1, more.2)

def functionHeader (n : Nat) : Reading Parse.FunctionHeader := do
  let name ← expectPeek .identifier (.wanted .function "function name")
  let _ ← expectPeek .leftParen (.wanted .function ("`(` after `" ++ name.value ++ "`"))
  let parameters ← parameters n
  return ⟨name, parameters.1, parameters.2⟩

def step (n : Nat) : Reading (Expr Token) := do
  let t ← peek
  if t.kind = .comma then
    next
    next
    expr n .lowest
  else return Parse.defaultStep t.start

def forHeader (n : Nat) : Reading Parse.ForHeader := do
  let name ← expectPeek .identifier (.wanted .forLoop "loop variable after `for`")
  let _ ← expectPeek .assign (.wanted .forLoop ("`=` after `" ++ name.value ++ "`"))
  let init ← assignment n name (.ofToken name) false
  let _ ← expectPeek .comma (.wanted .forLoop "`,` after for initial value")
  next
  let limit ← expr n .lowest
  let step ← step n
  let opener ← expectPeek .kwDo (.wanted .forLoop "`do` after for header")
  return ⟨init, limit, step, opener⟩

/-! Statements and blocks. `inner` reads the statements inside. -/

def closing (form : Form) (kind : Kind) (what : String) : Reading Token :=
  expectCurrent kind (.wanted form ("`" ++ kind.text ++ "` to close " ++ what))

section

variable (inner : Reading (Stmt Token))

/-- Calls for a statement and notes the call, before those that are made in the course of it. -/
def attempt : Reading (Option (Stmt Token)) := show Steps (Option (Option (Stmt Token))) from do
  let s ← get
  set { s with calls := [] }
  let r ← inner.run
  modify fun q =>
    { q with calls := s.calls ++ ⟨s.parser.current, s.parser.tokens.tail, r.isSome⟩ :: q.calls }
  return some r

/-- Statements up to a keyword that closes a block. A failed statement that stopped on one, or at
the end of input, has left the parser where the loop has to look. -/
def statements (construct terminator : Kind) : Nat → Reading (List (Stmt Token))
  | 0 => exhausted
  | n + 1 => do
    let t ← current
    if t.kind.isBlockEnd then return []
    else if ← atEnd then
      reportCurrent (.unclosedBlock construct.text terminator.text)
      failure
    else
      let before ← diagnosticCount
      match ← attempt inner with
      | some s =>
        next
        let more ← statements construct terminator n
        return s :: more
      | none =>
        if before < (← diagnosticCount) then
          let u ← current
          if u.kind.isBlockEnd || (← atEnd) then statements construct terminator n
          else
            recover
            next
            statements construct terminator n
        else
          next
          statements construct terminator n

def block (n : Nat) (construct terminator : Kind) (opener : Token) :
    Reading (Block Token (Stmt Token)) := do
  next
  let body ← statements inner construct terminator n
  return ⟨opener, body⟩

def alternative (n : Nat) (branch : Reading (Stmt Token)) :
    Reading (Option (Block Token (Stmt Token))) := do
  let t ← current
  if t.kind = .kwElseif then
    let s ← branch
    return some ⟨t, [s]⟩
  else if t.kind = .kwElse then
    let b ← block inner n .kwIf .kwEnd t
    let _ ← closing .conditional .kwEnd "else block"
    return some b
  else
    let _ ← closing .conditional .kwEnd "if"
    return none

def condStmt : Nat → Reading (Stmt Token)
  | 0 => exhausted
  | n + 1 => do
    let t ← current
    next
    let condition ← expr n .lowest
    let opener ← expectPeek .kwThen (.wanted .conditional "`then` after if condition")
    let consequence ← block inner n .kwIf .kwEnd opener
    let other ← alternative inner n (condStmt n)
    return .cond t condition consequence other

def whileStmt (n : Nat) : Reading (Stmt Token) := do
  let t ← current
  next
  let condition ← expr n .lowest
  let opener ← expectPeek .kwDo (.wanted .whileLoop "`do` after while condition")
  let body ← block inner n .kwWhile .kwEnd opener
  let _ ← closing .whileLoop .kwEnd "while"
  return .whileLoop t condition body

def forStmt (n : Nat) : Reading (Stmt Token) := do
  let t ← current
  let header ← forHeader n
  let body ← block inner n .kwFor .kwEnd header.opener
  let _ ← closing .forLoop .kwEnd "for"
  return .forLoop t header.init header.limit header.step body

def repeatStmt (n : Nat) : Reading (Stmt Token) := do
  let t ← current
  let body ← block inner n .kwRepeat .kwUntil t
  let _ ← closing .repeatLoop .kwUntil "repeat"
  next
  let condition ← expr n .lowest
  return .repeatLoop t body condition

def functionStmt (n : Nat) : Reading (Stmt Token) := do
  let t ← current
  let header ← functionHeader n
  let body ← block inner n .kwFunction .kwEnd header.opener
  let _ ← closing .function .kwEnd ("`" ++ header.name.value ++ "`")
  return .function t (.ofToken header.name) header.parameters body

end

/-- The statement at the current token. At a separator there is none, and nothing is reported. -/
def stmt : Nat → Reading (Stmt Token)
  | 0 => exhausted
  | n + 1 => do
    let t ← current
    if t.kind.isSeparator then failure
    else
      match t.kind with
      | .identifier => nameStmt (n + 1)
      | .kwLocal => localStmt (n + 1)
      | .kwReturn => returnStmt (n + 1)
      | .kwIf => condStmt (stmt n) (n + 1)
      | .kwWhile => whileStmt (stmt n) (n + 1)
      | .kwFor => forStmt (stmt n) (n + 1)
      | .kwRepeat => repeatStmt (stmt n) (n + 1)
      | .kwFunction => functionStmt (stmt n) (n + 1)
      | _ => exprStmt (n + 1)

def program : Nat → Reading (Program Token)
  | 0 => exhausted
  | n + 1 => do
    if ← atEnd then return []
    else
      let before ← diagnosticCount
      match ← attempt (stmt (n + 1)) with
      | some s =>
        next
        let more ← program n
        return s :: more
      | none =>
        if before < (← diagnosticCount) then
          recover
          next
          program n
        else
          next
          program n

end Session

end LuaSyntax
