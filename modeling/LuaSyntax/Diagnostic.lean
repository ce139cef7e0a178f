import LuaSyntax.Token

/-! What can be wrong with a program, in words, and where. -/

namespace LuaSyntax

/-- Statement forms that have messages of their own. -/
inductive Form where
  | assignment | returning | conditional | whileLoop | forLoop | repeatLoop | function
deriving DecidableEq

namespace Form

def all : List Form :=
  [assignment, returning, conditional, whileLoop, forLoop, repeatLoop, function]

def problemName : Form → String
  | assignment => "AssignStatement"
  | returning => "ReturnStatement"
  | conditional => "IfStatement"
  | whileLoop => "WhileStatement"
  | forLoop => "ForStatement"
  | repeatLoop => "RepeatStatement"
  | function => "FunctionStatement"

def title : Form → String
  | assignment => "assignment"
  | returning => "return statement"
  | conditional => "if statement"
  | whileLoop => "while statement"
  | forLoop => "for statement"
  | repeatLoop => "repeat statement"
  | function => "function statement"

end Form

inductive Problem where
  | numeral (text : String)
  | boolean (text : String)
  | unclosedGroup (found : String)
  | unclosedBlock (construct terminator : String)
  | malformed (form : Form) (message : String)
  | unexpected (expected found : String)
  | noExpression (kind : Kind) (text : String)
deriving DecidableEq

namespace Problem

def name : Problem → String
  | numeral _ => "NumeralParse"
  | boolean _ => "BooleanParse"
  | unclosedGroup _ => "GroupedExpression"
  | unclosedBlock _ _ => "BlockStatement"
  | malformed form _ => form.problemName
  | unexpected _ _ => "UnexpectedToken"
  | noExpression _ _ => "NoPrefixRule"

def message : Problem → String
  | numeral text => "error parsing numeral: " ++ Text.quoted text
  | boolean text => "error parsing boolean: " ++ Text.quoted text
  | unclosedGroup found => "unclosed grouped expression, found " ++ found
  | unclosedBlock construct terminator =>
    "`" ++ construct ++ "` block reached end of input before `" ++ terminator ++ "`"
  | malformed form message => form.title ++ ": " ++ message
  | unexpected expected found => "unexpected token: expected " ++ expected ++ ", found " ++ found
  | noExpression kind text =>
    "no prefix parse rule for " ++ kind.name ++ " " ++ Text.quoted text

def tip? : Problem → Option String
  | numeral text => some ("Invalid numeral: `" ++ text ++ "`, is it above the integer limit?")
  | boolean text => some ("Invalid boolean: `" ++ text ++ "`, expected `true` or `false`")
  | unclosedGroup found => some ("Expected `)` to close the parenthesis, found " ++ found)
  | unclosedBlock construct terminator =>
    some ("Input ended inside `" ++ construct ++ "` block, did you miss `" ++ terminator ++ "`?")
  | malformed _ message => some message
  | unexpected expected found => some ("Expected " ++ expected ++ ", found " ++ found)
  | noExpression _ text =>
    if text.isEmpty then none else some ("`" ++ text ++ "` cannot start an expression")

def wanted (form : Form) (expected : String) (t : Token) : Problem :=
  malformed form ("expected " ++ expected ++ ", found " ++ t.describe)

end Problem

structure Diagnostic where
  problem : Problem
  position : Position
deriving DecidableEq

namespace Diagnostic

def display (d : Diagnostic) : String :=
  d.position.file ++ ":" ++ toString d.position.line.toNat ++ ":" ++
    toString d.position.column.toNat ++ ": " ++ d.problem.message

end Diagnostic

end LuaSyntax
