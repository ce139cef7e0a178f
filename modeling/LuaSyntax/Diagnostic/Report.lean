import LuaSyntax.Diagnostic
import LuaSyntax.Text

/-! Reports: a diagnostic with the line it points at and a caret under the column.
The line is shown without its indentation, and the caret moves along. -/

namespace LuaSyntax.Diagnostic

def repeated (n : Nat) (c : Char) : String := String.ofList (List.replicate n c)

def heading (d : Diagnostic) : String :=
  match d.problem.tip? with
  | none => "Error: " ++ d.problem.name
  | some tip => "Error: " ++ d.problem.name ++ " (" ++ tip ++ ")"

def sourceLine (d : Diagnostic) (source : String) : List Char :=
  ((Text.lineAt? source d.position.line).getD "").toList

/-- How wide the line under the shown one is, its caret included. -/
def caretWidth (d : Diagnostic) (line : List Char) : Nat :=
  max (max d.position.column.toNat 1 - (line.takeWhile Text.isIndent).length) 1

def report (d : Diagnostic) (source : String) : String :=
  let line := d.sourceLine source
  let number := toString d.position.line.toNat
  let margin := repeated (number.length + 1) ' ' ++ "|"
  d.heading ++ "\n" ++
    "-> " ++ d.position.file ++ "\n" ++
    margin ++ "\n" ++
    number ++ " | " ++ String.ofList (Text.trimEnd (line.dropWhile Text.isIndent)) ++ "\n" ++
    margin ++ " " ++ repeated (d.caretWidth line - 1) '-' ++ "^\n"

/-- The greatest width to which text is padded at run time. More than that is a panic. -/
def maxWidth : Nat := 65535

def report? (d : Diagnostic) (source : String) : Option String :=
  if d.caretWidth (d.sourceLine source) ≤ maxWidth then some (d.report source) else none

end LuaSyntax.Diagnostic
