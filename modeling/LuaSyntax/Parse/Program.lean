import LuaSyntax.Lexer
import LuaSyntax.Parse.Statement

/-! Whole programs. A statement that fails is dropped with its diagnostic and reading
goes on at the next line, so every source has a program. -/

namespace LuaSyntax

/-- The statements that could be read, and the diagnostics of those that were dropped. -/
structure Parsed where
  program : Program Token
  diagnostics : List Diagnostic

namespace Parsed

def ofTokens (stop : Position) (ts : List Token) : Parsed :=
  match ts with
  | [] => ⟨[], []⟩
  | t :: us =>
    if t.kind.isSeparator then ofTokens stop us
    else
      match Parse.stmtFrom stop t us with
      | ⟨log, .done s rest _⟩ =>
        let more := ofTokens stop rest
        ⟨s :: more.program, log ++ more.diagnostics⟩
      | ⟨log, .failed d halt _⟩ =>
        let more := ofTokens stop halt.resume
        ⟨more.program, log ++ d :: more.diagnostics⟩
termination_by ts.length
decreasing_by
  · simp
  · next h =>
    have := h.length_le
    simp only [List.length_cons]
    omega
  · next h => exact Halt.length_resume_lt h

def ofScanned (s : Scanned) : Parsed := ofTokens s.stop s.tokens

end Parsed

def parse (text : String) (file : Option String) : Parsed := .ofScanned (scan text file)

def parseBytes (bytes : List UInt8) (file : Option String) : Parsed × Option ReadError :=
  let (scanned, error) := scanBytes bytes file
  (.ofScanned scanned, error)

end LuaSyntax
