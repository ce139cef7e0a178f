import LuaSyntax.Command

/-! The command line program. -/

namespace LuaSyntax.Command

def FileError.ofSystem : IO.Error → FileError
  | .noFileOrDirectory .. => .missing
  | .inappropriateType _ 20 _ => .notDirectory
  | .inappropriateType _ 21 _ => .isDirectory
  | e => .other (toString e)

def readFile (path : String) : IO (Except FileError (List UInt8)) := do
  try
    let bytes ← IO.FS.withFile path .read (·.readBinToEnd)
    return .ok bytes.toList
  catch e =>
    return .error (.ofSystem e)

end LuaSyntax.Command

open LuaSyntax.Command in
def main (args : List String) : IO UInt32 := do
  match parseArgs args with
  | none =>
    IO.eprintln "usage: [--tokens] [--ast] [--source-name NAME] FILE"
    return 2
  | some .version =>
    IO.print versionText
    return 0
  | some (.check options) =>
    let outcome := options.run (← readFile options.file)
    IO.print outcome.stdout
    IO.eprint outcome.stderr
    return outcome.exit.toUInt32
