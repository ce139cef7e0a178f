import LuaSyntax.Diagnostic.Report
import LuaSyntax.Parse.Program
import LuaSyntax.Tree.Render

/-! The command line: what the arguments ask for, and what is printed for a file. -/

namespace LuaSyntax.Command

structure Options where
  file : String
  tokens : Bool
  tree : Bool
  sourceName : Option String
deriving DecidableEq

inductive Request where
  | version
  | check (options : Options)
deriving DecidableEq

structure Given where
  file : Option String := none
  tokens : Bool := false
  tree : Bool := false
  sourceName : Option String := none
deriving DecidableEq

namespace Given

def addFile (g : Given) (arg : String) : Option Given :=
  if arg = "" ∨ g.file.isSome then none else some { g with file := some arg }

def addFiles (g : Given) (args : List String) : Option Given :=
  args.foldlM addFile g

def addSourceName (g : Given) (name : String) : Option Given :=
  if g.sourceName.isSome then none else some { g with sourceName := some name }

def addTokens (g : Given) : Option Given :=
  if g.tokens then none else some { g with tokens := true }

def addTree (g : Given) : Option Given :=
  if g.tree then none else some { g with tree := true }

def request? (g : Given) : Option Request :=
  g.file.map fun file => .check ⟨file, g.tokens, g.tree, g.sourceName⟩

end Given

def isOption (arg : String) : Bool :=
  match arg.toList with
  | '-' :: _ :: _ => true
  | _ => false

def inlineName? (arg : String) : Option String :=
  let flag := "--source-name=".toList
  if flag.isPrefixOf arg.toList then some (String.ofList (arg.toList.drop flag.length)) else none

/-- Whether an argument asks for the version. What follows `-V` in it does not matter. -/
def asksVersion (arg : String) : Bool := arg == "--version" || "-V".toList.isPrefixOf arg.toList

/-- Takes the arguments from left to right. The first that is not in order makes them invalid, and
a request for the version leaves the rest unread. After `--` there are no options. -/
def request (g : Given) : List String → Option Request
  | [] => g.request?
  | arg :: args =>
    if arg = "--" then (g.addFiles args).bind (·.request?)
    else if asksVersion arg then some .version
    else if arg = "--tokens" then g.addTokens.bind fun g => request g args
    else if arg = "--ast" then g.addTree.bind fun g => request g args
    else if arg = "--source-name" then
      match args with
      | [] => none
      | name :: args =>
        if isOption name then none else (g.addSourceName name).bind fun g => request g args
    else match inlineName? arg with
      | some name => (g.addSourceName name).bind fun g => request g args
      | none =>
        if isOption arg then none else (g.addFile arg).bind fun g => request g args

def parseArgs (args : List String) : Option Request := request {} args

inductive FileError where
  | missing
  | notDirectory
  | isDirectory
  | unreadable (error : ReadError)
  | other (message : String)
deriving DecidableEq

def FileError.message (path : String) : FileError → String
  | missing => "could not open " ++ path ++ ": No such file or directory (os error 2)"
  | notDirectory => "could not open " ++ path ++ ": Not a directory (os error 20)"
  | isDirectory => "could not read " ++ path ++ ": Is a directory (os error 21)"
  | unreadable error => "could not read " ++ path ++ ": " ++ error.message
  | other message => "could not open " ++ path ++ ": " ++ message

/-- Why a run ends early. A panic is no error of the file. -/
inductive Failure where
  | file (error : FileError)
  | panic
deriving DecidableEq

/-- What a run prints, and its exit code. What the runtime says about a panic is left out. -/
structure Outcome where
  exit : Nat
  stdout : String
  stderr : String
deriving DecidableEq

/-- The last component of a path, unless it goes up. -/
def fileName? (path : String) : Option String :=
  match (path.splitOn "/").reverse.dropWhile (fun part => part = "" ∨ part = ".") with
  | [] | ".." :: _ => none
  | name :: _ => some name

def Options.name? (o : Options) : Option String := o.sourceName.or (fileName? o.file)

def tokenLines (ts : List Token) : String := String.join (ts.map fun t => t.listing ++ "\n")

structure Output where
  stdout : String := ""
  stderr : String := ""
deriving DecidableEq

/-- Steps that print and may fail. What is printed before a failure stays. -/
abbrev Printing := ExceptT Failure (StateM Output)

def print (text : String) : Printing Unit :=
  modify fun out => { out with stdout := out.stdout ++ text }

def printError (text : String) : Printing Unit :=
  modify fun out => { out with stderr := out.stderr ++ text }

def readSource (content : Except FileError (List UInt8)) : Except Failure String := do
  match decodeBytes? (← content.mapError .file) with
  | none => throw (.file (.unreadable .invalidUtf8))
  | some chars => return String.ofList chars

def checkRead : Option ReadError → Printing Unit
  | none => pure ()
  | some error => throw (.file (.unreadable error))

def Options.listTokens (o : Options) (bytes : List UInt8) : Printing Unit := do
  if o.tokens then
    let (scanned, error) := scanBytes bytes o.name?
    print (tokenLines scanned.tokens)
    checkRead error

def Options.printTree (o : Options) (program : Program Token) : Printing Unit :=
  if o.tree then print (program.render ++ "\n") else pure ()

def printReport (source : String) (d : Diagnostic) : Printing Unit :=
  match d.report? source with
  | none => throw .panic
  | some report => printError (report ++ "\n")

/-- Prints what was asked for about a file, and says whether it has no diagnostics. The text is read
once, and then its bytes through a reader, for the tokens and for the program. -/
def Options.check (o : Options) (content : Except FileError (List UInt8)) : Printing Bool := do
  let text ← readSource content
  let bytes := text.toUTF8.data.toList
  o.listTokens bytes
  let (parsed, error) := parseBytes bytes o.name?
  checkRead error
  o.printTree parsed.program
  parsed.diagnostics.forM (printReport text)
  return parsed.diagnostics.isEmpty

def Options.run (o : Options) (content : Except FileError (List UInt8)) : Outcome :=
  match (o.check content).run.run {} with
  | (.ok clean, out) => ⟨if clean then 0 else 1, out.stdout, out.stderr⟩
  | (.error (.file e), out) =>
    ⟨2, out.stdout, out.stderr ++ "error: " ++ e.message o.file ++ "\n"⟩
  | (.error .panic, out) => ⟨101, out.stdout, out.stderr⟩

def versionText : String := "luafront 0.1.0\n"

end LuaSyntax.Command
