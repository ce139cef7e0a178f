import LuaSyntax.Command

/-! A working directory in memory, and how paths lead through it. -/

namespace LuaSyntax.Command

/-- Directories and files by the names that lead to them from the working directory. -/
structure FileTree where
  directories : List (List String) := []
  files : List (List String × List UInt8) := []

namespace FileTree

/-- Where a path has led so far. Outside the working directory nothing is known to exist. -/
inductive Place where
  | inside (names : List String)
  | outside

def isDirectory (t : FileTree) (names : List String) : Bool :=
  names.isEmpty || t.directories.contains names

def follow (t : FileTree) (place : Place) : List String → Except FileError (List UInt8)
  | [] => .error .isDirectory
  | part :: parts =>
    if part = "" ∨ part = "." then t.follow place parts
    else match place with
      | .outside => if part = ".." then t.follow .outside parts else .error .missing
      | .inside names =>
        if part = ".." then
          t.follow (if names.isEmpty then .outside else .inside names.dropLast) parts
        else
          let names := names ++ [part]
          if t.isDirectory names then t.follow (.inside names) parts
          else match t.files.lookup names with
            | none => .error .missing
            | some bytes => if parts.isEmpty then .ok bytes else .error .notDirectory

def read (t : FileTree) (path : String) : Except FileError (List UInt8) :=
  match path.splitOn "/" with
  | "" :: part :: parts => t.follow .outside (part :: parts)
  | parts => t.follow (.inside []) parts

def makeDirectories (t : FileTree) (names : List String) : List String → FileTree × List String
  | [] => (t, names)
  | part :: parts =>
    if part = "" ∨ part = "." then t.makeDirectories names parts
    else if part = ".." then t.makeDirectories names.dropLast parts
    else
      let names := names ++ [part]
      { t with directories := t.directories ++ [names] }.makeDirectories names parts

def addDirectory (t : FileTree) (path : String) : FileTree :=
  (t.makeDirectories [] (path.splitOn "/")).1

def addFile (t : FileTree) (path : String) (bytes : List UInt8) : FileTree :=
  let parts := path.splitOn "/"
  let (t, names) := t.makeDirectories [] parts.dropLast
  { t with files := t.files ++ [(names ++ parts.drop (parts.length - 1), bytes)] }

end FileTree

end LuaSyntax.Command
