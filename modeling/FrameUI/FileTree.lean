import FrameUI.Text.Blank

/-!
# Trees of files

A tree of files to run programs against. Whether a path can be opened depends on the tree: every
name before the last one has to be a directory, and the last one must not be one.
-/

namespace FrameUI

/-! ### Trees -/

/-- A file, or a directory with its entries. `grows` tells whether files can be added. -/
inductive FileTree where
  | file
  | directory (grows : Bool) (entries : List (String × FileTree))

namespace FileTree

/-- A directory without entries that takes new files. -/
def folder : FileTree := directory true []

/-- The directories and devices that are found on every system. -/
def standard : FileTree :=
  directory true
    [("bin", folder), ("boot", folder),
      ("dev", directory true
        [("full", file), ("null", file), ("random", file), ("shm", folder),
          ("urandom", file), ("zero", file)]),
      ("etc", directory true [("hostname", file), ("hosts", file), ("passwd", file)]),
      ("home", folder), ("lib", folder), ("media", folder), ("mnt", folder),
      ("opt", folder), ("proc", directory false []), ("root", folder), ("run", folder),
      ("sbin", folder), ("srv", folder), ("sys", directory false []), ("tmp", folder),
      ("usr", directory true
        [("bin", folder), ("include", folder), ("lib", folder), ("local", folder),
          ("sbin", folder), ("share", folder), ("src", folder)]),
      ("var", directory true
        [("cache", folder), ("lib", folder), ("log", folder), ("tmp", folder)])]

def entry? (entries : List (String × FileTree)) (name : String) : Option FileTree :=
  (entries.find? fun e => e.1 == name).map Prod.snd

end FileTree

/-! ### Opening -/

inductive OpenError where
  | innerNul
  | notFound
  | notDirectory
  | isDirectory
  | nameTooLong
deriving DecidableEq, Repr

def OpenError.message : OpenError → String
  | innerNul => "file name contained an unexpected NUL byte"
  | notFound => "No such file or directory (os error 2)"
  | notDirectory => "Not a directory (os error 20)"
  | isDirectory => "Is a directory (os error 21)"
  | nameTooLong => "File name too long (os error 36)"

/-- The longest name of an entry, in bytes. -/
def maxNameBytes : Nat := 255

/-- The longest path, in bytes. -/
def maxPathBytes : Nat := 4095

/-- Goes on to an entry. The way from the root to the place reached so far is kept, the
innermost directory first. -/
def enterName (way : List FileTree) (name : String) : Except OpenError (List FileTree) :=
  match way with
  | .directory _ entries :: outer =>
    if name = "." then .ok way
    else if name = ".." then .ok (if outer.isEmpty then way else outer)
    else if maxNameBytes < name.utf8ByteSize then .error .nameTooLong
    else match FileTree.entry? entries name with
      | some next => .ok (next :: way)
      | none => .error .notFound
  | _ => .error .notDirectory

/-- Opens the last name of a path in the directory that the names before it have led to. -/
def openName (way : List FileTree) (name : String) (slashAfter : Bool) :
    Except OpenError Unit :=
  match way with
  | .directory grows entries :: _ =>
    if name = "." ∨ name = ".." ∨ slashAfter then .error .isDirectory
    else if maxNameBytes < name.utf8ByteSize then .error .nameTooLong
    else match FileTree.entry? entries name with
      | some .file => .ok ()
      | some (.directory ..) => .error .isDirectory
      | none => if grows then .ok () else .error .notFound
  | _ => .error .notDirectory

/-- Opens a path for appending, creating the file if need be. A path that does not begin at
the root begins in a folder of its own. -/
def openForAppending (root : FileTree) (path : String) : Except OpenError Unit :=
  if path.toList.contains '\x00' then .error .innerNul
  else if path.isEmpty then .error .notFound
  else if maxPathBytes < path.utf8ByteSize then .error .nameTooLong
  else
    let names := ((Text.splitOn (· == '/') path.toList).filter (!·.isEmpty)).map
      String.ofList
    let start := if path.toList.head? = some '/' then [root] else [.folder, root]
    match names.getLast? with
    | none => .error .isDirectory
    | some last => do
      let way ← names.dropLast.foldlM enterName start
      openName way last (path.toList.getLast? == some '/')

end FrameUI
