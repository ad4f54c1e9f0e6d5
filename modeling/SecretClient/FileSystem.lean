import SecretClient.Text.Blank
import SecretClient.Text.Utf8

/-!
# Files

A file system answers each path with the bytes of a file or with the reason why there are none.
`FileTree` is such a file system, given by what a working directory holds.
-/

namespace SecretClient

/-- Why a file gives no text. -/
inductive FileError where
  | notFound
  | isDirectory
  | notDirectory
  | nameTooLong
  | nulInName
  | notText
deriving DecidableEq, Repr

/-- The text of an error. -/
def FileError.message : FileError → String
  | notFound => "No such file or directory (os error 2)"
  | isDirectory => "Is a directory (os error 21)"
  | notDirectory => "Not a directory (os error 20)"
  | nameTooLong => "File name too long (os error 36)"
  | nulInName => "file name contained an unexpected NUL byte"
  | notText => "stream did not contain valid UTF-8"

/-- What is to be read at each path. -/
abbrev FileSystem := String → Except FileError (List UInt8)

namespace FileSystem

/-- The text of a file. -/
def text (files : FileSystem) (path : String) : Except FileError (List Char) :=
  match files path with
  | .error e => .error e
  | .ok bytes =>
    match Utf8.chars? bytes with
    | some t => .ok t
    | none => .error .notText

/-- The text of a file without the blanks at its ends, if any is left. -/
def trimmed (files : FileSystem) (path : String) : Except FileError (Option String) :=
  (files.text path).map fun t =>
    if (Blank.trim t).isEmpty then none else some (String.ofList (Blank.trim t))

end FileSystem

/-- Puts a name behind a directory. -/
def joinPath (directory name : String) : String :=
  if directory.isEmpty || directory.endsWith "/" then directory ++ name
  else directory ++ "/" ++ name

/-! ## Working directories -/

/-- What a path of a working directory leads to. -/
inductive FileNode where
  | file (bytes : List UInt8)
  | directory
deriving DecidableEq, Repr

/-- What a working directory holds, by the names on the way to it. The directories on the way exist
too. Nothing is known of what lies outside but that the directories above exist. -/
structure FileTree where
  nodes : List (List String × FileNode)

namespace FileTree

/-- The longest name, and the length that a path stays below, in bytes. -/
def maxNameSize : Nat := 255
@[inherit_doc maxNameSize]
def maxPathSize : Nat := 4096

/-- The names of a path between its slashes. -/
def names (path : String) : List String :=
  ((path.toList.splitOn '/').filter (!·.isEmpty)).map String.ofList

/-- What the working directory holds behind some names. -/
def node? (tree : FileTree) (way : List String) : Option FileNode :=
  match tree.nodes.find? (·.1 == way) with
  | some (_, node) => some node
  | none => if way.isEmpty || tree.nodes.any (way.isPrefixOf ·.1) then some .directory else none

/-- Where a walk along a path stands: in the working directory, behind some names (last one first),
or outside. -/
inductive Place where
  | inside (way : List String)
  | outside
deriving DecidableEq, Repr

/-- What is at a place. -/
def at? (tree : FileTree) : Place → Option FileNode
  | .inside way => tree.node? way.reverse
  | .outside => some .directory

/-- Goes one name further from a directory. -/
def enter (tree : FileTree) (place : Place) (name : String) : Except FileError Place :=
  match tree.at? place with
  | some (.file _) => .error .notDirectory
  | none => .error .notFound
  | some .directory =>
    if name = "." then .ok place
    else if name = ".." then
      match place with
      | .inside (_ :: way) => .ok (.inside way)
      | _ => .ok .outside
    else if maxNameSize < name.utf8ByteSize then .error .nameTooLong
    else
      match place with
      | .inside way =>
        if (tree.node? (name :: way).reverse).isSome then .ok (.inside (name :: way))
        else .error .notFound
      | .outside => .error .notFound

/-- What is to be read at a path. A path that ends in a slash leads to a directory or to nothing. -/
def read (tree : FileTree) : FileSystem := fun path =>
  if path.toList.contains '\x00' then .error .nulInName
  else if path.isEmpty then .error .notFound
  else if maxPathSize ≤ path.utf8ByteSize then .error .nameTooLong
  else
    let start := if path.startsWith "/" then .outside else .inside []
    match (names path).foldlM tree.enter start with
    | .error e => .error e
    | .ok place =>
      match tree.at? place with
      | some (.file bytes) => if path.endsWith "/" then .error .notDirectory else .ok bytes
      | some .directory => .error .isDirectory
      | none => .error .notFound

end FileTree

end SecretClient
