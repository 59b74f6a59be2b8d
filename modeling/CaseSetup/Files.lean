import CaseSetup.Grammar.Document
import CaseSetup.Json.Export

/-! # Configuration files

A `FileTree` holds files below a working directory. Configurations are read from it and written to
it; a path that starts with the component `~` starts in the home directory. -/

namespace CaseSetup

/-- Directories and files by the components of their path from the working directory. -/
structure FileTree where
  directories : List (List String)
  files : List (List String × ByteArray)
  home : String

inductive FileFault
  | notFound
  | notADirectory
  | isADirectory
  | nameTooLong
  /-- No path holds the character zero. -/
  | zeroInPath
  | notText
  deriving DecidableEq, Repr

def FileFault.message : FileFault → String
  | notFound => "No such file or directory (os error 2)"
  | notADirectory => "Not a directory (os error 20)"
  | isADirectory => "Is a directory (os error 21)"
  | nameTooLong => "File name too long (os error 36)"
  | zeroInPath => "file name contained an unexpected NUL byte"
  | notText => "stream did not contain valid UTF-8"

namespace FileTree

/-- A working directory that holds one empty directory, the home directory. -/
def fresh : FileTree := ⟨[[], ["home"]], [], "home"⟩

/-- What a path leads to. -/
inductive Node
  | directory (components : List String)
  | file (components : List String) (content : ByteArray)
  /-- A free name in a directory. -/
  | free (components : List String)

def node (t : FileTree) (components : List String) : Node :=
  if components ∈ t.directories then .directory components
  else match t.files.lookup components with
    | some content => .file components content
    | none => .free components

/-- The bytes that a component may have. -/
def componentLimit : Nat := 255

/-- The bytes that a path may have. -/
def pathLimit : Nat := 4095

/-- Follow one component from a node; above the working directory there are only directories. -/
def step (t : FileTree) (n : Node) (component : String) : Except FileFault Node :=
  match n with
  | .file .. => .error .notADirectory
  | .free _ => .error .notFound
  | .directory d =>
    if component = "." then .ok (.directory d)
    else if component = ".." then
      .ok (.directory (if d.all (· = "..") then d ++ [".."] else d.dropLast))
    else if componentLimit < component.utf8ByteSize then .error .nameTooLong
    else .ok (t.node (d ++ [component]))

/-- The components of a path; a path is never empty, nor does it start with a slash. -/
def components (path : String) : Except FileFault (List String) :=
  if '\x00' ∈ path.toList then .error .zeroInPath
  else if path.isEmpty || path.startsWith "/" then .error .notFound
  else if pathLimit < path.utf8ByteSize then .error .nameTooLong
  else .ok ((path.splitOn "/").filter (· ≠ ""))

/-- The node at the end of the components, from the working directory. -/
def follow (t : FileTree) (components : List String) : Except FileFault Node :=
  components.foldlM t.step (.directory [])

def isDirectoryPath (path : String) : Bool := path.endsWith "/"

/-- The text of the file at a path. -/
def read (t : FileTree) (path : String) : Except FileFault String := do
  match ← t.follow (← components path) with
  | .directory _ => .error .isADirectory
  | .free _ => .error .notFound
  | .file _ content =>
    if isDirectoryPath path then .error .notADirectory
    else match String.fromUTF8? content with
      | some s => .ok s
      | none => .error .notText

/-- The tree with the file at a path written anew. When a slash ends the path its last component is not
looked up, since no file can have that name. -/
def write (t : FileTree) (path : String) (content : ByteArray) : Except FileFault FileTree := do
  let names ← components path
  match ← t.follow (if isDirectoryPath path then names.dropLast ++ ["."] else names) with
  | .directory _ => .error .isADirectory
  | .free name | .file name _ => return { t with files := Entries.put name content t.files }

/-- A path with a leading `~` replaced by the home directory. What follows loses the slashes and
single points around it. -/
def resolve (t : FileTree) (path : String) : String :=
  match path.splitOn "/" with
  | "~" :: rest =>
    let idle (c : String) : Bool := c = "" || c = "."
    let rest := ((rest.dropWhile idle).reverse.dropWhile idle).reverse
    t.home ++ "/" ++ "/".intercalate rest
  | _ => path

end FileTree

def Fault.unreadable (e : FileFault) (path : String) : Fault :=
  ⟨.file s!"Failed to read file: {e.message}" path,
    some "Check that the file exists and is readable", some 501⟩

def Fault.unwritable (e : FileFault) (path : String) : Fault :=
  file s!"Failed to write file: {e.message}" path

namespace Block

/-- The configuration in the file at a path. -/
def load (t : FileTree) (path : String) : Except Fault Block :=
  let path := t.resolve path
  match t.read path with
  | .ok text => parse text
  | .error e => .error (.unreadable e path)

/-- The configuration at the first path, or at the second if the first file cannot be read. A file
that can be read but not parsed is a fault. -/
def loadFirst (t : FileTree) (primary fallback : String) : Except Fault Block :=
  match load t primary with
  | .ok b => .ok b
  | .error f => match f.cause with
    | .file .. => (load t fallback).mapError fun f => match f.cause with
      | .file text _ =>
        ⟨.file s!"Failed to load config from primary path '{primary}' or fallback path '{fallback}': {text}"
            s!"{primary} (fallback: {fallback})",
          some "Check that at least one of the config files exists", some 501⟩
      | _ => f
    | _ => .error f

/-- Write the configuration to the file at a path, evaluated if `evaluate` is set. -/
def store (b : Block) (t : FileTree) (path : String) (evaluate : Bool) : Except Fault FileTree := do
  let path := t.resolve path
  let text ← b.serialize evaluate
  (t.write path text.toUTF8).mapError (.unwritable · path)

/-- The configuration in the file at a path as JSON. -/
def exportFile (t : FileTree) (path : String) : Except Fault String := do (← load t path).exportJson

end Block

end CaseSetup
