import ContractLex.Path

/-!
# Files

A tree of folders and files, and a working folder in it from which paths start that do not begin at
the root. A path is followed part by part: every part but the last has to lead to a folder, and so
does the last if a slash or a period follows it. What is locked is there to be seen from the folder
around it, but a locked file can be neither read nor written, and a locked folder neither listed nor
entered. Permissions are not told apart further: what is not locked can be read and written.
-/

namespace ContractLex

/-- Why a path cannot be followed, or what it leads to cannot be used. -/
inductive FileFault where
  | notFound
  | notFolder
  | isFolder
  | nameTooLong
  | noPermission
  | badName
  | badText
deriving DecidableEq, Repr

def FileFault.message : FileFault → String
  | .notFound => "No such file or directory (os error 2)"
  | .notFolder => "Not a directory (os error 20)"
  | .isFolder => "Is a directory (os error 21)"
  | .nameTooLong => "File name too long (os error 36)"
  | .noPermission => "Permission denied (os error 13)"
  | .badName => "file name contained an unexpected NUL byte"
  | .badText => "stream did not contain valid UTF-8"

/-- What a name in a folder stands for. -/
inductive Node where
  | file (contents : ByteArray)
  /-- Entries in the order of their names. -/
  | folder (entries : List (String × Node))
  /-- Its contents are out of reach, but not how many bytes they are. -/
  | lockedFile (size : Nat)
  | lockedFolder
deriving Inhabited

namespace Node

/-- Puts an entry in its place among those of a folder. -/
def putEntry (name : String) (node : Node) : List (String × Node) → List (String × Node)
  | [] => [(name, node)]
  | (other, old) :: rest =>
    if name = other then (name, node) :: rest
    else if name < other then (name, node) :: (other, old) :: rest
    else (other, old) :: putEntry name node rest

/-- What names lead to, one below the other. -/
def find? (node : Node) : List String → Option Node
  | [] => some node
  | name :: names =>
    match node with
    | .folder entries =>
      match entries.lookup name with
      | some inner => inner.find? names
      | none => none
    | _ => none

/-- Puts a node where names lead; folders on the way that do not exist are made. -/
def put (node new : Node) : List String → Node
  | [] => new
  | name :: names =>
    let entries := match node with
      | .folder entries => entries
      | _ => []
    .folder (putEntry name ((entries.lookup name |>.getD (.folder [])).put new names) entries)

def isFolder : Node → Bool
  | .folder _ | .lockedFolder => true
  | .file _ | .lockedFile _ => false

end Node

/-- A tree and the working folder in it. -/
structure Files where
  root : Node := .folder []
  here : List String := []

namespace Files

/-- The longest name, in bytes. -/
def maxName : Nat := 255

/-- Paths are shorter than this, in bytes. -/
def pathLimit : Nat := 4096

/-- Follows one part of a path from the folder at `names`. The empty part after a slash at the end
asks for a folder, and does not enter it. -/
def step (files : Files) (names : List String) (part : List Char) :
    Except FileFault (List String) :=
  match files.root.find? names with
  | none => .error .notFound
  | some (.file _) | some (.lockedFile _) => .error .notFolder
  | some .lockedFolder => if part.isEmpty then .ok names else .error .noPermission
  | some (.folder entries) =>
    if Path.isIdle part then .ok names
    else if part = ['.', '.'] then .ok names.dropLast
    else
      let name := String.ofList part
      if maxName < name.utf8ByteSize then .error .nameTooLong
      else if (entries.lookup name).isSome then .ok (names ++ [name])
      else .error .notFound

/-- Where a path starts, and the parts that follow. -/
def start (files : Files) (p : Path) : Except FileFault (List String × List (List Char)) :=
  let chars := p.text.toList
  if chars.isEmpty then .error .notFound
  else if chars.contains '\x00' then .error .badName
  else if pathLimit ≤ p.text.utf8ByteSize then .error .nameTooLong
  else .ok (if p.isAbsolute then [] else files.here, Path.splitSlashes chars)

/-- The names that a path leads to, from the root. -/
def resolve (files : Files) (p : Path) : Except FileFault (List String) := do
  let (names, parts) ← files.start p
  parts.foldlM files.step names

def get (files : Files) (p : Path) : Except FileFault Node := do
  match files.root.find? (← files.resolve p) with
  | some node => .ok node
  | none => .error .notFound

def read (files : Files) (p : Path) : Except FileFault ByteArray := do
  match ← files.get p with
  | .file contents => .ok contents
  | .folder _ => .error .isFolder
  | .lockedFile _ | .lockedFolder => .error .noPermission

def isFolder (files : Files) (p : Path) : Bool :=
  match files.get p with
  | .ok node => node.isFolder
  | .error _ => false

/-- Writes a text to a file, which is new or loses its contents. The folder has to exist. -/
def write (files : Files) (p : Path) (text : String) : Except FileFault Files := do
  let (names, parts) ← files.start p
  let folder ← parts.dropLast.foldlM files.step names
  let name := (parts.getLast?.map String.ofList).getD ""
  match files.root.find? folder with
  | some (.folder entries) =>
    if maxName < name.utf8ByteSize then .error .nameTooLong
    else
      match entries.lookup name with
      | some (.folder _) | some .lockedFolder => .error .isFolder
      | some (.lockedFile _) => .error .noPermission
      | _ => .ok { files with root := files.root.put (.file text.toUTF8) (folder ++ [name]) }
  | some .lockedFolder => .error .noPermission
  | some (.file _) | some (.lockedFile _) => .error .notFolder
  | none => .error .notFound

end Files

mutual

/-- The files in a tree that can be read, and the names that lead to each. -/
def Node.list (names : List String) : Node → List (List String × ByteArray)
  | .file contents => [(names, contents)]
  | .folder entries => listEntries names entries
  | .lockedFile _ | .lockedFolder => []

def listEntries (names : List String) : List (String × Node) → List (List String × ByteArray)
  | [] => []
  | (name, node) :: rest => node.list (names ++ [name]) ++ listEntries names rest

end

/-- The files that are new in `after` or have other contents there than in `before`. -/
def Files.changed (before after : Files) : List (List String × ByteArray) :=
  (after.root.list []).filter fun (names, contents) =>
    match before.root.find? names with
    | some (.file old) => old.data != contents.data
    | _ => true

end ContractLex
