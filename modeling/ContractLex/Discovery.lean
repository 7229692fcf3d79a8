import ContractLex.Dump
import ContractLex.Files
import ContractLex.Log.Event
import ContractLex.SourceFile

/-!
# Finding source files

The user names files and folders. A file is taken as it is, also one that does not exist, so that
whoever reads it can report it. A folder stands for the source files below it, in the order of their
names, and without the dumps of earlier runs. Whether such a file can be read is not asked here; a
folder that cannot be listed is passed over.
-/

namespace ContractLex.Discovery

def isSource (p : Path) : Bool := p.extension? == some sourceExtension

def isDump (p : Path) : Bool :=
  match p.stem? with
  | some stem => Dump.stemSuffix.toList.isSuffixOf stem
  | none => false

mutual

/-- The source files at or below a path. -/
def below (p : Path) : Node → List Path
  | .file _ | .lockedFile _ => if isSource p && !isDump p then [p] else []
  | .folder entries => belowEntries p entries
  | .lockedFolder => []

def belowEntries (p : Path) : List (String × Node) → List Path
  | [] => []
  | (name, node) :: rest => below (p.join name) node ++ belowEntries p rest

end

def folderEvent (p : Path) (count : Nat) : Event :=
  ((Event.info "Discovered source files").tag "directory" p.text).tag "count" (toString count)

/-- The source files that one path stands for. -/
def sourcesAt (files : Files) (p : Path) : List Path × List Event :=
  match files.get p with
  | .ok node =>
    if node.isFolder then
      let found := below p node
      (found, [folderEvent p found.length])
    else ([p], [])
  | .error _ => ([p], [])

/-- The source files that paths stand for. -/
def sources (files : Files) (paths : List Path) : List Path × List Event :=
  let results := paths.map (sourcesAt files)
  (results.flatMap (·.1), results.flatMap (·.2))

end ContractLex.Discovery
