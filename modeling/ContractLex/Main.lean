import ContractLex.Command.Run

/-!
# The program

Everything the program does is decided by `Command.run`. What remains here is to gather what it
looks at (arguments, environment, and the files at the paths of the arguments) and to bring about
what it decides.
-/

namespace ContractLex.Command

def knownVariables : List String := [
  "SPECULA_CARRY_BLOCK_COMMENTS", "SPECULA_LOG_DIAGNOSTICS", "SPECULA_COLLECT_METRICS",
  "SPECULA_LOG_LEVEL", "SPECULA_STRUCTURED_LOGGING", "SPECULA_CONSOLE_LOGGING",
  "SPECULA_INCLUDE_FILE_CONTEXT", Environment.formatVariable, "SPECULA_WRITE_EMPTY",
  Filter.variableName]

def readEnvironment : IO Environment := do
  let mut env : Environment := []
  for name in knownVariables do
    if let some value ← IO.getEnv name then
      env := env ++ [(name, value)]
  return env

/-- What stands at a path of the system, if anything does; of a folder also what is below it if
`whole`. Links in a folder are not followed. -/
partial def readNode (whole : Bool) (path : String) : IO (Option Node) := do
  let place := (← IO.currentDir) / path
  let facts ← place.metadata
  match facts.type with
  | .dir =>
    try
      let entries ← place.readDir
      let mut node := Node.folder []
      if whole then
        for entry in entries do
          if (← entry.path.symlinkMetadata).type != .symlink then
            if let some inner ← readNode whole entry.path.toString then
              node := node.put inner [entry.fileName]
      return some node
    catch
      | .permissionDenied .. => return some .lockedFolder
      | _ => return none
  | .file =>
    try
      return some (.file (← IO.FS.readBinFile place))
    catch
      | .permissionDenied .. => return some (.lockedFile facts.byteSize.toNat)
      | _ => return none
  | _ => return none

def namesOf (start : List String) (p : Path) : List String :=
  p.components.foldl (fun names c =>
    match c with
    | .root => []
    | .current => names
    | .parent => names.dropLast
    | .name chars => names ++ [String.ofList chars]) start

/-- The paths on the way to a path, from the outside in. There are at most as many as it has
characters. -/
def ancestors (p : Path) : List Path :=
  go p.text.length p
where
  go : Nat → Path → List Path
    | 0, _ => []
    | n + 1, p =>
      match p.parent? with
      | some outer => go n outer ++ [outer]
      | none => []

/-- Adds what stands at a path and on the way there. A slash at the end of the path makes no
difference to that. -/
def gather (files : Files) (p : Path) : IO Files := do
  let plain := (p.fileName?.map fun name => p.withFileName (String.ofList name)).getD p
  let mut root := files.root
  for outer in ancestors p do
    let names := namesOf files.here outer
    if (root.find? names).isNone then
      if let some node ← try readNode false outer.text catch _ => pure none then
        root := root.put node names
  let names := namesOf files.here p
  try
    if let some node ← readNode true plain.text then
      root := root.put node names
  catch
    -- a locked folder on the way is there already, and otherwise this is a link into one
    | .permissionDenied .. =>
      if let some (.folder _) := root.find? names.dropLast then
        root := root.put (.lockedFile 0) names
    | _ => pure ()
  return { files with root }

/-- Gathers what stands at the paths of the arguments and where their dumps would be. -/
def readFiles (a : Arguments) : IO Files := do
  let here := namesOf [] ⟨(← IO.currentDir).toString⟩
  let files : Files := { root := (Node.folder []).put (.folder []) here, here }
  (a.paths ++ a.paths.filterMap Dump.path? ++ a.config.toList).foldlM gather files

end ContractLex.Command

open ContractLex ContractLex.Command in
def main (arguments : List String) : IO UInt32 := do
  let env ← readEnvironment
  let files ← match Arguments.read arguments with
    | .ok a => readFiles a
    | .error _ => pure {}
  let outcome := Command.run arguments env files
  for (names, contents) in files.changed outcome.files do
    IO.FS.writeBinFile ("/" ++ "/".intercalate names) contents
  IO.print outcome.out
  IO.eprint outcome.err
  return outcome.exit.toUInt32
