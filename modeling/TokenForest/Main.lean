import TokenForest.CommandLine

/-!
# The program

Looks at the files that the command line names, runs it, writes the report and prints the document.
-/

namespace TokenForest

namespace Program

/-- What stands at a path, if anything does. A file is read only where its content is asked for. -/
def entryOf? (path : Path) (content : Bool) : IO (Option Entry) := do
  try
    let real ← IO.FS.realPath path.text
    if ← real.isDir then return some .directory
    if content then return some (.file (← IO.FS.readBinFile path.text))
    return if ← real.pathExists then some (.file .empty) else none
  catch _ =>
    return none

/-- The place to which names lead when two dots take back the name in front of them. -/
def spelledPlace (start names : List String) : List String :=
  names.foldl (fun place name => if name = ".." then place.dropLast else place ++ [name]) start

/-- Adds what stands along a path to a tree. -/
def look (tree : FileTree) (path : Path) (content : Bool) : IO FileTree := do
  let start := if path.isAbsolute then [] else tree.current
  let mut tree := tree
  for i in List.range path.names.length do
    let front : Path := { path with names := path.names.take (i + 1) }
    let place := spelledPlace start front.names
    let whole := content && i + 1 == path.names.length
    if whole || (tree.entryAt? place).isNone then
      match ← entryOf? front whole with
      | some entry => tree := tree.put place entry
      | none => pure ()
  return tree

/-- The files that a request reads or writes. -/
def surroundings (r : CommandLine.Request) : IO FileTree := do
  let current := Path.ofText (← IO.FS.realPath ".").toString
  let mut tree : FileTree := ⟨current.names, []⟩
  match r with
  | .run o =>
    for path in o.config.toList ++ o.tokens.toList do
      tree ← look tree path true
    look tree o.reportOut false
  | _ => return tree

/-- Writes a file in a directory that is made when it is not there. -/
def writeFile (path : Path) (text : String) : IO Unit := do
  IO.FS.createDirAll path.parent.text
  IO.FS.writeFile path.text text

/-- How the program is called. -/
def usage : String :=
  "usage: --tokens FILE [--config FILE] [--report-out FILE] [--deadline-ms MS] [--no-minimize] [--json] [--verbose]"

/-- Says how the program is called, where the command line asks for it or is none. -/
def explain (r : CommandLine.Request) : IO Unit := do
  match r with
  | .help => IO.println usage
  | .usage => IO.eprintln usage
  | .run _ => pure ()

/-- Does what a run comes to. -/
def perform (o : CommandLine.Outcome) : IO UInt32 := do
  match o.report with
  | some (path, text) => writeFile path text
  | none => pure ()
  match o.printed with
  | some document => IO.println (document.render .terminal)
  | none => pure ()
  match o.complaint with
  | some text => IO.eprintln text
  | none => pure ()
  return UInt32.ofNat o.exitCode

/-- Runs a command line. -/
def run (args : List String) : IO UInt32 := do
  let request := CommandLine.parse args
  explain request
  match CommandLine.run (← surroundings request) args with
  | .ok outcome => perform outcome
  | .error fault =>
    IO.eprintln fault.message
    return 1

end Program

end TokenForest

/-- The entry point. -/
def main (args : List String) : IO UInt32 := TokenForest.Program.run args
