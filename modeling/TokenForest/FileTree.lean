import TokenForest.Path

/-!
# Files and directories

A tree of directories and files, as far as a run of the program can tell: a file is read, a directory is made with those
above it, a file is written. A path is followed name by name from the root or from the current directory, and what is in
the way is reported with the path.
-/

namespace TokenForest

/-- What stands at a place: a directory, or a file with its content. -/
inductive Entry where
  | directory
  | file (content : ByteArray)

/-- Files and directories by their places, each the list of names from the root. What lies above a place of the tree, or
above the current directory, is a directory too. -/
structure FileTree where
  current : List String
  entries : List (List String × Entry)

namespace FileTree

/-! ## Faults -/

/-- What is in the way of an operation. -/
inductive Obstacle where
  | missing
  | notADirectory
  | isADirectory
  | taken
  | nameTooLong
  | nullCharacter
  deriving DecidableEq, Repr

/-- Why an operation on a path fails. -/
structure Fault where
  obstacle : Obstacle
  path : Path
  deriving DecidableEq, Repr

/-- The message of a fault. -/
def Fault.message (fault : Fault) : String :=
  let path := Text.quoted fault.path.text
  match fault.obstacle with
  | .missing => s!"[Errno 2] No such file or directory: {path}"
  | .notADirectory => s!"[Errno 20] Not a directory: {path}"
  | .isADirectory => s!"[Errno 21] Is a directory: {path}"
  | .taken => s!"[Errno 17] File exists: {path}"
  | .nameTooLong => s!"[Errno 36] File name too long: {path}"
  | .nullCharacter => "embedded null byte"

/-! ## Places -/

/-- The greatest number of bytes of a name. -/
def maxName : Nat := 255

/-- The greatest number of bytes of the text of a path. -/
def maxPath : Nat := 4095

/-- What stands at a place, if anything does. -/
def entryAt? (t : FileTree) (place : List String) : Option Entry :=
  match t.entries.lookup place with
  | some entry => some entry
  | none =>
    if (t.current :: t.entries.map (·.1)).any (fun other => place.isPrefixOf other) then some .directory else none

/-- The place that names lead to from another place. Only the last of them may be missing there. -/
def follow (t : FileTree) (place : List String) : List String → Except Obstacle (List String)
  | [] => .ok place
  | name :: rest =>
    match t.entryAt? place with
    | none => .error .missing
    | some (.file _) => .error .notADirectory
    | some .directory =>
      if name = ".." then follow t place.dropLast rest
      else if maxName < name.utf8ByteSize then .error .nameTooLong
      else follow t (place ++ [name]) rest

/-- The place of a path. -/
def place (t : FileTree) (p : Path) : Except Fault (List String) :=
  if p.text.toList.contains '\x00' then .error ⟨.nullCharacter, p⟩
  else if maxPath < p.text.utf8ByteSize then .error ⟨.nameTooLong, p⟩
  else (t.follow (if p.isAbsolute then [] else t.current) p.names).mapError (⟨·, p⟩)

/-- There is a directory at the path. -/
def isDirectory (t : FileTree) (p : Path) : Bool :=
  match t.place p with
  | .ok place =>
    match t.entryAt? place with
    | some .directory => true
    | _ => false
  | .error _ => false

/-! ## Operations -/

/-- The content of the file at a path. -/
def read (t : FileTree) (p : Path) : Except Fault ByteArray := do
  match t.entryAt? (← t.place p) with
  | some (.file content) => return content
  | some .directory => .error ⟨.isADirectory, p⟩
  | none => .error ⟨.missing, p⟩

/-- The tree with something else at a place. -/
def put (t : FileTree) (place : List String) (entry : Entry) : FileTree :=
  { t with entries := (place, entry) :: t.entries.filter (fun e => e.1 ≠ place) }

/-- The tree with one directory more; there must be nothing at its path. -/
def makeDirectory (t : FileTree) (p : Path) : Except Fault FileTree := do
  let place ← t.place p
  match t.entryAt? place with
  | some _ => .error ⟨.taken, p⟩
  | none => return t.put place .directory

/-- The tree with a directory at a path, which may be there already. -/
def ensureDirectory (t : FileTree) (p : Path) : Except Fault FileTree :=
  match t.makeDirectory p with
  | .ok t => .ok t
  | .error fault => if fault.obstacle ≠ .missing ∧ t.isDirectory p then .ok t else .error fault

/-- The tree with a directory at a path and those above it; `above` counts the names of the path. -/
def ensureFrom (t : FileTree) (p : Path) : Nat → Except Fault FileTree
  | 0 => t.ensureDirectory p
  | above + 1 =>
    match t.ensureDirectory p with
    | .ok t => .ok t
    | .error fault =>
      if fault.obstacle = .missing then do
        let t ← t.ensureFrom p.parent above
        t.ensureDirectory p
      else .error fault

/-- The tree with a directory at a path and those above it, as far as they are not there. -/
def ensureDirectories (t : FileTree) (p : Path) : Except Fault FileTree := t.ensureFrom p p.names.length

/-- The tree with a file at a path, in place of the one that may be there. -/
def write (t : FileTree) (p : Path) (content : ByteArray) : Except Fault FileTree := do
  let place ← t.place p
  match t.entryAt? place with
  | some .directory => .error ⟨.isADirectory, p⟩
  | _ => return t.put place (.file content)

/-- The files below a place, by the names that lead from it to them. -/
def filesBelow (t : FileTree) (place : List String) : List (List String × ByteArray) :=
  t.entries.filterMap fun e =>
    match e.2 with
    | .file content => if place.isPrefixOf e.1 then some (e.1.drop place.length, content) else none
    | .directory => none

end FileTree

end TokenForest
