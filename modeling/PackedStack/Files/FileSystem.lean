import PackedStack.Files.Path

/-!
# File systems

A tree of directories and files with a working directory, and the four things that a program does
with it: open a file, read it, create a file and write to it. Creating a file empties one that
exists and touches nothing else; writing touches only the file that was created.
-/

namespace PackedStack

inductive Node where
  | directory
  | file (bytes : List UInt8)
  /-- A device that takes any bytes and keeps none. -/
  | null
  /-- A device without any room: it can be opened and takes no bytes. -/
  | full
  deriving DecidableEq, Repr

/-- Where a node is: the names on the way to it from the root. -/
abbrev Location := List String

structure FileSystem where
  /-- The nodes below the root. -/
  nodes : List (Location × Node)
  workingDirectory : Location
  deriving DecidableEq, Repr

namespace FileSystem

def get? (fs : FileSystem) (location : Location) : Option Node :=
  if location.isEmpty then some .directory else fs.nodes.lookup location

/-- Puts a node at a location, in place of one that is there. -/
def put (fs : FileSystem) (location : Location) (node : Node) : FileSystem :=
  { fs with nodes := (location, node) :: fs.nodes.filter (·.1 ≠ location) }

/-- Puts a node below the working directory, with directories on the way to it. -/
def install (fs : FileSystem) (names : List String) (node : Node) : FileSystem :=
  let directories := (List.range names.length).map fun n => fs.workingDirectory ++ names.take n
  let step fs d := if (get? fs d).isSome then fs else fs.put d .directory
  (directories.foldl step fs).put (fs.workingDirectory ++ names) node

/-- What is below the working directory, with the names that lead there. -/
def contents (fs : FileSystem) : List (List String × Node) :=
  fs.nodes.filterMap fun n =>
    if fs.workingDirectory.isPrefixOf n.1 ∧ n.1 ≠ fs.workingDirectory then
      some (n.1.drop fs.workingDirectory.length, n.2)
    else none

/-- A system with an empty working directory and two devices. -/
def blank : FileSystem where
  nodes := [(["dev"], .directory), (["dev", "null"], .null), (["dev", "full"], .full),
    (["work"], .directory)]
  workingDirectory := ["work"]

/-- The node with the given name in a directory. -/
def child (fs : FileSystem) (parent : Location) (name : String) :
    Except SystemFault (Location × Node) :=
  if Path.maxNameLength < name.utf8ByteSize then .error .nameTooLong
  else match fs.get? (parent ++ [name]) with
    | some node => .ok (parent ++ [name], node)
    | none => .error .notFound

/-- Follows names from a location. Every node on the way but the last has to be a directory; the
names `.` and `..` stand for a directory itself and for the one above it. -/
def walk (fs : FileSystem) (start : Location) : List String → Except SystemFault Location
  | [] => .ok start
  | name :: rest =>
    match fs.get? start with
    | some .directory =>
      if name = "." then fs.walk start rest
      else if name = ".." then fs.walk start.dropLast rest
      else do fs.walk (← fs.child start name).1 rest
    | some _ => .error .notDirectory
    | none => .error .notFound

/-- Where a path starts. -/
def start (fs : FileSystem) (path : Path) : Location :=
  if path.fromRoot then [] else fs.workingDirectory

/-- Finds the file at a path, to read it. -/
def openFile (fs : FileSystem) (text : String) : Except SystemFault Location := do
  let path ← Path.parse text
  let location ← fs.walk (fs.start path) path.names
  if path.endsInSlash ∧ fs.get? location ≠ some .directory then .error .notDirectory
  else return location

def read (fs : FileSystem) (location : Location) : Except SystemFault (List UInt8) :=
  match fs.get? location with
  | some (.file bytes) => .ok bytes
  | some .null | some .full => .ok []
  | some .directory => .error .isDirectory
  | none => .error .notFound

/-- Makes an empty file at a path, or empties the one that is there. -/
def create (fs : FileSystem) (text : String) : Except SystemFault (Location × FileSystem) := do
  let path ← Path.parse text
  match path.names.getLast? with
  | none | some "." | some ".." => do
    let _ ← fs.walk (fs.start path) path.names
    .error .isDirectory
  | some name => do
    let parent ← fs.walk (fs.start path) path.names.dropLast
    if fs.get? parent ≠ some .directory then .error .notDirectory
    else if path.endsInSlash then .error .isDirectory
    else match fs.child parent name with
      | .ok (_, .directory) => .error .isDirectory
      | .ok (location, .file _) => .ok (location, fs.put location (.file []))
      | .ok (location, _) => .ok (location, fs)
      | .error .notFound => .ok (parent ++ [name], fs.put (parent ++ [name]) (.file []))
      | .error fault => .error fault

/-- Appends bytes to a file. -/
def write (fs : FileSystem) (location : Location) (bytes : List UInt8) :
    Except SystemFault FileSystem :=
  match fs.get? location with
  | some (.file old) => .ok (fs.put location (.file (old ++ bytes)))
  | some .null => .ok fs
  | some .full => if bytes.isEmpty then .ok fs else .error .noSpace
  | some .directory => .error .isDirectory
  | none => .error .notFound

@[simp] theorem get?_put_self (fs : FileSystem) {location : Location} (h : location ≠ [])
    (node : Node) : (fs.put location node).get? location = some node := by
  simp [get?, put, h]

theorem lookup_filter_ne {location other : Location} (h : other ≠ location)
    (nodes : List (Location × Node)) :
    (nodes.filter (·.1 ≠ location)).lookup other = nodes.lookup other := by
  induction nodes with
  | nil => rfl
  | cons n nodes ih =>
    obtain ⟨key, node⟩ := n
    by_cases hn : key = location
    · subst hn
      simp only [List.lookup_cons, beq_false_of_ne h, ← ih]
      simp
    · rw [List.filter_cons_of_pos (by simpa using hn), List.lookup_cons, List.lookup_cons, ih]

theorem get?_put_of_ne (fs : FileSystem) {location other : Location} (h : other ≠ location)
    (node : Node) : (fs.put location node).get? other = fs.get? other := by
  simp only [get?, put, List.lookup_cons, beq_false_of_ne h, lookup_filter_ne h]

end FileSystem

end PackedStack
