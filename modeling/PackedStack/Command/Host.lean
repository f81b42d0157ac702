import PackedStack.Files.FileSystem

/-!
# Hosts

What the program asks of the system that runs it, so that the same program runs on a real system and
on a `World`, which is a file system, the bytes of standard input and what was printed so far.
-/

namespace PackedStack

structure Host (m : Type → Type) (Reader Writer : Type) where
  standardInput : Reader
  openFile : String → m (Except SystemFault Reader)
  /-- Everything that is left to read. -/
  read : Reader → m (Except SystemFault (List UInt8))
  create : String → m (Except SystemFault Writer)
  write : Writer → List UInt8 → m (Except SystemFault Unit)
  print : String → m Unit

structure World where
  files : FileSystem
  input : List UInt8
  printed : String
  deriving DecidableEq, Repr

namespace World

/-- Something that is open for reading. -/
inductive Reader where
  | input
  | file (location : Location)
  deriving DecidableEq, Repr

def host : Host (StateM World) Reader Location where
  standardInput := .input
  openFile path := do return ((← get).files.openFile path).map .file
  read
    | .input => do return .ok (← get).input
    | .file location => do return (← get).files.read location
  create path := do
    match (← get).files.create path with
    | .ok (location, files) =>
      modify fun w => { w with files }
      return .ok location
    | .error fault => return .error fault
  write location bytes := do
    match (← get).files.write location bytes with
    | .ok files =>
      modify fun w => { w with files }
      return .ok ()
    | .error fault => return .error fault
  print text := modify fun w => { w with printed := w.printed ++ text }

end World

end PackedStack
