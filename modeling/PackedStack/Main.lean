import PackedStack.Command.Run

/-!
# The command line

The program on the system that runs it: files, standard input and standard output are the real ones.
-/

namespace PackedStack.System

/-- The number of an error of the system and what the system says about it. -/
def codeAndDetails? : IO.Error → Option (UInt32 × String)
  | .alreadyExists _ code details | .noFileOrDirectory _ code details
  | .interrupted _ code details | .invalidArgument _ code details
  | .permissionDenied _ code details | .resourceExhausted _ code details
  | .inappropriateType _ code details | .noSuchThing _ code details
  | .otherError code details | .resourceBusy code details
  | .resourceVanished code details | .unsupportedOperation code details
  | .hardwareFault code details | .unsatisfiedConstraints code details
  | .illegalOperation code details | .protocolError code details | .timeExpired code details =>
    some (code, details)
  | _ => none

def faultOfError (e : IO.Error) : SystemFault :=
  match codeAndDetails? e with
  | some (2, _) => .notFound
  | some (20, _) => .notDirectory
  | some (21, _) => .isDirectory
  | some (28, _) => .noSpace
  | some (36, _) => .nameTooLong
  | some (code, details) => .other (details ++ " (os error " ++ code.toNat.repr ++ ")")
  | none => .other e.toString

def catchFault {α : Type} (action : IO α) : IO (Except SystemFault α) := do
  match ← action.toBaseIO with
  | .ok a => return .ok a
  | .error e => return .error (faultOfError e)

/-- Opens a file by its name. A name that holds the null character is given to no system. -/
def openStream (path : String) (mode : IO.FS.Mode) : IO (Except SystemFault IO.FS.Stream) := do
  if path.contains '\x00' then return .error .nulInName
  catchFault do return IO.FS.Stream.ofHandle (← IO.FS.Handle.mk path mode)

/-- Reads a stream to its end, behind the bytes that were read before. -/
partial def readToEnd (stream : IO.FS.Stream) (bytes : ByteArray) : IO ByteArray := do
  let chunk ← stream.read 65536
  if chunk.isEmpty then return bytes else readToEnd stream (bytes ++ chunk)

def host (input output : IO.FS.Stream) : Host IO IO.FS.Stream IO.FS.Stream where
  standardInput := input
  openFile path := openStream path .read
  read stream := catchFault do return (← readToEnd stream .empty).data.toList
  create path := openStream path .write
  write stream bytes := catchFault do
    stream.write ⟨bytes.toArray⟩
    stream.flush
  print text := output.putStr text

end PackedStack.System

def main (arguments : List String) : IO UInt32 := do
  let input ← IO.getStdin
  let output ← IO.getStdout
  let status ← PackedStack.Command.execute (PackedStack.System.host input output) arguments
  output.flush
  if status = 2 then IO.eprint PackedStack.Command.helpText
  return status
