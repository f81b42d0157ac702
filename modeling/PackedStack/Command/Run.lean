import PackedStack.Command.Arguments
import PackedStack.Command.Host
import PackedStack.Output.Artifact
import PackedStack.Report.Diagnostic
import PackedStack.Report.Listing
import PackedStack.Source.Load

/-!
# The program

Reads a source, assembles it, and writes the image and its map. No file is touched before the source
is assembled, and the map is written after the image.
-/

namespace PackedStack.Command

variable {m : Type → Type} [Monad m] {Reader Writer : Type}

/-- An action of the host whose failure is an error with the given cause. -/
def attempt {α : Type} (cause : SystemFault → Cause) (action : m (Except SystemFault α)) :
    ExceptT Error m α :=
  ExceptT.mk do return (← action).mapError fun fault => .ofCause (cause fault)

/-- Reads the source at a path, or from standard input. -/
def readSource (host : Host m Reader Writer) (path : Option String) :
    ExceptT Error m (List Line) := do
  let reader ← match path with
    | some path => attempt (.openFailed path) (host.openFile path)
    | none => pure host.standardInput
  let bytes ← attempt .readFailed (host.read reader)
  ExceptT.mk (pure ((Source.load bytes).mapError .ofCause))

/-- Makes a file that holds the given bytes. -/
def saveFile (host : Host m Reader Writer) (path : String) (bytes : List UInt8) :
    ExceptT Error m Unit := do
  let writer ← attempt (.createFailed path) (host.create path)
  attempt (.writeFailed path) (host.write writer bytes)

/-- Writes the image to a path and then the map beside it. The result is the path of the map. -/
def save (host : Host m Reader Writer) (path : String) (words : List Word) (map : List Entry) :
    ExceptT Error m String := do
  saveFile host path (Artifact.imageBytes words)
  saveFile host (Artifact.mapPath path) (Artifact.mapBytes map)
  return Artifact.mapPath path

/-- What the source is called in messages. -/
def sourceName (options : Options) : String := options.input.getD "<stdin>"

/-- How many cells and labels an assembly has. -/
def summary (a : Assembly) : String :=
  "  - " ++ a.image.size.repr ++ " cells, " ++ a.labels.size.repr ++ " labels\n"

/-- Assembles a source as the options say. -/
def run (host : Host m Reader Writer) (options : Options) : ExceptT Error m Unit := do
  let file := sourceName options
  host.print ("1. Read Source\n  < " ++ file ++ "\n")
  let lines ← readSource host options.input
  host.print "2. Assemble\n"
  let a ← ExceptT.mk (pure (assemble lines))
  host.print (printDiagnostics (a.warnings.flatMap (·.diagnostics file)) ++ summary a)
  if options.dump then host.print (printRows a.listing)
  host.print "3. Write Image & Map\n"
  let path := Artifact.imagePath options.output a.output
  let mapPath ← save host path a.image.contents a.map
  host.print ("  > " ++ path ++ "\n  > " ++ mapPath ++ "\n")

def versionText : String := "stasm 0.1.0\n"

def helpText : String :=
  "stasm 0.1.0
  Assembler for the packed stack machine

Usage:
  stasm [OPTIONS] [INPUT] [OUTPUT]

Arguments:
  [INPUT]   Source file, standard input when omitted
  [OUTPUT]  Image file, overrides `.output`

Options:
  -d, --dump     Dump assembled image
  -h, --help     Print help
  -V, --version  Print version
"

/-- Carries out a command line and gives the exit status. -/
def execute (host : Host m Reader Writer) (arguments : List String) : m UInt32 := do
  match Request.parse arguments with
  | .help =>
    host.print helpText
    return 0
  | .version =>
    host.print versionText
    return 0
  | .mistake => return 2
  | .run options =>
    match ← (run host options).run with
    | .ok () => return 0
    | .error e =>
      host.print (printDiagnostics (e.diagnostics (sourceName options)))
      return 1

end PackedStack.Command
