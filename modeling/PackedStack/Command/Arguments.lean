/-!
# Command-line arguments

Arguments are read from left to right. Flags may be given in full or as single letters that share a
dash; everything behind `--` is positional. Asking for help or for the version ends the reading, and
so does the first mistake.
-/

namespace PackedStack

/-- What the user chose for a run. -/
structure Options where
  input : Option String
  output : Option String
  dump : Bool
  deriving DecidableEq, Repr

/-- What the arguments ask for. -/
inductive Request where
  | run (options : Options)
  | help
  | version
  | mistake
  deriving DecidableEq, Repr

namespace Options

def unset : Options := ⟨none, none, false⟩

/-- Takes one more positional argument. There is room for two. -/
def addPositional? (o : Options) (argument : String) : Option Options :=
  match o.input, o.output with
  | none, _ => some { o with input := argument }
  | some _, none => some { o with output := argument }
  | some _, some _ => none

/-- Takes the flag for a listing, which may be given once. -/
def addDump? (o : Options) : Option Options :=
  if o.dump then none else some { o with dump := true }

end Options

namespace Request

/-- Reads letters that share a dash, and goes on with the options that they leave. -/
def ofLetters (next : Options → Request) (o : Options) : List Char → Request
  | [] => next o
  | 'h' :: _ => help
  | 'V' :: _ => version
  | 'd' :: letters =>
    match o.addDump? with
    | some o => ofLetters next o letters
    | none => mistake
  | _ => mistake

/-- Reads arguments of which all are positional. -/
def ofPositionals (o : Options) : List String → Request
  | [] => run o
  | argument :: rest =>
    match o.addPositional? argument with
    | some o => ofPositionals o rest
    | none => mistake

/-- Reads arguments, given the options that those before them set. -/
def ofArguments (o : Options) : List String → Request
  | [] => run o
  | argument :: rest =>
    match argument.toList with
    | ['-', '-'] => ofPositionals o rest
    | '-' :: '-' :: flag =>
      match String.ofList flag with
      | "help" => help
      | "version" => version
      | "dump" =>
        match o.addDump? with
        | some o => ofArguments o rest
        | none => mistake
      | _ => mistake
    | '-' :: letter :: letters => ofLetters (ofArguments · rest) o (letter :: letters)
    | _ =>
      match o.addPositional? argument with
      | some o => ofArguments o rest
      | none => mistake

/-- What a command line asks for. -/
def parse (arguments : List String) : Request := ofArguments .unset arguments

end Request

end PackedStack
