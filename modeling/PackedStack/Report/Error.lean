import PackedStack.Source.Line

/-!
# Errors

An error is a cause together with the source lines at which it was met. The wording of every cause
stands in `Cause.message`, that of every fault of the file system in `SystemFault.text`.
-/

namespace PackedStack

/-- Why the system refused to open, read, create or write a file. -/
inductive SystemFault where
  | notFound
  | notDirectory
  | isDirectory
  | noSpace
  | nameTooLong
  | nulInName
  | invalidUtf8
  | other (text : String)
  deriving DecidableEq, Repr

def SystemFault.text : SystemFault → String
  | notFound => "No such file or directory (os error 2)"
  | notDirectory => "Not a directory (os error 20)"
  | isDirectory => "Is a directory (os error 21)"
  | noSpace => "No space left on device (os error 28)"
  | nameTooLong => "File name too long (os error 36)"
  | nulInName => "file name contained an unexpected NUL byte"
  | invalidUtf8 => "stream did not contain valid UTF-8"
  | other text => text

inductive Cause where
  /-- The first word of a line starts with the mnemonic of no opcode. -/
  | unknownInstruction (word : String)
  | unknownDirective (word : String)
  /-- Nothing follows a word that needs an operand. -/
  | missingOperand (word : String)
  /-- The text of an operand is not what the directive asks for. -/
  | invalidOperand (text what : String)
  | undefinedLabel (name : String)
  | entryUndefined
  | openFailed (path : String) (fault : SystemFault)
  | readFailed (fault : SystemFault)
  | createFailed (path : String) (fault : SystemFault)
  | writeFailed (path : String) (fault : SystemFault)
  /-- A cell was to be replaced at an offset past the end of its image. -/
  | patchOutside (offset size : Nat)
  deriving DecidableEq, Repr

namespace Cause

def message : Cause → String
  | unknownInstruction word => "Unknown instruction: `" ++ word ++ "`"
  | unknownDirective word => "Unknown directive: `" ++ word ++ "`"
  | missingOperand word => "More argument required: `" ++ word ++ "`"
  | invalidOperand text what => "Cannot parse `" ++ text ++ "` as " ++ what
  | undefinedLabel name => "Undefined label: `" ++ name ++ "`"
  | entryUndefined => "Entry point `main` is not defined"
  | openFailed path _ => "Failed to open file: " ++ path
  | readFailed _ => "Failed to read line"
  | createFailed path _ => "Failed to create file: " ++ path
  | writeFailed path _ => "Failed to write file: " ++ path
  | patchOutside offset size =>
    "patch at " ++ offset.repr ++ " outside image of " ++ size.repr ++ " cells"

/-- The fault of the system behind a cause, for causes that have one. -/
def fault? : Cause → Option SystemFault
  | openFailed _ fault | readFailed fault | createFailed _ fault | writeFailed _ fault => some fault
  | _ => none

end Cause

/-- A cause and the lines at which it was met, the outermost first. -/
structure Error where
  cause : Cause
  trail : List Line
  deriving DecidableEq, Repr

namespace Error

/-- An error that belongs to no line. -/
def ofCause (cause : Cause) : Error := ⟨cause, []⟩

def locatedAt (e : Error) (line : Line) : Error := { e with trail := line :: e.trail }

/-- The outermost line of an error. -/
def line? (e : Error) : Option Line := e.trail.head?

end Error

end PackedStack
