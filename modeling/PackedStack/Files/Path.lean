import PackedStack.Report.Error
import PackedStack.Text.Split

/-!
# Paths

A path names a file from the root or from the working directory, as a row of names with slashes
between them. Empty names do not count. A slash at the end says that a directory is meant.
-/

namespace PackedStack

structure Path where
  fromRoot : Bool
  names : List String
  endsInSlash : Bool
  deriving DecidableEq, Repr

namespace Path

/-- The longest path that the system takes, in bytes. -/
def maxLength : Nat := 4095

/-- The longest name in a directory, in bytes. -/
def maxNameLength : Nat := 255

/-- The path that a text spells. -/
def parse (text : String) : Except SystemFault Path :=
  let cs := text.toList
  if '\x00' ∈ cs then .error .nulInName
  else if cs.isEmpty then .error .notFound
  else if maxLength < text.utf8ByteSize then .error .nameTooLong
  else .ok {
    fromRoot := cs.head? == some '/'
    names := ((Text.splitOn '/' cs).filter (!·.isEmpty)).map String.ofList
    endsInSlash := cs.getLast? == some '/' }

end Path

end PackedStack
