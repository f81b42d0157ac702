/-!
# Lines of source

A line that is not blank, with the number it has in its file. Lines are what the assembler reads,
and what errors and warnings point at.
-/

namespace PackedStack

structure Line where
  /-- The position in the file, counted from 1. Blank lines count. -/
  number : Nat
  text : String
  deriving DecidableEq, Repr

end PackedStack
