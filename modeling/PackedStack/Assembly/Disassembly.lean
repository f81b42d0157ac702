import PackedStack.Image.Basic
import PackedStack.Source.Statement

/-!
# Disassembly

The instructions that an image holds. Every code cell holds four opcodes, and the operands of those
that push a literal are in the cells behind it, in the order of the slots.
-/

namespace PackedStack

namespace Instruction

/-- Gives the next of the operands to each opcode that pushes a literal. -/
def withOperands {α : Type} : List Opcode → List α → List (Instruction α)
  | [], _ => []
  | .lit :: opcodes, operand :: operands => ⟨.lit, some operand⟩ :: withOperands opcodes operands
  | opcode :: opcodes, operands => ⟨opcode, none⟩ :: withOperands opcodes operands

/-- Instructions without those that do nothing. -/
def effective {α : Type} (is : List (Instruction α)) : List (Instruction α) :=
  is.filter (·.opcode ≠ .nop)

end Instruction

namespace Image

/-- The instructions in the code cell at an address. -/
def instructionsAt? (image : Image Word) (address : Nat) : Option (List (Instruction Word)) := do
  let cell ← image.cells[address]?
  let slots ← Word.decode? cell.content
  return Instruction.withOperands slots.toList (image.contents.drop (address + 1))

/-- The instructions in the code cells at some addresses, one after the other. -/
def disassemble? (image : Image Word) (addresses : List Nat) : Option (List (Instruction Word)) :=
  (addresses.mapM image.instructionsAt?).map fun found => Instruction.effective found.flatten

/-- How many cells behind the code cell at an address hold its operands. -/
def operandCount (image : Image Word) (address : Nat) : Nat :=
  match image.cells[address]? with
  | none => 0
  | some cell =>
    match Word.decode? cell.content with
    | none => 0
    | some slots => slots.toList.count .lit

end Image

end PackedStack
