import PackedStack.Image.Basic
import PackedStack.Image.Entry
import PackedStack.Source.Statement

/-!
# Blocks

A block is what one statement, or one word of packed instructions, adds to an image: a few cells and
the map entries that go with them. The offsets of its entries count from the start of the block, so
that a block does not depend on where it is put.
-/

namespace PackedStack

structure Block where
  cells : List (Cell Operand)
  entries : List Entry
  deriving DecidableEq, Repr

namespace Block

def empty : Block := ⟨[], []⟩

/-- The mark that a label leaves in the map. -/
def label (name : String) : Block := ⟨[], [⟨.label, name, 0⟩]⟩

/-- A word of up to four opcodes and the literals that they push, each with an entry of its own. -/
def group (opcodes : List Opcode) (literals : List Operand) : Block where
  cells := .code (.value (Word.encode (.ofList .nop opcodes))) :: literals.map .data
  entries := (literals.zipIdx 1).map fun l => ⟨.literal, l.1.text, l.2⟩

/-- An instruction with a cell of its own. Its operand has no entry in the map. -/
def single (i : Instruction Operand) : Block where
  cells := .code (.value (BitVec.ofNat 32 i.opcode.code.toNat)) :: i.operand.toList.map .data
  entries := []

def data (operand : Operand) : Block := ⟨[.data operand], [⟨.literal, operand.text, 0⟩]⟩

/-- The characters of a text, one to a cell, and a zero. -/
def text (content : String) : Block where
  cells := content.toList.map (fun c => .data (.value (BitVec.ofNat 32 c.toNat))) ++
    [.data (.value 0)]
  entries := [⟨.raw, content, 0⟩]

/-- A number of cells that hold zero. -/
def zeros (count : Nat) : Block where
  cells := List.replicate count (.data (.value 0))
  entries := [⟨.raw, String.ofList (Numeral.decimal count), 0⟩]

end Block

end PackedStack
