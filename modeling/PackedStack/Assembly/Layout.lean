import PackedStack.Image.Draft

/-!
# The layout of a whole program

Where everything goes, told for a whole list of statements at once. Labels, data and changes of mode
divide a program into runs of instructions. In packed mode a run is cut into groups that share a
word; a group ends with its fourth instruction, with one that leaves the word, or with the run. The
blocks that come out of this follow one another in the image.
-/

namespace PackedStack.Layout

/-- Instructions with nothing else between them. -/
abbrev Run := List (Instruction Operand)

/-- A program as the run it starts with, and every other statement with the run that follows it.
Naming the image file divides nothing. -/
def divide : List Statement → Run × List (Statement × Run)
  | [] => ([], [])
  | .instruction i :: rest =>
    let (run, sections) := divide rest
    (i :: run, sections)
  | .output _ :: rest => divide rest
  | s :: rest =>
    let (run, sections) := divide rest
    ([], (s, run) :: sections)

/-- The number of instructions that share the first word of a run. -/
def groupLength (run : Run) : Nat :=
  min 4 (run.findIdx (·.opcode.isFlow) + 1)

/-- The instructions of a run, word by word. -/
def groups : Run → List Run
  | [] => []
  | i :: run =>
    (i :: run).take (groupLength (i :: run)) :: groups ((i :: run).drop (groupLength (i :: run)))
termination_by run => run.length
decreasing_by simp only [groupLength, List.length_drop, List.length_cons]; omega

/-- The code in the given slot of the word for a group. A slot without an instruction holds zero. -/
def slotCode (group : Run) (slot : Nat) : UInt8 :=
  ((group[slot]?).map (·.opcode.code)).getD 0

def operands (run : Run) : List Operand := run.filterMap (·.operand)

/-- One word for a group, and the operands behind it with an entry at the address of each. -/
def groupBlock (group : Run) : Block where
  cells :=
    let slots := ⟨slotCode group 0, slotCode group 1, slotCode group 2, slotCode group 3⟩
    .code (.value (Word.pack slots)) :: (operands group).map .data
  entries := (operands group).mapIdx fun j operand => ⟨.literal, operand.text, j + 1⟩

def runBlocks (mode : Packing) (run : Run) : List Block :=
  match mode with
  | .packed => (groups run).map groupBlock
  | .unpacked => run.map .single

/-- The block of a statement that is not an instruction. -/
def statementBlock : Statement → Block
  | .label name => .label name
  | .data operand => .data operand
  | .text content => .text content
  | .allocate count => .zeros count
  | _ => .empty

/-- The mode after a statement. -/
def modeAfter (mode : Packing) : Statement → Packing
  | .packing mode => mode
  | _ => mode

def sectionBlocks (mode : Packing) : List (Statement × Run) → List Block
  | [] => []
  | (s, run) :: rest =>
    statementBlock s :: runBlocks (modeAfter mode s) run ++ sectionBlocks (modeAfter mode s) rest

/-- The blocks of a program in the order of their addresses. -/
def blocks (program : List Statement) : List Block :=
  let (run, sections) := divide program
  runBlocks .packed run ++ sectionBlocks .packed sections

/-- The cells of blocks that follow one another. -/
def cells (bs : List Block) : List (Cell Operand) := bs.flatMap (·.cells)

/-- The entries of blocks that follow one another from an address on. -/
def entriesFrom (base : Nat) : List Block → List Entry
  | [] => []
  | b :: rest => b.entries.map (·.shift base) ++ entriesFrom (base + b.cells.length) rest

end PackedStack.Layout
