import PackedStack.Image.Block

/-!
# The queue of packed instructions

In packed mode instructions wait until four of them can share a word, or until one leaves the word.
The literals that they push wait with them and follow the word. In unpacked mode nothing waits.
Feeding or emptying a queue gives the block that is to be laid down next.
-/

namespace PackedStack

structure Queue where
  packing : Packing
  /-- The opcodes that wait for a word, oldest first. -/
  opcodes : List Opcode
  /-- The literals that follow that word. -/
  literals : List Operand
  deriving DecidableEq, Repr

namespace Queue

def initial : Queue := ⟨.packed, [], []⟩

/-- Lays down what waits. -/
def flush (q : Queue) : Queue × Block :=
  if q.opcodes.isEmpty then (q, .empty)
  else ({ q with opcodes := [], literals := [] }, .group q.opcodes q.literals)

/-- Takes one more instruction. A word is complete with four opcodes or one that leaves it. -/
def feed (q : Queue) (i : Instruction Operand) : Queue × Block :=
  match q.packing with
  | .unpacked => (q, .single i)
  | .packed =>
    let q' := { q with
      opcodes := q.opcodes ++ [i.opcode]
      literals := q.literals ++ i.operand.toList }
    if q'.opcodes.length = 4 ∨ i.opcode.isFlow then q'.flush else (q', .empty)

/-- Lays down what waits and changes the mode. -/
def setPacking (q : Queue) (mode : Packing) : Queue × Block :=
  ({ q.flush.1 with packing := mode }, q.flush.2)

end Queue

end PackedStack
