import PackedStack.Image.Queue

/-!
# Drafts

A draft is an image under construction together with its map and the queue of instructions that are
not laid down yet. It only grows: every operation lays blocks at its end.
-/

namespace PackedStack

structure Draft where
  image : Image Operand
  map : Array Entry
  queue : Queue
  deriving DecidableEq, Repr

namespace Draft

def empty : Draft := ⟨.empty, #[], .initial⟩

/-- The address at which the next block is laid. -/
def here (d : Draft) : Nat := d.image.size

/-- Lays a block at the end. -/
def lay (d : Draft) (b : Block) : Draft :=
  let base := d.here
  { d with
    image := d.image.append b.cells
    map := d.map ++ b.entries.map (·.shift base) }

/-- Lays what the queue gives and keeps what is left of it. -/
def advance (d : Draft) (step : Queue × Block) : Draft := { d.lay step.2 with queue := step.1 }

def flush (d : Draft) : Draft := d.advance d.queue.flush

def feed (d : Draft) (i : Instruction Operand) : Draft := d.advance (d.queue.feed i)

def setPacking (d : Draft) (mode : Packing) : Draft := d.advance (d.queue.setPacking mode)

/-- Lays a block behind everything that waits. -/
def place (d : Draft) (b : Block) : Draft := d.flush.lay b

@[simp] theorem toList_image_lay (d : Draft) (b : Block) :
    (d.lay b).image.toList = d.image.toList ++ b.cells :=
  Image.toList_append d.image b.cells

@[simp] theorem toList_map_lay (d : Draft) (b : Block) :
    (d.lay b).map.toList = d.map.toList ++ b.entries.map (·.shift d.here) := by
  simp [lay]

@[simp] theorem here_lay (d : Draft) (b : Block) : (d.lay b).here = d.here + b.cells.length :=
  Image.size_append d.image b.cells

@[simp] theorem queue_lay (d : Draft) (b : Block) : (d.lay b).queue = d.queue := rfl

end Draft

end PackedStack
