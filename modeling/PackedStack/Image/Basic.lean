/-!
# Images

An image is a row of cells, addressed from zero. A cell knows whether it was laid down as code; its
content is an operand while an image is being laid out, and a word once every name is resolved.
-/

namespace PackedStack

structure Cell (α : Type) where
  content : α
  isCode : Bool
  deriving DecidableEq, Repr

namespace Cell

variable {α β : Type}

def code (content : α) : Cell α := ⟨content, true⟩

def data (content : α) : Cell α := ⟨content, false⟩

end Cell

structure Image (α : Type) where
  cells : Array (Cell α)
  deriving DecidableEq, Repr

namespace Image

variable {α : Type}

def empty : Image α := ⟨#[]⟩

/-- The number of cells, which is the address of the next one. -/
def size (image : Image α) : Nat := image.cells.size

def toList (image : Image α) : List (Cell α) := image.cells.toList

def append (image : Image α) (cells : List (Cell α)) : Image α := ⟨image.cells ++ cells⟩

def contents (image : Image α) : List α := image.toList.map (·.content)

/-- The addresses of the cells that were laid down as code, in ascending order. -/
def codeAddresses (image : Image α) : List Nat :=
  (image.toList.zipIdx.filter (·.1.isCode)).map (·.2)

/-- Replaces the content of a cell. Whether it is code does not change. -/
def patch? (image : Image α) (offset : Nat) (content : α) : Option (Image α) :=
  if h : offset < image.cells.size then
    some ⟨image.cells.set offset ⟨content, image.cells[offset].isCode⟩⟩
  else none

@[simp] theorem toList_empty : (empty : Image α).toList = [] := rfl

@[simp] theorem toList_append (image : Image α) (cells : List (Cell α)) :
    (image.append cells).toList = image.toList ++ cells := by
  simp [toList, append]

@[simp] theorem length_toList (image : Image α) : image.toList.length = image.size := by
  simp [toList, size]

@[simp] theorem size_append (image : Image α) (cells : List (Cell α)) :
    (image.append cells).size = image.size + cells.length := by
  rw [← length_toList, toList_append, List.length_append, length_toList]

/-- The content of a cell that there is can be replaced. -/
theorem patch?_of_getElem? {image : Image α} {offset : Nat} {c : Cell α}
    (hc : image.toList[offset]? = some c) (content : α) :
    ∃ image', image.patch? offset content = some image' ∧
      image'.toList = image.toList.set offset ⟨content, c.isCode⟩ := by
  obtain ⟨hlt, hcell⟩ := List.getElem?_eq_some_iff.1 hc
  have hsize : offset < image.cells.size := by rwa [length_toList] at hlt
  have hcode : image.cells[offset] = c := hcell
  refine ⟨_, dif_pos hsize, ?_⟩
  rw [hcode]
  simp [toList]

end Image

end PackedStack
