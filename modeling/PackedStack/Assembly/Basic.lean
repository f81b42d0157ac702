import PackedStack.Assembly.State
import PackedStack.Symbol.Resolution

/-!
# Assembly

Assembling a source means reading all its lines and then resolving what is left open: the entry
cell, the tokens in the image and the marked literals in the map.
-/

namespace PackedStack

/-- An assembled program. -/
structure Assembly where
  image : Image Word
  map : List Entry
  labels : Labels
  output : Option String
  warnings : List Redefinition
  deriving DecidableEq, Repr

/-- Ends the first pass and does the second. -/
def State.finish (s : State) : Except Cause Assembly := do
  let draft := s.draft.flush
  let some offset := s.labels.lookup entryLabel | .error .entryUndefined
  let some image := draft.image.patch? s.entry (.value (Word.ofAddress offset))
    | .error (.patchOutside s.entry draft.image.size)
  let image ← image.resolve s.labels
  match Entry.resolveAll s.labels draft.map.toList with
  | (_, some cause) => .error cause
  | (map, none) => .ok ⟨image, map, s.labels, s.output, s.warnings.toList⟩

/-- Assembles the lines of a source. -/
def assemble (lines : List Line) : Except Error Assembly := do
  let s ← lines.foldlM State.readLine State.initial
  s.finish.mapError Error.ofCause

end PackedStack
