import PackedStack.Image.Basic
import PackedStack.Image.Entry
import PackedStack.Report.Error
import PackedStack.Source.Operand
import PackedStack.Symbol.Labels

/-!
# Resolution

Once every label is known, each token that is left in an image becomes a word: the number it
denotes, or the offset of the label it names. A mark `&` in front of a name says that the name is
meant even if it looks like a number. Marked literals in the map become pointers.
-/

namespace PackedStack

namespace Labels

/-- A token without the mark in front of a name. -/
def unmarked (token : String) : String :=
  match token.toList with
  | '&' :: name => String.ofList name
  | _ => token

/-- The word that a token stands for. -/
def resolve (labels : Labels) (token : String) : Except Cause Word :=
  match Word.parse? token with
  | some w => .ok w
  | none =>
    match labels.lookup (unmarked token) with
    | some offset => .ok (Word.ofAddress offset)
    | none => .error (.undefinedLabel (unmarked token))

theorem unmarked_of_toList_eq {token : String} {name : List Char} (h : token.toList = '&' :: name) :
    unmarked token = String.ofList name := by
  rw [unmarked, h]
  rfl

section

variable (labels : Labels) {token : String}

theorem resolve_of_parse?_eq_some {w : Word} (h : Word.parse? token = some w) :
    labels.resolve token = .ok w := by
  rw [resolve, h]

theorem resolve_of_lookup_eq_some {offset : Nat} (h : Word.parse? token = none)
    (hlookup : labels.lookup (unmarked token) = some offset) :
    labels.resolve token = .ok (Word.ofAddress offset) := by
  rw [resolve, h, hlookup]

theorem resolve_of_lookup_eq_none (h : Word.parse? token = none)
    (hlookup : labels.lookup (unmarked token) = none) :
    labels.resolve token = .error (.undefinedLabel (unmarked token)) := by
  rw [resolve, h, hlookup]

end

end Labels

def Operand.resolve (labels : Labels) : Operand → Except Cause Word
  | value w => .ok w
  | token t => labels.resolve t

def Cell.resolve (labels : Labels) (c : Cell Operand) : Except Cause (Cell Word) :=
  (c.content.resolve labels).map fun w => ⟨w, c.isCode⟩

/-- Resolves every cell. The cell at the lowest address that fails decides the failure. -/
def Image.resolve (labels : Labels) (image : Image Operand) : Except Cause (Image Word) :=
  (image.toList.mapM (Cell.resolve labels)).map fun cells => ⟨cells.toArray⟩

namespace Entry

/-- Whether an entry is a literal with a marked name. -/
def isMarked (e : Entry) : Bool := e.kind == .literal && e.value.toList.head? == some '&'

/-- A marked literal becomes a pointer with the address in decimal. -/
def resolve (labels : Labels) (e : Entry) : Except Cause Entry :=
  if e.isMarked then (labels.resolve e.value).map fun w => ⟨.pointer, w.toDecimal, e.offset⟩
  else .ok e

/-- Resolves entries up to the first that fails, and tells why it failed. -/
def resolveAll (labels : Labels) : List Entry → List Entry × Option Cause
  | [] => ([], none)
  | e :: es =>
    match e.resolve labels with
    | .error cause => (e :: es, some cause)
    | .ok e' =>
      let (es', failure) := resolveAll labels es
      (e' :: es', failure)

end Entry

end PackedStack
