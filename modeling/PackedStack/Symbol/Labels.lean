import PackedStack.Source.Line

/-!
# Labels

The labels that a source defines, in the order in which they were first defined. A name keeps its
first definition: defining it again changes nothing and tells where it was defined.
-/

namespace PackedStack

structure Definition where
  offset : Nat
  line : Line
  deriving DecidableEq, Repr

structure Labels where
  entries : List (String × Definition)
  deriving DecidableEq, Repr

namespace Labels

def empty : Labels := ⟨[]⟩

def find? (labels : Labels) (name : String) : Option Definition := labels.entries.lookup name

/-- The offset of a label. -/
def lookup (labels : Labels) (name : String) : Option Nat := (labels.find? name).map (·.offset)

/-- The number of names. -/
def size (labels : Labels) : Nat := labels.entries.length

/-- Adds a label unless its name is taken. -/
def define (labels : Labels) (name : String) (definition : Definition) : Labels :=
  match labels.find? name with
  | some _ => labels
  | none => ⟨labels.entries ++ [(name, definition)]⟩

@[simp] theorem find?_empty (name : String) : empty.find? name = none := rfl

/-- A definition shows under its own name only, and only if the name had none before. -/
theorem find?_define (labels : Labels) (name other : String) (definition : Definition) :
    (labels.define name definition).find? other =
      (labels.find? other).or (if other = name then some definition else none) := by
  rw [define]
  split
  · rename_i first h
    by_cases heq : other = name
    · subst heq; simp [h]
    · simp [heq]
  · simp only [find?, List.lookup_append, List.lookup_cons, List.lookup_nil]
    by_cases heq : other = name
    · simp [heq]
    · simp [heq, beq_false_of_ne heq]

end Labels

end PackedStack
