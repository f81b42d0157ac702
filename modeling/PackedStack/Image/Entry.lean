import PackedStack.Text.Escape
import PackedStack.Text.Numeral
import PackedStack.Text.Split

/-!
# Entries of the map

The map lists what stands at which offset of an image: labels, literals, pointers and raw data, in
the order in which they were laid down. An entry is written as a row of three fields with tabs
between them, and reads back from it (`ofRowChars?_rowChars`).
-/

namespace PackedStack

inductive Entry.Kind where
  | label
  | literal
  | pointer
  | raw
  deriving DecidableEq, Repr

structure Entry where
  kind : Entry.Kind
  /-- The name of a label, the text of an operand, or what a block of raw data was made from. -/
  value : String
  offset : Nat
  deriving DecidableEq, Repr

namespace Entry

def Kind.name : Kind → String
  | label => "label"
  | literal => "literal"
  | pointer => "pointer"
  | raw => "raw"

def Kind.ofName? (name : String) : Option Kind :=
  [label, literal, pointer, raw].find? (·.name == name)

/-- The entry with its offset counted from an address below the start of the image. -/
def shift (base : Nat) (e : Entry) : Entry := { e with offset := base + e.offset }

/-- The characters of a row: kind, escaped value and decimal offset, with tabs between them. -/
def rowChars (e : Entry) : List Char :=
  e.kind.name.toList ++ '\t' :: (Text.escape e.value.toList ++ '\t' :: Numeral.decimal e.offset)

def row (e : Entry) : String := String.ofList e.rowChars

/-- The entry that a row was written for. -/
def ofRowChars? (row : List Char) : Option Entry :=
  match Text.splitOn '\t' row with
  | [kind, value, offset] => do
    return ⟨← Kind.ofName? (String.ofList kind), String.ofList (← Text.unescape? value),
      ← Numeral.natural? 10 offset⟩
  | _ => none

@[simp] theorem Kind.ofName?_name (k : Kind) : Kind.ofName? k.name = some k := by cases k <;> rfl

/-- No field of a row holds a character that ends a field or a row. -/
theorem not_mem_fields {x : Char} (hx : x = '\t' ∨ x = '\n') (e : Entry) :
    x ∉ e.kind.name.toList ∧ x ∉ Text.escape e.value.toList ∧ x ∉ Numeral.decimal e.offset := by
  refine ⟨?_, Text.not_mem_escape (hx.imp_right .inl) _, fun hmem => ?_⟩
  · rcases hx with rfl | rfl <;> cases e.kind <;> decide
  · have hdigit := Nat.isDigit_of_mem_toDigits (by decide) (by decide) hmem
    rcases hx with rfl | rfl <;> simp at hdigit

theorem splitOn_rowChars (e : Entry) :
    Text.splitOn '\t' e.rowChars =
      [e.kind.name.toList, Text.escape e.value.toList, Numeral.decimal e.offset] := by
  obtain ⟨hkind, hvalue, hoffset⟩ := not_mem_fields (.inl rfl) e
  rw [rowChars, Text.splitOn_append_cons hkind, Text.splitOn_append_cons hvalue,
    Text.splitOn_of_not_mem hoffset]

theorem newline_not_mem_rowChars (e : Entry) : '\n' ∉ e.rowChars := by
  obtain ⟨hkind, hvalue, hoffset⟩ := not_mem_fields (.inr rfl) e
  simp [rowChars, hkind, hvalue, hoffset]

@[simp] theorem ofRowChars?_rowChars (e : Entry) : ofRowChars? e.rowChars = some e := by
  rw [ofRowChars?, splitOn_rowChars]
  simp

end Entry

end PackedStack
