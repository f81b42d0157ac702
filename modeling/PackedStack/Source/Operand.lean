import PackedStack.Machine.Word
import PackedStack.Text.Numeral

/-!
# Operands

The operand of an instruction or of a data directive is a number if its text is a numeral that fits
a word, and otherwise a token to be resolved once every label is known. A numeral that a word is
written as reads back (`Word.parse?_toDecimal`).
-/

namespace PackedStack

namespace Word

/-- The word that a numeral denotes, if it fits. -/
def parse? (text : String) : Option Word := (Numeral.integer? text.toList).bind ofInt?

/-- The signed value of a word in decimal. -/
def toDecimal (w : Word) : String := String.ofList (Numeral.signed w.toInt)

/-- A word stands for one integer only, and every integer in the range has a word. -/
theorem ofInt?_eq_some_iff {v : Int} {w : Word} : ofInt? v = some w ↔ w.toInt = v := by
  rw [ofInt?]
  constructor
  · intro h
    split at h
    · rename_i hrange
      obtain rfl := Option.some.inj h
      exact BitVec.toInt_ofInt_eq_self (by decide) hrange.1 hrange.2
    · cases h
  · rintro rfl
    rw [if_pos ⟨BitVec.le_toInt w, BitVec.toInt_lt⟩, BitVec.ofInt_toInt]

theorem ofInt?_toInt (w : Word) : ofInt? w.toInt = some w := ofInt?_eq_some_iff.2 rfl

@[simp] theorem parse?_toDecimal (w : Word) : parse? w.toDecimal = some w := by
  simp [parse?, toDecimal, ofInt?_toInt]

end Word

inductive Operand where
  | value (word : Word)
  | token (text : String)
  deriving DecidableEq, Repr

namespace Operand

def parse (text : String) : Operand :=
  match Word.parse? text with
  | some w => value w
  | none => token text

def text : Operand → String
  | value w => w.toDecimal
  | token t => t

end Operand

end PackedStack
