/-!
# Blank characters

A character is blank if it has the Unicode property `White_Space`. A line of source is cut into its
first word and the trimmed rest at blank characters.
-/

namespace PackedStack.Text

/-- The code points with the property `White_Space`, as ranges with both ends included. -/
def blankRanges : List (Nat × Nat) :=
  [(0x0009, 0x000D), (0x0020, 0x0020), (0x0085, 0x0085), (0x00A0, 0x00A0), (0x1680, 0x1680),
    (0x2000, 0x200A), (0x2028, 0x2029), (0x202F, 0x202F), (0x205F, 0x205F), (0x3000, 0x3000)]

def isBlank (c : Char) : Bool := blankRanges.any fun r => r.1 ≤ c.toNat && c.toNat ≤ r.2

/-- Text without the blank characters at its two ends. -/
def trim (cs : List Char) : List Char :=
  ((cs.dropWhile isBlank).reverse.dropWhile isBlank).reverse

/-- The text before the first blank character. -/
def firstWord (cs : List Char) : List Char := cs.takeWhile fun c => !isBlank c

/-- The trimmed text after the first word. -/
def afterFirstWord (cs : List Char) : List Char := trim (cs.dropWhile fun c => !isBlank c)

theorem isBlank_of_isWhitespace {c : Char} (h : c.isWhitespace) : isBlank c := by
  simp only [Char.isWhitespace, Bool.or_eq_true, decide_eq_true_eq] at h
  rcases h with (((rfl | rfl) | rfl) | rfl) <;> decide

@[simp] theorem trim_nil : trim [] = [] := rfl

end PackedStack.Text
