/-!
# Bytes of text

Text is written to files and read from them in UTF-8. Decoding accepts exactly what encoding
produces (`decode?_eq_some_iff`).
-/

namespace PackedStack.Utf8

def encode (text : String) : List UInt8 := text.toByteArray.data.toList

/-- The text that a row of bytes encodes, if it encodes one. -/
def decode? (bytes : List UInt8) : Option String := String.fromUTF8? ⟨bytes.toArray⟩

theorem decode?_eq_some_iff {bytes : List UInt8} {text : String} :
    decode? bytes = some text ↔ encode text = bytes := by
  simp only [decode?, encode, String.fromUTF8?]
  split
  · rename_i h
    simp only [Option.some.injEq, String.fromUTF8]
    constructor
    · rintro rfl
      rfl
    · intro he
      subst he
      rfl
  · rename_i h
    simp only [reduceCtorEq, false_iff]
    rintro rfl
    exact h text.isValidUTF8

@[simp] theorem decode?_encode (text : String) : decode? (encode text) = some text :=
  decode?_eq_some_iff.2 rfl

@[simp] theorem encode_append (s t : String) : encode (s ++ t) = encode s ++ encode t := by
  simp [encode]

end PackedStack.Utf8
