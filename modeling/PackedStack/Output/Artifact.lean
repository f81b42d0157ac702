import PackedStack.Image.Entry
import PackedStack.Machine.Word
import PackedStack.Text.Utf8

/-!
# Written files

The image file holds the words of an image, four bytes to a word with slot 0 first. The map file
holds a row for each entry of the map. Both can be read back.
-/

namespace PackedStack.Artifact

/-! ## The image file -/

def imageBytes (words : List Word) : List UInt8 := words.flatMap fun w => w.unpack.toList

/-- The words of an image file. -/
def readImage? : List UInt8 → Option (List Word)
  | [] => some []
  | b0 :: b1 :: b2 :: b3 :: rest => (readImage? rest).map (Word.pack ⟨b0, b1, b2, b3⟩ :: ·)
  | _ => none

/-! ## The map file -/

def mapChars (entries : List Entry) : List Char := entries.flatMap fun e => e.rowChars ++ ['\n']

def mapBytes (entries : List Entry) : List UInt8 := Utf8.encode (String.ofList (mapChars entries))

/-- The entries of a map file. Every row ends with a newline. -/
def readMap? (text : List Char) : Option (List Entry) :=
  match (Text.splitOn '\n' text).reverse with
  | [] :: rows => rows.reverse.mapM Entry.ofRowChars?
  | _ => none

/-! ## Their names -/

/-- The image file is named on the command line, or else by the source. -/
def imagePath (explicit directive : Option String) : String :=
  (explicit <|> directive).getD "image.bin"

def mapPath (imagePath : String) : String := imagePath ++ ".map"

/-! ## A sink of limited size -/

/-- The bytes that fit into a sink, and whether that is all of them. -/
def fill (limit : Option Nat) (bytes : List UInt8) : List UInt8 × Bool :=
  match limit with
  | none => (bytes, true)
  | some n => (bytes.take n, bytes.length ≤ n)

end PackedStack.Artifact
