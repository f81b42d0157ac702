import PackedStack.Report.Error
import PackedStack.Text.Blank
import PackedStack.Text.Utf8

/-!
# Loading source

Source is read line by line. A line ends at a newline, which goes together with one carriage return
in front of it, and must be UTF-8 by itself. The lines that are left after trimming, with their
numbers, are the source. `Source.arrange` puts lines back at their numbers.
-/

namespace PackedStack.Source

/-- Cuts bytes after every newline. -/
def cut (bytes : List UInt8) : List (List UInt8) :=
  bytes.foldr (fun b pieces =>
    if b = 10 then [b] :: pieces
    else match pieces with
      | [] => [[b]]
      | piece :: rest => (b :: piece) :: rest) []

/-- A line without its newline and one carriage return in front of that. -/
def chomp (piece : List UInt8) : List UInt8 :=
  match piece.reverse with
  | 10 :: 13 :: rest => rest.reverse
  | 10 :: rest => rest.reverse
  | _ => piece

/-- The line that a text is at the given number, unless it is blank. -/
def line? (number : Nat) (text : String) : Option Line :=
  match Text.trim text.toList with
  | [] => none
  | cs => some ⟨number, String.ofList cs⟩

/-- The lines among texts that are numbered from 1. -/
def numbered (texts : List String) : List Line :=
  (texts.zipIdx 1).filterMap fun t => line? t.2 t.1

/-- The lines of a source, or a failure if one of them is not UTF-8. -/
def load (bytes : List UInt8) : Except Cause (List Line) :=
  match (cut bytes).mapM fun piece => Utf8.decode? (chomp piece) with
  | some texts => .ok (numbered texts)
  | none => .error (.readFailed .invalidUtf8)

/-- Text that has each line at its number, for lines in increasing order of their numbers from the
given one on. -/
def arrangeFrom (first : Nat) : List Line → List Char
  | [] => []
  | line :: rest =>
    List.replicate (line.number - first) '\n' ++ line.text.toList ++
      '\n' :: arrangeFrom (line.number + 1) rest

/-- Text that has each line at its number and blank lines between them. -/
def arrange (lines : List Line) : String := String.ofList (arrangeFrom 1 lines)

end PackedStack.Source
