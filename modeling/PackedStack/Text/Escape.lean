/-!
# Escaped text

A field of the map file is text in which a backslash, a tab, a newline and a carriage return are
written as two characters each, so that no field holds a tab or a line end. Reading undoes writing
(`unescape?_escape`), and escaped text holds none of the characters that separate fields and rows
(`not_mem_escape`).
-/

namespace PackedStack.Text

def escapeChar : Char → List Char
  | '\\' => ['\\', '\\']
  | '\t' => ['\\', 't']
  | '\n' => ['\\', 'n']
  | '\r' => ['\\', 'r']
  | c => [c]

def escape (cs : List Char) : List Char := cs.flatMap escapeChar

/-- The text that was escaped. A backslash that starts no escape is refused. -/
def unescape? : List Char → Option (List Char)
  | [] => some []
  | '\\' :: '\\' :: cs => (unescape? cs).map ('\\' :: ·)
  | '\\' :: 't' :: cs => (unescape? cs).map ('\t' :: ·)
  | '\\' :: 'n' :: cs => (unescape? cs).map ('\n' :: ·)
  | '\\' :: 'r' :: cs => (unescape? cs).map ('\r' :: ·)
  | '\\' :: _ => none
  | c :: cs => (unescape? cs).map (c :: ·)

@[simp] theorem escape_nil : escape [] = [] := rfl

@[simp] theorem escape_cons (c : Char) (cs : List Char) :
    escape (c :: cs) = escapeChar c ++ escape cs := rfl

@[simp] theorem unescape?_escape (cs : List Char) : unescape? (escape cs) = some cs := by
  induction cs with
  | nil => rfl
  | cons c cs ih =>
    rw [escape_cons]
    unfold escapeChar
    split <;> simp_all [unescape?]

theorem not_mem_escape {x : Char} (hx : x = '\t' ∨ x = '\n' ∨ x = '\r') (cs : List Char) :
    x ∉ escape cs := by
  induction cs with
  | nil => simp
  | cons c cs ih =>
    rw [escape_cons, List.mem_append, not_or]
    refine ⟨?_, ih⟩
    unfold escapeChar
    split <;> grind

end PackedStack.Text
