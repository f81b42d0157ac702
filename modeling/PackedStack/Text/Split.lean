/-!
# Splitting text

Text cut at every occurrence of a separator. The pieces hold no separator, and joining them with it
gives the text back.
-/

namespace PackedStack.Text

/-- The pieces of a text between separators. There is one piece more than there are separators. -/
def splitOn (separator : Char) : List Char → List (List Char)
  | [] => [[]]
  | c :: cs =>
    if c = separator then [] :: splitOn separator cs
    else match splitOn separator cs with
      | [] => [[c]]
      | piece :: rest => (c :: piece) :: rest

theorem splitOn_cons_self (separator : Char) (cs : List Char) :
    splitOn separator (separator :: cs) = [] :: splitOn separator cs :=
  if_pos rfl

theorem splitOn_cons_of_ne {separator c : Char} {cs piece : List Char} {rest : List (List Char)}
    (hc : c ≠ separator) (h : splitOn separator cs = piece :: rest) :
    splitOn separator (c :: cs) = (c :: piece) :: rest :=
  (if_neg hc).trans (by rw [h])

theorem splitOn_ne_nil (separator : Char) (cs : List Char) : splitOn separator cs ≠ [] := by
  induction cs with
  | nil => exact List.cons_ne_nil [] []
  | cons c cs ih =>
    by_cases hc : c = separator
    · rw [hc, splitOn_cons_self]
      exact List.cons_ne_nil [] _
    · obtain ⟨piece, rest, h⟩ := List.exists_cons_of_ne_nil ih
      rw [splitOn_cons_of_ne hc h]
      exact List.cons_ne_nil (c :: piece) rest

theorem length_splitOn (separator : Char) (cs : List Char) :
    (splitOn separator cs).length = cs.count separator + 1 := by
  induction cs with
  | nil => rfl
  | cons c cs ih =>
    by_cases hc : c = separator
    · rw [hc, splitOn_cons_self, List.length_cons, ih, List.count_cons_self]
    · obtain ⟨piece, rest, h⟩ := List.exists_cons_of_ne_nil (splitOn_ne_nil separator cs)
      rw [List.count_cons_of_ne hc, ← ih, splitOn_cons_of_ne hc h, h]
      rfl

/-- A text without the separator is a single piece. -/
theorem splitOn_of_not_mem {separator : Char} {cs : List Char} (h : separator ∉ cs) :
    splitOn separator cs = [cs] := by
  induction cs with
  | nil => rfl
  | cons c cs ih =>
    simp only [List.mem_cons, not_or] at h
    exact splitOn_cons_of_ne (Ne.symm h.1) (ih h.2)

/-- A piece ends at the first separator. -/
theorem splitOn_append_cons {separator : Char} {cs : List Char} (h : separator ∉ cs)
    (rest : List Char) :
    splitOn separator (cs ++ separator :: rest) = cs :: splitOn separator rest := by
  induction cs with
  | nil => exact splitOn_cons_self separator rest
  | cons c cs ih =>
    simp only [List.mem_cons, not_or] at h
    exact splitOn_cons_of_ne (Ne.symm h.1) (ih h.2)

/-- Separators one after another have nothing between them. -/
theorem splitOn_replicate_append (separator : Char) (n : Nat) (cs : List Char) :
    splitOn separator (List.replicate n separator ++ cs) =
      List.replicate n [] ++ splitOn separator cs := by
  induction n with
  | zero => rfl
  | succ n ih =>
    rw [List.replicate_succ, List.replicate_succ, List.cons_append, splitOn_cons_self, ih]
    rfl

end PackedStack.Text
