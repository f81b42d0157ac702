import PackedStack.Output.Artifact
import PackedStack.Proofs.Failure

/-!
# Reading files back

A row of the map file holds no newline, so that cutting the file at newlines gives the rows
(`Artifact.splitOn_mapChars`), and holds no tabs but the two between its fields
(`Entry.count_tab_rowChars`). Fields can be read back whatever characters a value has, so that
the file tells the whole map (`Artifact.readMap?_mapChars`) and two maps never make the same file
(`map_file_decodable`).
-/

namespace PackedStack

theorem Entry.count_tab_rowChars (e : Entry) : e.rowChars.count '\t' = 2 := by
  have hfields := Text.length_splitOn '\t' e.rowChars
  rw [splitOn_rowChars] at hfields
  exact (Nat.succ.inj hfields).symm

namespace Artifact

theorem mapChars_cons (e : Entry) (entries : List Entry) :
    mapChars (e :: entries) = e.rowChars ++ '\n' :: mapChars entries := by
  simp [mapChars]

/-- Nothing stands between rows but the newlines that end them. -/
theorem splitOn_mapChars (entries : List Entry) :
    Text.splitOn '\n' (mapChars entries) = entries.map Entry.rowChars ++ [[]] := by
  induction entries with
  | nil => rfl
  | cons e entries ih =>
    rw [mapChars_cons, Text.splitOn_append_cons e.newline_not_mem_rowChars, ih]
    rfl

theorem count_newline_mapChars (entries : List Entry) :
    (mapChars entries).count '\n' = entries.length := by
  have hrows := Text.length_splitOn '\n' (mapChars entries)
  rw [splitOn_mapChars, List.length_append, List.length_map] at hrows
  exact (Nat.succ.inj hrows).symm

@[simp] theorem readMap?_mapChars (entries : List Entry) :
    readMap? (mapChars entries) = some entries := by
  have hrows : (entries.map Entry.rowChars).mapM Entry.ofRowChars? = some entries := by
    rw [mapM_eq_some_iff, List.map_map]
    exact List.map_congr_left fun e _ => e.ofRowChars?_rowChars
  rw [readMap?, splitOn_mapChars, List.reverse_append]
  show (entries.map Entry.rowChars).reverse.reverse.mapM Entry.ofRowChars? = some entries
  rw [List.reverse_reverse, hrows]

theorem decode?_mapBytes (entries : List Entry) :
    Utf8.decode? (mapBytes entries) = some (String.ofList (mapChars entries)) :=
  Utf8.decode?_encode _

end Artifact

/-- The map file can be decoded in one way only. It is text in which every row ends with a newline
and no other newline occurs; the two tabs of a row stand between kind, escaped value and offset; and
undoing this gives the map that was written, for values of any characters. -/
theorem map_file_decodable :
    (∀ entries : List Entry,
      let text := Artifact.mapChars entries
      Utf8.decode? (Artifact.mapBytes entries) = some (String.ofList text) ∧
        Text.splitOn '\n' text = entries.map Entry.rowChars ++ [[]] ∧
        text.count '\n' = entries.length ∧
        Artifact.readMap? text = some entries) ∧
      (∀ e : Entry,
        e.rowChars.count '\t' = 2 ∧
          Text.splitOn '\t' e.rowChars =
            [e.kind.name.toList, Text.escape e.value.toList, Numeral.decimal e.offset]) ∧
      Function.Injective Artifact.mapBytes := by
  refine ⟨fun entries => ⟨Artifact.decode?_mapBytes entries, Artifact.splitOn_mapChars entries,
    Artifact.count_newline_mapChars entries, Artifact.readMap?_mapChars entries⟩,
    fun e => ⟨e.count_tab_rowChars, e.splitOn_rowChars⟩, fun entries entries' h => ?_⟩
  have htext : String.ofList (Artifact.mapChars entries) =
      String.ofList (Artifact.mapChars entries') := by
    apply Option.some.inj
    rw [← Artifact.decode?_mapBytes, h, Artifact.decode?_mapBytes]
  apply Option.some.inj
  rw [← Artifact.readMap?_mapChars, String.ofList_injective htext, Artifact.readMap?_mapChars]

/-- A tab in a value is not taken for the backslash and the letter that it is written with. -/
theorem map_file_decodable_lookalikes :
    Artifact.readMap? (Artifact.mapChars [⟨.raw, "a\tb\\t\n\r\\", 4⟩, ⟨.label, "", 0⟩]) =
        some [⟨.raw, "a\tb\\t\n\r\\", 4⟩, ⟨.label, "", 0⟩] ∧
      Artifact.mapBytes [⟨.raw, "\t", 0⟩] ≠ Artifact.mapBytes [⟨.raw, "\\t", 0⟩] :=
  ⟨(map_file_decodable.1 _).2.2.2, fun h => absurd (map_file_decodable.2.2 h) (by decide)⟩

end PackedStack
