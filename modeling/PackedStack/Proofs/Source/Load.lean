import Mathlib.Data.List.Basic
import PackedStack.Proofs.Failure
import PackedStack.Proofs.Text.Utf8
import PackedStack.Proofs.Text.Words
import PackedStack.Report.Diagnostic
import PackedStack.Source.Load

/-!
# Lines of loaded source

In UTF-8 the byte of a newline stands for a newline and for nothing else
(`Utf8.newline_mem_encode_iff`), so that cutting bytes cuts text. A line that was loaded is not
blank, has no blank character at its ends and no newline in it (`Source.of_mem_load`). The other way
round, rows without newlines are loaded as they were printed (`Source.load_printRows`).
-/

namespace PackedStack

namespace Source

/-! ## Cutting -/

theorem cut_cons_newline (bytes : List UInt8) : cut (10 :: bytes) = [10] :: cut bytes := rfl

theorem cut_cons_of_ne {b : UInt8} (hb : b ≠ 10) (bytes : List UInt8) :
    cut (b :: bytes) =
      match cut bytes with
      | [] => [[b]]
      | piece :: rest => (b :: piece) :: rest := by
  show (if b = 10 then _ else _) = _
  rw [if_neg hb]
  rfl

/-- A piece holds a newline at its end or nowhere. -/
theorem exists_of_mem_cut {bytes piece : List UInt8} (h : piece ∈ cut bytes) :
    ∃ line, 10 ∉ line ∧ (piece = line ∨ piece = line ++ [10]) := by
  induction bytes generalizing piece with
  | nil => cases h
  | cons b bytes ih =>
    by_cases hb : b = 10
    · subst hb
      rw [cut_cons_newline] at h
      rcases List.mem_cons.1 h with rfl | h
      · exact ⟨[], List.not_mem_nil, .inr rfl⟩
      · exact ih h
    · rw [cut_cons_of_ne hb] at h
      split at h
      · obtain rfl := List.mem_singleton.1 h
        exact ⟨[b], by simpa using Ne.symm hb, .inl rfl⟩
      · rename_i first rest hcut
        rcases List.mem_cons.1 h with rfl | h
        · obtain ⟨line, hline, hfirst⟩ := ih (by rw [hcut]; exact List.mem_cons_self)
          refine ⟨b :: line, by simpa using ⟨Ne.symm hb, hline⟩, ?_⟩
          exact hfirst.imp (congrArg (b :: ·)) (congrArg (b :: ·))
        · exact ih (by rw [hcut]; exact List.mem_cons_of_mem first h)

theorem chomp_of_not_mem {line : List UInt8} (h : 10 ∉ line) : chomp line = line := by
  rw [chomp]
  split
  · rename_i hreverse
    exact absurd (List.mem_reverse.1 (hreverse ▸ List.mem_cons_self)) h
  · rename_i hreverse
    exact absurd (List.mem_reverse.1 (hreverse ▸ List.mem_cons_self)) h
  · rfl

/-- With its newline a line loses one carriage return. -/
theorem chomp_append_newline (line : List UInt8) :
    chomp (line ++ [10]) = if line.getLast? = some 13 then line.dropLast else line := by
  rw [chomp, List.reverse_append, List.reverse_singleton, List.singleton_append]
  rcases List.eq_nil_or_concat line with rfl | ⟨front, b, rfl⟩
  · rfl
  · rw [List.concat_eq_append, List.reverse_append, List.getLast?_concat, List.dropLast_concat]
    by_cases hb : b = 13
    · simp [hb]
    · simp [hb]

theorem newline_not_mem_chomp {bytes piece : List UInt8} (h : piece ∈ cut bytes) :
    10 ∉ chomp piece := by
  obtain ⟨line, hline, rfl | rfl⟩ := exists_of_mem_cut h
  · rwa [chomp_of_not_mem hline]
  · rw [chomp_append_newline]
    split
    · exact fun hmem => hline ((List.dropLast_sublist line).mem hmem)
    · exact hline

/-! ## Loading -/

theorem line?_eq_some_iff {number : Nat} {text : String} {line : Line} :
    line? number text = some line ↔ Text.trim text.toList ≠ [] ∧
      line = ⟨number, String.ofList (Text.trim text.toList)⟩ := by
  rw [line?]
  split
  · rename_i hnil
    simp [hnil]
  · rename_i hne
    have hne : Text.trim text.toList ≠ [] := fun hnil => hne hnil
    simp [hne, eq_comm]

/-- A line of loaded source is not blank, is trimmed, and has no newline in it. -/
theorem of_mem_load {bytes : List UInt8} {lines : List Line} (h : load bytes = .ok lines)
    {line : Line} (hline : line ∈ lines) :
    line.text.toList ≠ [] ∧ Text.Trimmed line.text.toList ∧ '\n' ∉ line.text.toList := by
  rw [load] at h
  split at h
  · rename_i texts hdecode
    cases h
    obtain ⟨⟨text, number⟩, htext, hsome⟩ := List.mem_filterMap.1 hline
    obtain ⟨hne, rfl⟩ := line?_eq_some_iff.1 hsome
    have hnewline : '\n' ∉ text.toList := by
      have hmem : some text ∈ texts.map some :=
        List.mem_map_of_mem (List.fst_mem_of_mem_zipIdx htext)
      rw [← mapM_eq_some_iff.1 hdecode] at hmem
      obtain ⟨piece, hpiece, hsome⟩ := List.mem_map.1 hmem
      rw [← Utf8.newline_mem_encode_iff, Utf8.decode?_eq_some_iff.1 hsome]
      exact newline_not_mem_chomp hpiece
    rw [String.toList_ofList]
    exact ⟨hne, Text.trimmed_trim _, fun hmem => hnewline (Text.mem_of_mem_trim hmem)⟩
  · cases h

/-! ## Printed rows -/

theorem cut_append_newline {line : List UInt8} (h : 10 ∉ line) (rest : List UInt8) :
    cut (line ++ 10 :: rest) = (line ++ [10]) :: cut rest := by
  induction line with
  | nil => exact cut_cons_newline rest
  | cons b line ih =>
    rw [List.mem_cons, not_or] at h
    rw [List.cons_append, cut_cons_of_ne (Ne.symm h.1), ih h.2]
    rfl

theorem cut_encode_printRows {rows : List String} (h : ∀ row ∈ rows, '\n' ∉ row.toList) :
    cut (Utf8.encode (printRows rows)) = rows.map fun row => Utf8.encode row ++ [10] := by
  induction rows with
  | nil => rfl
  | cons row rows ih =>
    have hrow : 10 ∉ Utf8.encode row := fun hmem =>
      h row List.mem_cons_self (Utf8.newline_mem_encode_iff.1 hmem)
    have hencode : Utf8.encode (printRows (row :: rows)) =
        Utf8.encode row ++ 10 :: Utf8.encode (printRows rows) := by
      have happend := Utf8.encode_append_newline row.toList (printRows rows).toList
      rwa [← toList_printRows_cons, String.ofList_toList, String.ofList_toList,
        String.ofList_toList] at happend
    rw [hencode, cut_append_newline hrow, ih fun r hr => h r (List.mem_cons_of_mem row hr)]
    rfl

/-- Rows are loaded as they were printed if no newline is in them and no carriage return behind
them. -/
theorem load_printRows {rows : List String}
    (h : ∀ row ∈ rows, '\n' ∉ row.toList ∧ row.toList.getLast? ≠ some '\r') :
    load (Utf8.encode (printRows rows)) = .ok (numbered rows) := by
  have hdecode : (cut (Utf8.encode (printRows rows))).mapM (fun piece =>
      Utf8.decode? (chomp piece)) = some rows := by
    rw [mapM_eq_some_iff, cut_encode_printRows fun row hrow => (h row hrow).1, List.map_map]
    refine List.map_congr_left fun row hrow => ?_
    show Utf8.decode? (chomp (Utf8.encode row ++ [10])) = some row
    rw [chomp_append_newline, if_neg (Utf8.getLast?_encode_ne (h row hrow).2)]
    exact Utf8.decode?_eq_some_iff.2 rfl
  rw [load, hdecode]

/-- Texts that are not blank are numbered one by one. -/
theorem numbered_eq_map {texts : List String} (h : ∀ text ∈ texts, Text.trim text.toList ≠ []) :
    numbered texts =
      (texts.zipIdx 1).map fun t => ⟨t.2, String.ofList (Text.trim t.1.toList)⟩ := by
  rw [numbered, ← List.filterMap_eq_map]
  refine List.filterMap_congr fun t ht => ?_
  exact line?_eq_some_iff.2 ⟨h t.1 (List.fst_mem_of_mem_zipIdx ht), rfl⟩

end Source

end PackedStack
