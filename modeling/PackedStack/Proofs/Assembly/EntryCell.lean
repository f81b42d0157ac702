import PackedStack.Proofs.Assembly.Growth
import PackedStack.Proofs.Assembly.Outcome

/-!
# The entry cell

Every program starts with a word that pushes the content of the cell behind it and jumps there. That
is so before the first line (`State.startsWithJump_initial`), and as the first pass only adds,
nothing that a source says can move the two cells or change them (`State.startsWithJump_run`). So
the second pass puts the address of `main` where it belongs, and could as well have left the cell to
be resolved with all others (`State.map_image_finish_run`, `entry_cell_patched`).
-/

namespace PackedStack

/-! ## How a draft starts -/

/-- A draft that starts with a jump to `main`. -/
structure Draft.StartsWithJump (d : Draft) : Prop where
  /-- A word pushes a literal and jumps to it. -/
  word : d.image.toList[0]? = some (.code (.value (Word.encode ⟨.lit, .jump, .nop, .nop⟩)))
  /-- The literal stands behind the word. It is no code. -/
  cell : d.image.toList[1]? = some (.data (.token "&main"))
  /-- The map starts with an entry for the literal. -/
  entry : d.map.toList[0]? = some ⟨.literal, "&main", 1⟩

theorem getElem?_of_isPrefix {α : Type} {xs ys : List α} (h : xs <+: ys) {k : Nat} {x : α}
    (hx : xs[k]? = some x) : ys[k]? = some x := by
  obtain ⟨hlt, rfl⟩ := List.getElem?_eq_some_iff.1 hx
  exact List.prefix_iff_getElem?.1 h k hlt

theorem Draft.StartsWithJump.of_extends {d d' : Draft} (h : d.StartsWithJump) (hd : d.Extends d') :
    d'.StartsWithJump :=
  ⟨getElem?_of_isPrefix hd.image h.word, getElem?_of_isPrefix hd.image h.cell,
    getElem?_of_isPrefix hd.map h.entry⟩

/-- The word at the start is code, and the cell behind it is not. -/
theorem Draft.StartsWithJump.codeAddresses {d : Draft} (h : d.StartsWithJump) :
    0 ∈ d.image.codeAddresses ∧ 1 ∉ d.image.codeAddresses := by
  rw [Image.mem_codeAddresses_iff, Image.mem_codeAddresses_iff, h.word, h.cell]
  refine ⟨⟨_, rfl, rfl⟩, ?_⟩
  rintro ⟨c, hc, hcode⟩
  cases hc
  cases hcode

namespace State

theorem startsWithJump_initial : initial.draft.StartsWithJump := ⟨rfl, rfl, rfl⟩

theorem startsWithJump_run (program : List (Line × Statement)) :
    (initial.run program).draft.StartsWithJump :=
  startsWithJump_initial.of_extends (extends_run holds_queue_initial program).draft

theorem startsWithJump_flush_run (program : List (Line × Statement)) :
    (initial.run program).draft.flush.StartsWithJump := by
  obtain ⟨run, hholds⟩ := exists_holds_run holds_queue_initial program
  exact (startsWithJump_run program).of_extends (.of_lays (Draft.lays_flush hholds).1)

/-! ## The second pass -/

/-- With or without the patch, the image is resolved alike, and the map can then be resolved too. -/
theorem map_image_finish_run {program : List (Line × Statement)} {offset : Nat}
    (h : (initial.run program).labels.lookup entryLabel = some offset) :
    (initial.run program).finish.map (·.image) =
      (initial.run program).draft.flush.image.resolve (initial.run program).labels := by
  rw [finish_eq (getElem?_entry_run program), h]
  cases himage : (initial.run program).draft.flush.image.resolve (initial.run program).labels with
  | error cause => rfl
  | ok image =>
    obtain ⟨map, hmap⟩ := failure?_eq_none_iff.1 (failure?_resolve_map himage)
    rw [hmap]
    rfl

/-- The second pass finds `main` or a name missing, and nothing else is wrong. -/
theorem failure?_finish_run_cases {program : List (Line × Statement)} {cause : Cause}
    (h : failure? (initial.run program).finish = some cause) :
    cause = .entryUndefined ∨ ∃ name, cause = .undefinedLabel name := by
  rw [failure?_finish_run] at h
  split at h
  · obtain ⟨o, -, ho⟩ := List.exists_of_findSome?_eq_some h
    cases o with
    | value w => cases ho
    | token t =>
      rw [Operand.resolve, Labels.failure?_resolve] at ho
      split at ho
      · exact .inr ⟨_, (Option.some.inj ho).symm⟩
      · cases ho
  · exact .inl (Option.some.inj h).symm

/-- The entry cell and the first entry of the map come to hold the address of `main`. -/
theorem entry_of_finish_run {program : List (Line × Statement)} {offset : Nat} {a : Assembly}
    (hmain : (initial.run program).labels.lookup entryLabel = some offset)
    (h : (initial.run program).finish = .ok a) :
    a.image.contents[1]? = some (Word.ofAddress offset) ∧
      a.map[0]? = some ⟨.pointer, (Word.ofAddress offset).toDecimal, 1⟩ := by
  obtain ⟨-, image, map, -, himage, hmap, rfl⟩ := of_finish_eq_ok (getElem?_entry_run program) h
  have hstart := startsWithJump_flush_run program
  have hresolve := resolve_entry hmain
  constructor
  · rw [Image.contents, (Image.toList_of_resolve himage).1, List.getElem?_map, List.getElem?_map,
      hstart.cell]
    exact congrArg some (Operand.valueIn_of_resolve hresolve)
  · have hentry : Entry.resolve (initial.run program).labels ⟨.literal, "&main", 1⟩ =
        .ok ⟨.pointer, (Word.ofAddress offset).toDecimal, 1⟩ := by
      have hvalue : (initial.run program).labels.resolve "&main" = .ok (Word.ofAddress offset) :=
        hresolve
      rw [Entry.resolve, if_pos (by decide), hvalue]
      rfl
    have hfirst : ((initial.run program).draft.flush.map.toList.map
        (Entry.resolve (initial.run program).labels))[0]? = (map.map Except.ok)[0]? := by
      rw [mapM_eq_ok_iff.1 hmap]
    rw [List.getElem?_map, List.getElem?_map, hstart.entry, Option.map_some, hentry] at hfirst
    obtain ⟨e, he, heq⟩ := Option.map_eq_some_iff.1 hfirst.symm
    cases heq
    exact he

end State

/-- The second pass finds the entry cell where it expects it. After any lines the image starts with
the word that jumps and the entry cell with the name of `main`, and the map with an entry for it. So
the second pass can put an address there, which changes no other cell; and once `main` is defined,
it gives the image that comes of resolving all cells without that, with the address of `main` in the
entry cell, which the first entry of the map shows as a pointer. -/
theorem entry_cell_patched (lines : List Line) :
    let s := State.initial.after lines
    let image := s.draft.flush.image
    s.entry = 1 ∧ s.draft.StartsWithJump ∧
      0 ∈ s.draft.image.codeAddresses ∧ 1 ∉ s.draft.image.codeAddresses ∧
      (∀ content, ∃ image', image.patch? s.entry content = some image' ∧
        image'.toList = image.toList.set 1 (.data content)) ∧
      (∀ offset size, s.finish ≠ .error (.patchOutside offset size)) ∧
      ∀ offset, s.labels.lookup "main" = some offset →
        s.finish.map (·.image) = image.resolve s.labels ∧
        ∀ a, s.finish = .ok a →
          a.image.contents[1]? = some (Word.ofAddress offset) ∧
          a.map[0]? = some ⟨.pointer, (Word.ofAddress offset).toDecimal, 1⟩ := by
  intro s image
  have hs : s = State.initial.run (Source.statements lines) := State.after_eq_run _ lines
  have hentry : s.entry = 1 := by rw [hs, State.entry_run]
  have hstart : s.draft.StartsWithJump := by rw [hs]; exact State.startsWithJump_run _
  have hflush : s.draft.flush.StartsWithJump := by rw [hs]; exact State.startsWithJump_flush_run _
  refine ⟨hentry, hstart, hstart.codeAddresses.1, hstart.codeAddresses.2, fun content => ?_,
    fun offset size hpanic => ?_, fun offset hmain => ⟨?_, fun a ha => ?_⟩⟩
  · rw [hentry]
    exact Image.patch?_of_getElem? hflush.cell content
  · have hfailure : failure? s.finish = some (.patchOutside offset size) := by rw [hpanic]; rfl
    rw [hs] at hfailure
    rcases State.failure?_finish_run_cases hfailure with hcause | ⟨name, hcause⟩ <;> cases hcause
  · rw [hs] at hmain
    show s.finish.map _ = s.draft.flush.image.resolve s.labels
    rw [hs, State.map_image_finish_run hmain]
  · rw [hs] at hmain ha
    exact State.entry_of_finish_run hmain ha

/-- A source that changes the mode, defines `&main` and names it, has a line that fails, and defines
`main` twice. -/
theorem entry_cell_patched_redefined :
    let s := State.initial.after [⟨1, ".unpacked"⟩, ⟨2, ":&main"⟩, ⟨3, "lit &&main"⟩, ⟨4, "main"⟩,
      ⟨5, ":main"⟩, ⟨6, "return"⟩, ⟨7, ":main"⟩]
    s.labels.lookup "main" = some 4 ∧
      ∃ a, s.finish = .ok a ∧ s.finish.map (·.image) = s.draft.flush.image.resolve s.labels ∧
        a.image.contents[1]? = some 4 ∧ a.map[0]? = some ⟨.pointer, "4", 1⟩ := by
  intro s
  obtain ⟨-, -, -, -, -, -, hpatched⟩ := entry_cell_patched [⟨1, ".unpacked"⟩, ⟨2, ":&main"⟩,
    ⟨3, "lit &&main"⟩, ⟨4, "main"⟩, ⟨5, ":main"⟩, ⟨6, "return"⟩, ⟨7, ":main"⟩]
  obtain ⟨himage, hentry⟩ := hpatched 4 rfl
  exact ⟨rfl, _, rfl, himage, hentry _ rfl⟩

end PackedStack
