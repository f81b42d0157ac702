import PackedStack.Assembly.Basic
import PackedStack.Proofs.Layout.Shape
import PackedStack.Proofs.Symbol.Resolution

/-!
# The second pass

The second pass puts the address of `main` into the entry cell and then resolves what is left open.
The entry cell is the operand of the first instruction, which names `main`, so that resolving would
give it the same word: the second pass resolves the image as the first pass left it
(`State.finish_eq`). An assembly is therefore the resolved layout of its source
(`Assembly.madeFrom_of_assemble`).
-/

namespace PackedStack

/-! ## Replacing a cell -/

theorem mapM_set_of_eq {ε α β : Type} {f : α → Except ε β} {xs : List α} {k : Nat} {x y : α}
    (hx : xs[k]? = some x) (hy : f y = f x) : (xs.set k y).mapM f = xs.mapM f := by
  induction xs generalizing k with
  | nil => rfl
  | cons z xs ih =>
    cases k with
    | zero =>
      obtain rfl : z = x := Option.some.inj hx
      rw [List.set_cons_zero, List.mapM_cons, List.mapM_cons, hy]
    | succ k =>
      rw [List.set_cons_succ, List.mapM_cons, List.mapM_cons, ih hx]

/-- Replacing the content of a cell by something that resolves alike makes no difference. -/
theorem Image.resolve_of_patch? {labels : Labels} {image image' : Image Operand} {offset : Nat}
    {content : Operand} {c : Cell Operand} (hc : image.toList[offset]? = some c)
    (hcontent : content.resolve labels = c.content.resolve labels)
    (h : image.patch? offset content = some image') :
    image'.resolve labels = image.resolve labels := by
  obtain ⟨image'', hpatch, hset⟩ := patch?_of_getElem? hc content
  obtain rfl := Option.some.inj (hpatch.symm.trans h)
  rw [Image.resolve, hset, mapM_set_of_eq hc, ← Image.resolve]
  rw [Cell.resolve, Cell.resolve, hcontent]

namespace State

/-! ## The entry cell -/

/-- A program starts with a word for the two instructions that jump to `main`. -/
theorem piecesFrom_startup (program : List (Line × Statement)) :
    Layout.piecesFrom .packed (startup program) =
      .word bootstrap :: Layout.piecesFrom .packed (program.map (·.2)) :=
  Layout.piecesFrom_packed_of_complete [⟨.lit, some (.token ("&" ++ entryLabel))⟩]
    (by decide) (by decide) (.inr rfl) _

theorem entry_run (program : List (Line × Statement)) : (initial.run program).entry = 1 := by
  have key : ∀ s : State, (s.run program).entry = s.entry := by
    induction program with
    | nil => exact fun s => rfl
    | cons p program ih =>
      intro s
      refine (ih (s.execute p.1 p.2)).trans ?_
      cases p.2 <;> rfl
  exact key initial

/-- The entry cell is the operand of the first instruction. -/
theorem getElem?_entry_run (program : List (Line × Statement)) :
    (initial.run program).draft.flush.image.toList[(initial.run program).entry]? =
      some (.data (.token ("&" ++ entryLabel))) := by
  rw [toList_image_flush_run, entry_run, Layout.blocks_eq_map_pieces, piecesFrom_startup]
  rfl

/-- The name of the entry cell resolves to the address of `main`. -/
theorem resolve_entry {labels : Labels} {offset : Nat}
    (h : labels.lookup entryLabel = some offset) :
    (Operand.token ("&" ++ entryLabel)).resolve labels = .ok (Word.ofAddress offset) := by
  have hparse : Word.parse? ("&" ++ entryLabel) = none := Word.parse?_of_marked (by decide)
  have hlookup : labels.lookup (Labels.unmarked ("&" ++ entryLabel)) = some offset := by
    rw [Labels.unmarked_mark, h]
  exact Labels.resolve_of_lookup_eq_some labels hparse hlookup

/-- Putting the address of `main` into the entry cell is what resolving would do. -/
theorem resolve_of_patch?_entry {s : State} {offset : Nat} {image : Image Operand}
    (hcell : s.draft.flush.image.toList[s.entry]? = some (.data (.token ("&" ++ entryLabel))))
    (hmain : s.labels.lookup entryLabel = some offset)
    (h : s.draft.flush.image.patch? s.entry (.value (Word.ofAddress offset)) = some image) :
    image.resolve s.labels = s.draft.flush.image.resolve s.labels := by
  refine Image.resolve_of_patch? hcell ?_ h
  exact (resolve_entry hmain).symm

/-! ## Finishing -/

/-- The second pass fails if `main` is not defined, and otherwise resolves the image and the map
that the first pass left. -/
theorem finish_eq {s : State} (hcell : s.draft.flush.image.toList[s.entry]? =
      some (.data (.token ("&" ++ entryLabel)))) :
    s.finish =
      match s.labels.lookup entryLabel with
      | none => .error .entryUndefined
      | some _ => do
        let image ← s.draft.flush.image.resolve s.labels
        let map ← s.draft.flush.map.toList.mapM (Entry.resolve s.labels)
        return ⟨image, map, s.labels, s.output, s.warnings.toList⟩ := by
  rw [finish]
  cases hmain : s.labels.lookup entryLabel with
  | none => rfl
  | some offset =>
    obtain ⟨image, hpatch, -⟩ := Image.patch?_of_getElem? hcell (.value (Word.ofAddress offset))
    simp only [hpatch, resolve_of_patch?_entry hcell hmain hpatch, Entry.mapM_resolve]
    cases s.draft.flush.image.resolve s.labels with
    | error cause => rfl
    | ok image' =>
      obtain ⟨map, failure⟩ := Entry.resolveAll s.labels s.draft.flush.map.toList
      cases failure <;> rfl

/-- A second pass that succeeds has found `main` and resolved the image and the map. -/
theorem of_finish_eq_ok {s : State} (hcell : s.draft.flush.image.toList[s.entry]? =
      some (.data (.token ("&" ++ entryLabel)))) {a : Assembly} (h : s.finish = .ok a) :
    ∃ offset image map, s.labels.lookup entryLabel = some offset ∧
      s.draft.flush.image.resolve s.labels = .ok image ∧
      s.draft.flush.map.toList.mapM (Entry.resolve s.labels) = .ok map ∧
      a = ⟨image, map, s.labels, s.output, s.warnings.toList⟩ := by
  rw [finish_eq hcell] at h
  cases hmain : s.labels.lookup entryLabel with
  | none => rw [hmain] at h; cases h
  | some offset =>
    rw [hmain] at h
    obtain ⟨image, himage, hrest⟩ := bind_eq_ok_iff.1 h
    obtain ⟨map, hmap, hassembly⟩ := bind_eq_ok_iff.1 hrest
    cases hassembly
    exact ⟨offset, image, map, rfl, himage, hmap, rfl⟩

end State

/-! ## Assembling -/

theorem assemble_eq (lines : List Line) :
    assemble lines = Source.read lines >>= fun program =>
      (State.initial.run program).finish.mapError Error.ofCause := by
  rw [assemble, State.foldlM_readLine]
  cases Source.read lines <;> rfl

theorem assemble_of_read {lines : List Line} {program : List (Line × Statement)}
    (h : Source.read lines = .ok program) :
    assemble lines = (State.initial.run program).finish.mapError Error.ofCause := by
  rw [assemble_eq, h]
  rfl

/-- An assembly is made from a program: it is the layout of the program, resolved by its labels. -/
structure Assembly.MadeFrom (a : Assembly) (program : List (Line × Statement)) : Prop where
  labels : a.labels = (State.initial.run program).labels
  main : ∃ offset, a.labels.lookup State.entryLabel = some offset
  image : a.image.toList =
    (Layout.cells (Layout.blocks (State.startup program))).map (Cell.valueIn a.labels)
  resolves : ∀ c ∈ Layout.cells (Layout.blocks (State.startup program)),
    c.content.resolve a.labels = .ok (c.content.valueIn a.labels)
  map : (Layout.entriesFrom 0 (Layout.blocks (State.startup program))).mapM
    (Entry.resolve a.labels) = .ok a.map
  output : a.output = (State.initial.run program).output
  warnings : a.warnings = (State.initial.run program).warnings.toList

theorem Assembly.madeFrom_of_assemble {lines : List Line} {a : Assembly}
    (h : assemble lines = .ok a) :
    ∃ program, Source.read lines = .ok program ∧ a.MadeFrom program := by
  rw [assemble_eq] at h
  obtain ⟨program, hread, hfinish⟩ := bind_eq_ok_iff.1 h
  refine ⟨program, hread, ?_⟩
  rw [mapError_eq_ok_iff] at hfinish
  obtain ⟨offset, image, map, hmain, himage, hmap, rfl⟩ :=
    State.of_finish_eq_ok (State.getElem?_entry_run program) hfinish
  obtain ⟨hcells, hresolves⟩ := Image.toList_of_resolve himage
  rw [State.toList_image_flush_run] at hcells hresolves
  rw [State.toList_map_flush_run] at hmap
  exact ⟨rfl, ⟨offset, hmain⟩, hcells, hresolves, hmap, rfl, rfl⟩

theorem Assembly.madeFrom_of_read {lines : List Line} {a : Assembly}
    {program : List (Line × Statement)} (h : assemble lines = .ok a)
    (hread : Source.read lines = .ok program) : a.MadeFrom program := by
  obtain ⟨program', hread', hmade⟩ := madeFrom_of_assemble h
  rw [hread] at hread'
  cases hread'
  exact hmade

/-- The failures of the cells of a layout, in the order of addresses, are those of the operands of
the program, in the order of the program. -/
theorem Layout.filterMap_failure?_cells (labels : Labels) (program : List Statement) :
    (cells (blocks program)).filterMap (fun c => failure? (c.content.resolve labels)) =
      (program.flatMap (·.operands)).filterMap fun o => failure? (o.resolve labels) :=
  filterMap_cells_blocks program (f := fun o => failure? (o.resolve labels)) fun _ => rfl

/-- Every operand of the program resolves, since it is in a cell of the layout. -/
theorem Assembly.MadeFrom.resolve_operand {a : Assembly} {program : List (Line × Statement)}
    (h : a.MadeFrom program) {o : Operand}
    (ho : o ∈ (State.startup program).flatMap (·.operands)) :
    o.resolve a.labels = .ok (o.valueIn a.labels) := by
  have hnone : ((State.startup program).flatMap (·.operands)).filterMap
      (fun o => failure? (o.resolve a.labels)) = [] := by
    rw [← Layout.filterMap_failure?_cells, List.filterMap_eq_nil_iff]
    intro c hc
    rw [h.resolves c hc]
    rfl
  obtain ⟨w, hw⟩ := failure?_eq_none_iff.1 (List.filterMap_eq_nil_iff.1 hnone o ho)
  rw [hw, Operand.valueIn_of_resolve hw]

end PackedStack
