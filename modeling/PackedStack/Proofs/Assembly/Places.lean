import PackedStack.Proofs.Assembly.SecondPass
import PackedStack.Proofs.Layout.Placement

/-!
# What the first pass lays where

The first pass tells for every statement with data which cells it lays (`State.dataBlocks`), and for
every address in which mode it was laid (`State.packingAt`). Both can be read off the places of the
pieces of the program: the data is in the pieces that are data statements
(`State.dataBlocks_eq_places`), and a piece with instructions is laid in the mode that it is made
for (`State.packingAt_of_mem_places`).
-/

namespace PackedStack

open Layout (Run Piece Extent Placed)

/-- The number of cells that a statement with data lays, if it is one. -/
def Statement.dataSize? : Statement → Option Nat
  | data _ => some 1
  | text content => some (content.length + 1)
  | allocate count => some count
  | _ => none

theorem Statement.divides_of_dataSize? {s : Statement} {size : Nat} (h : s.dataSize? = some size) :
    s.divides := by
  cases s <;> first | rfl | cases h

namespace State

/-- The statements of a program that lay data, each with the cells that it lays when the program is
carried out from the given state. -/
def dataBlocks (s : State) : List (Line × Statement) → List (Statement × Extent)
  | [] => []
  | (line, st) :: rest =>
    let block := st.dataSize?.map fun size => (st, ⟨s.draft.flush.here, size⟩)
    block.toList ++ (s.execute line st).dataBlocks rest

/-- The mode that is on when the cell at an address is laid, for a program that is carried out from
the given state and then flushed. -/
def packingAt (s : State) (address : Nat) : List (Line × Statement) → Packing
  | [] => s.draft.queue.packing
  | (line, st) :: rest =>
    let s' := s.execute line st
    if address < s'.here then s.draft.queue.packing else s'.packingAt address rest

/-- The pieces of a program, each with the address at which it starts. -/
def places (program : List (Line × Statement)) : List Placed :=
  Layout.placeFrom 0 (Layout.piecesFrom .packed (startup program))

end State

/-! ## Data and instructions among pieces -/

/-- The statement of a piece and its cells, if it is one that lays data. -/
def Layout.Placed.dataBlock? (x : Placed) : Option (Statement × Extent) :=
  match x.piece with
  | .other s => s.dataSize?.map fun size => (s, ⟨x.start, size⟩)
  | _ => none

namespace Layout

theorem Piece.isCode_of_packing? {p : Piece} {mode : Packing} (h : p.packing? = some mode) :
    p.isCode := by
  cases p with
  | other s => cases h
  | _ => rfl

theorem Piece.exists_packing? {p : Piece} (h : p.isCode) : ∃ mode, p.packing? = some mode := by
  cases p with
  | word group => exact ⟨.packed, rfl⟩
  | single i => exact ⟨.unpacked, rfl⟩
  | other s => cases h

/-- A statement that is no instruction has cells only if it lays data. -/
theorem Piece.size_other (s : Statement) : (Piece.other s).size = s.dataSize?.getD 0 := by
  rw [Piece.size, Piece.cells_block_other, List.length_map]
  cases s <;> simp [Piece.contents, Statement.dataSize?, String.length_toList]

theorem Placed.dataBlock?_eq_some_iff {x : Placed} {b : Statement × Extent} :
    x.dataBlock? = some b ↔
      x.piece = .other b.1 ∧ b.1.dataSize? = some x.piece.size ∧ b.2 = x.extent := by
  obtain ⟨start, piece⟩ := x
  obtain ⟨s, extent⟩ := b
  cases piece with
  | other s' =>
    simp only [dataBlock?, Option.map_eq_some_iff, Prod.mk.injEq, Piece.other.injEq, Placed.extent,
      Piece.size_other]
    constructor
    · rintro ⟨size, hsize, rfl, rfl⟩
      rw [hsize]
      exact ⟨rfl, rfl, rfl⟩
    · rintro ⟨rfl, hsize, rfl⟩
      exact ⟨_, hsize, rfl, rfl⟩
  | _ => simp [dataBlock?]

theorem filterMap_dataBlock?_of_isCode {base : Nat} {ps : List Piece} (h : ∀ p ∈ ps, p.isCode) :
    (placeFrom base ps).filterMap Placed.dataBlock? = [] := by
  rw [List.filterMap_eq_nil_iff]
  rintro ⟨start, piece⟩ hx
  have hcode := h piece (piece_mem_of_mem_placeFrom hx)
  cases piece with
  | other s => cases hcode
  | _ => rfl

end Layout

/-! ## The first pass -/

namespace State

theorem here_execute {s : State} {st : Statement} {ps : List Piece} (line : Line)
    (h : s.draft.Lays ps (s.draft.carry st)) :
    (s.execute line st).here = s.here + Layout.span ps := by
  rw [here, draft_execute]
  exact h.here_eq

/-- The data that a program lays from a state is in the pieces of what waits and of the program. -/
theorem dataBlocks_eq {s : State} {run : Run} (h : s.draft.queue.Holds run)
    (program : List (Line × Statement)) :
    s.dataBlocks program =
      (Layout.placeFrom s.here (Layout.piecesFrom s.draft.queue.packing
        (run.map .instruction ++ program.map (·.2)))).filterMap Placed.dataBlock? := by
  induction program generalizing s run with
  | nil =>
    have hcode : ∀ p ∈ Layout.runPieces s.draft.queue.packing run, p.isCode :=
      fun p hp => Piece.isCode_of_packing? (Layout.packing?_of_mem_runPieces hp)
    rw [List.map_nil, List.append_nil, Layout.piecesFrom_run,
      Layout.filterMap_dataBlock?_of_isCode hcode]
    rfl
  | cons p program ih =>
    obtain ⟨line, st⟩ := p
    obtain ⟨ps, run', hmode, hflush, hlays, hholds, hpieces⟩ := Draft.exists_lays_carry h st
    rw [← draft_execute s line st] at hholds
    have hcode : ∀ p ∈ ps, p.isCode := fun p hp => Piece.isCode_of_packing? (hmode p hp)
    have hown : (Layout.placeFrom (s.here + Layout.span ps) (Layout.ownPieces st)).filterMap
        Placed.dataBlock? =
          (st.dataSize?.map fun size => (st, ⟨s.draft.flush.here, size⟩)).toList := by
      cases hst : st.divides with
      | true =>
        have hhere : s.draft.flush.here = s.here + Layout.span ps := (hflush hst).here_eq
        rw [Layout.ownPieces, if_pos hst, hhere]
        cases hsize : st.dataSize? <;> simp [Layout.placeFrom, Placed.dataBlock?, hsize]
      | false =>
        have hsize : st.dataSize? = none := by
          cases hsize : st.dataSize? with
          | none => rfl
          | some size => rw [Statement.divides_of_dataSize? hsize] at hst; cases hst
        rw [Layout.ownPieces, if_neg (by simp [hst]), hsize]
        rfl
    rw [List.map_cons, hpieces, Layout.placeFrom_append, Layout.placeFrom_append,
      List.filterMap_append, List.filterMap_append, Layout.filterMap_dataBlock?_of_isCode hcode,
      hown, ← here_execute line hlays, ← draft_execute s line st, ← ih hholds]
    rfl

/-- A piece with instructions is laid in the mode that it is made for. -/
theorem packingAt_eq {s : State} {run : Run} (h : s.draft.queue.Holds run)
    (program : List (Line × Statement)) {x : Placed} {mode : Packing}
    (hx : x ∈ Layout.placeFrom s.here (Layout.piecesFrom s.draft.queue.packing
      (run.map .instruction ++ program.map (·.2))))
    (hmode : x.piece.packing? = some mode) {address : Nat} (haddress : x.extent.Covers address) :
    s.packingAt address program = mode := by
  induction program generalizing s run with
  | nil =>
    rw [List.map_nil, List.append_nil, Layout.piecesFrom_run] at hx
    have hpacking := Layout.packing?_of_mem_runPieces (Layout.piece_mem_of_mem_placeFrom hx)
    rw [hpacking] at hmode
    exact Option.some.inj hmode
  | cons p program ih =>
    obtain ⟨line, st⟩ := p
    obtain ⟨ps, run', hps, -, hlays, hholds, hpieces⟩ := Draft.exists_lays_carry h st
    rw [← draft_execute s line st] at hholds
    have hhere := here_execute line hlays
    rw [List.map_cons, hpieces, Layout.placeFrom_append, ← hhere] at hx
    rw [packingAt]
    rcases List.mem_append.1 hx with hx | hx
    · have hend := (Layout.bounds_of_mem_placeFrom hx).2
      have hlt : address < (s.execute line st).here :=
        Nat.lt_of_lt_of_le haddress.2 (hhere ▸ hend)
      rw [if_pos hlt]
      rcases List.mem_append.1 (Layout.piece_mem_of_mem_placeFrom hx) with hp | hp
      · exact Option.some.inj ((hps _ hp).symm.trans hmode)
      · rw [Layout.ownPieces] at hp
        split at hp
        · rw [List.mem_singleton.1 hp] at hmode
          cases hmode
        · cases hp
    · have hstart := (Layout.bounds_of_mem_placeFrom hx).1
      have hge : ¬ address < (s.execute line st).here :=
        Nat.not_lt.2 (Nat.le_trans hstart haddress.1)
      rw [if_neg hge]
      rw [← draft_execute s line st] at hx
      exact ih hholds hx

/-! ## Whole programs -/

theorem holds_queue_initial : initial.draft.queue.Holds [] := Queue.holds_nil .packed

/-- A program is placed behind the word with which every program starts. -/
theorem places_eq_cons (program : List (Line × Statement)) :
    places program = ⟨0, .word bootstrap⟩ ::
      Layout.placeFrom initial.here (Layout.piecesFrom .packed (program.map (·.2))) := by
  rw [places, piecesFrom_startup]
  rfl

/-- The layout of a program falls apart at a statement that ends a run. -/
theorem piecesFrom_startup_append_cons {s : Statement} (h : s.divides) (line : Line)
    (program rest : List (Line × Statement)) :
    Layout.piecesFrom .packed (startup (program ++ (line, s) :: rest)) =
      Layout.piecesFrom .packed (startup program) ++ .other s :: Layout.piecesFrom
        (Layout.modeAfter ((startup program).foldl Layout.modeAfter .packed) s)
        (rest.map (·.2)) := by
  rw [startup_append, List.map_cons, Layout.piecesFrom_append_cons h]

/-- The data of a program is in its pieces. -/
theorem dataBlocks_eq_places (program : List (Line × Statement)) :
    initial.dataBlocks program = (places program).filterMap Placed.dataBlock? := by
  rw [dataBlocks_eq holds_queue_initial, places_eq_cons]
  rfl

/-- There is a block of data for each statement that lays data. -/
theorem map_fst_dataBlocks (s : State) (program : List (Line × Statement)) :
    (s.dataBlocks program).map (·.1) = (program.map (·.2)).filter (·.dataSize?.isSome) := by
  induction program generalizing s with
  | nil => rfl
  | cons p program ih =>
    obtain ⟨line, st⟩ := p
    rw [dataBlocks, List.map_append, ih, List.map_cons, List.filter_cons]
    cases st.dataSize? <;> rfl

/-- What is laid before a program was laid in the mode in which the program starts. -/
theorem packingAt_of_lt_here {s : State} {run : Run} (h : s.draft.queue.Holds run)
    (program : List (Line × Statement)) {address : Nat} (haddress : address < s.here) :
    s.packingAt address program = s.draft.queue.packing := by
  cases program with
  | nil => rfl
  | cons p program =>
    obtain ⟨ps, run', -, -, hlays, -⟩ := Draft.exists_lays_carry h p.2
    have hhere := here_execute p.1 hlays
    exact if_pos (by omega)

/-- The cells of a piece with instructions are laid in the mode that the piece is made for. -/
theorem packingAt_of_mem_places {program : List (Line × Statement)} {x : Placed}
    (hx : x ∈ places program) {mode : Packing} (hmode : x.piece.packing? = some mode)
    {address : Nat} (haddress : x.extent.Covers address) :
    initial.packingAt address program = mode := by
  rw [places_eq_cons] at hx
  rcases List.mem_cons.1 hx with rfl | hx
  · have hlt : address < initial.here := haddress.2
    rw [packingAt_of_lt_here holds_queue_initial program hlt]
    exact Option.some.inj hmode
  · exact packingAt_eq holds_queue_initial program hx hmode haddress

end State

end PackedStack
