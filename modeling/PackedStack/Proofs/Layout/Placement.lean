import PackedStack.Proofs.Layout.Shape

/-!
# Where pieces are placed

A program can be cut in front of any statement that ends a run, and its layout falls into the two
layouts (`piecesFrom_append`). Pieces that follow one another from an address on have places that do
not overlap and leave no gap (`pairwise_placeFrom`, `exists_covers`). What an image holds can be
told from the places of its pieces: its code (`codeAddressesFrom_cells_map_block`), the content of a
cell (`getElem?_cells_of_mem_placeFrom`) and the map (`entriesFrom_map_block`). The map lists its
entries in the order of their offsets, with no two for one cell (`pairwise_entriesFrom`).
-/

namespace PackedStack

/-- Whether an entry tells what the cell at its offset holds. -/
def Entry.tellsCell (e : Entry) : Bool := e.kind == .literal || e.kind == .pointer

/-- The first entry may stand before the second: its offset is not above that of the second, and
below it if each of the two tells what a cell holds. -/
def Entry.Precedes (e e' : Entry) : Prop :=
  e.offset ≤ e'.offset ∧ (e.tellsCell → e'.tellsCell → e.offset < e'.offset)

namespace Layout

/-! ## Cutting a program -/

/-- A program that joins no run of a program before it: it is empty, or starts with a statement that
ends a run. -/
def Detached (program : List Statement) : Prop := ∀ s ∈ program.head?, s.divides

theorem divide_of_detached {rest : List Statement} (h : Detached rest) : (divide rest).1 = [] := by
  cases rest with
  | nil => rfl
  | cons s rest => rw [divide_of_divides (h s rfl)]

theorem divide_append {rest : List Statement} (h : Detached rest) (program : List Statement) :
    divide (program ++ rest) = ((divide program).1, (divide program).2 ++ (divide rest).2) := by
  induction program with
  | nil => exact Prod.ext (divide_of_detached h) rfl
  | cons s program ih =>
    cases hs : s.divides with
    | true =>
      rw [List.cons_append, divide_of_divides hs, divide_of_divides hs, ih]
      rfl
    | false =>
      cases s with
      | instruction i => rw [List.cons_append, divide_instruction, divide_instruction, ih]
      | output path => rw [List.cons_append, divide_output, divide_output, ih]
      | _ => cases hs

theorem sectionPieces_append (mode : Packing) (xs ys : List (Statement × Run)) :
    sectionPieces mode (xs ++ ys) =
      sectionPieces mode xs ++ sectionPieces ((xs.map (·.1)).foldl modeAfter mode) ys := by
  induction xs generalizing mode with
  | nil => rfl
  | cons x xs ih =>
    obtain ⟨s, run⟩ := x
    rw [List.cons_append, sectionPieces, sectionPieces, ih, List.append_assoc]
    rfl

/-- Only statements that end a run change the mode. -/
theorem foldl_modeAfter_divide (mode : Packing) (program : List Statement) :
    ((divide program).2.map (·.1)).foldl modeAfter mode = program.foldl modeAfter mode := by
  induction program generalizing mode with
  | nil => rfl
  | cons s program ih =>
    cases hs : s.divides with
    | true =>
      rw [divide_of_divides hs]
      exact ih (modeAfter mode s)
    | false =>
      cases s with
      | instruction i => exact ih mode
      | output path => exact ih mode
      | _ => cases hs

/-- The pieces of a program and of one that joins no run of it follow one another. -/
theorem piecesFrom_append {rest : List Statement} (h : Detached rest) (mode : Packing)
    (program : List Statement) :
    piecesFrom mode (program ++ rest) =
      piecesFrom mode program ++ piecesFrom (program.foldl modeAfter mode) rest := by
  have hrest : ∀ mode', piecesFrom mode' rest = sectionPieces mode' (divide rest).2 := by
    intro mode'
    rw [piecesFrom, divide_of_detached h, runPieces_nil, List.nil_append]
  rw [hrest, piecesFrom, divide_append h, sectionPieces_append, foldl_modeAfter_divide, piecesFrom,
    List.append_assoc]

/-- A statement that ends a run is a piece between those before it and those after it. -/
theorem piecesFrom_append_cons {s : Statement} (h : s.divides) (mode : Packing)
    (program rest : List Statement) :
    piecesFrom mode (program ++ s :: rest) =
      piecesFrom mode program ++
        .other s :: piecesFrom (modeAfter (program.foldl modeAfter mode) s) rest := by
  have hdetached : Detached (s :: rest) := by
    intro s' hs'
    rwa [← Option.some.inj hs']
  have hcons := piecesFrom_of_divides (program.foldl modeAfter mode) [] h rest
  rw [List.map_nil, List.nil_append, runPieces_nil, List.nil_append] at hcons
  rw [piecesFrom_append hdetached, hcons]

/-! ## Rows of cells -/

/-- A row of cells: the address of its first cell and the number of its cells. -/
structure Extent where
  start : Nat
  size : Nat
  deriving DecidableEq, Repr

/-- Whether an address is that of a cell of the row. -/
def Extent.Covers (x : Extent) (address : Nat) : Prop :=
  x.start ≤ address ∧ address < x.start + x.size

/-- The first row ends before the second starts. -/
def Extent.Before (x y : Extent) : Prop := x.start + x.size ≤ y.start

/-- Of rows that follow one another only one has a cell at an address. -/
theorem Extent.index_eq_of_covers {xs : List Extent} (h : xs.Pairwise Before) {i j : Nat}
    {x y : Extent} (hi : xs[i]? = some x) (hj : xs[j]? = some y) {address : Nat}
    (hx : x.Covers address) (hy : y.Covers address) : i = j := by
  obtain ⟨hilt, rfl⟩ := List.getElem?_eq_some_iff.1 hi
  obtain ⟨hjlt, rfl⟩ := List.getElem?_eq_some_iff.1 hj
  rw [List.pairwise_iff_getElem] at h
  obtain ⟨hx1, hx2⟩ := hx
  obtain ⟨hy1, hy2⟩ := hy
  rcases Nat.lt_trichotomy i j with hlt | heq | hlt
  · have hbefore : xs[i].start + xs[i].size ≤ xs[j].start := h i j hilt hjlt hlt
    omega
  · exact heq
  · have hbefore : xs[j].start + xs[j].size ≤ xs[i].start := h j i hjlt hilt hlt
    omega

/-! ## Placing pieces -/

/-- The number of cells of a piece. -/
def Piece.size (p : Piece) : Nat := p.block.cells.length

theorem Piece.size_of_isCode {p : Piece} (h : p.isCode) :
    p.size = (operands p.run).length + 1 := by
  rw [size, cells_block_of_isCode h, List.length_cons, List.length_map]

/-- The number of cells of pieces that follow one another. -/
def span (ps : List Piece) : Nat := (cells (ps.map Piece.block)).length

@[simp] theorem span_nil : span [] = 0 := rfl

theorem span_cons (p : Piece) (ps : List Piece) : span (p :: ps) = p.size + span ps := by
  rw [span, List.map_cons, cells_cons, List.length_append]
  rfl

theorem span_append (ps qs : List Piece) : span (ps ++ qs) = span ps + span qs := by
  rw [span, List.map_append, cells_append, List.length_append]
  rfl

/-- A piece and the address at which it starts. -/
structure Placed where
  start : Nat
  piece : Piece
  deriving DecidableEq, Repr

namespace Placed

def extent (x : Placed) : Extent := ⟨x.start, x.piece.size⟩

/-- The entries that a piece leaves in the map. -/
def entries (x : Placed) : List Entry := x.piece.block.entries.map (·.shift x.start)

end Placed

/-- Pieces that follow one another from an address on. -/
def placeFrom (base : Nat) : List Piece → List Placed
  | [] => []
  | p :: ps => ⟨base, p⟩ :: placeFrom (base + p.size) ps

theorem map_piece_placeFrom (base : Nat) (ps : List Piece) :
    (placeFrom base ps).map (·.piece) = ps := by
  induction ps generalizing base with
  | nil => rfl
  | cons p ps ih => rw [placeFrom, List.map_cons, ih]

theorem placeFrom_append (base : Nat) (ps qs : List Piece) :
    placeFrom base (ps ++ qs) = placeFrom base ps ++ placeFrom (base + span ps) qs := by
  induction ps generalizing base with
  | nil => rfl
  | cons p ps ih =>
    rw [List.cons_append, placeFrom, placeFrom, ih, span_cons, Nat.add_assoc]
    rfl

/-- A piece starts behind the pieces before it. -/
theorem mem_placeFrom_iff {base : Nat} {ps : List Piece} {x : Placed} :
    x ∈ placeFrom base ps ↔
      ∃ before after, ps = before ++ x.piece :: after ∧ x.start = base + span before := by
  constructor
  · intro h
    induction ps generalizing base with
    | nil => cases h
    | cons p ps ih =>
      rcases List.mem_cons.1 h with rfl | h
      · exact ⟨[], ps, rfl, rfl⟩
      · obtain ⟨before, after, rfl, hstart⟩ := ih h
        refine ⟨p :: before, after, rfl, ?_⟩
        rw [hstart, span_cons, Nat.add_assoc]
  · rintro ⟨before, after, rfl, hstart⟩
    rw [placeFrom_append, ← hstart]
    exact List.mem_append_right _ List.mem_cons_self

theorem piece_mem_of_mem_placeFrom {base : Nat} {ps : List Piece} {x : Placed}
    (h : x ∈ placeFrom base ps) : x.piece ∈ ps := by
  rw [← map_piece_placeFrom base ps]
  exact List.mem_map_of_mem h

theorem bounds_of_mem_placeFrom {base : Nat} {ps : List Piece} {x : Placed}
    (h : x ∈ placeFrom base ps) :
    base ≤ x.start ∧ x.start + x.piece.size ≤ base + span ps := by
  obtain ⟨before, after, rfl, hstart⟩ := mem_placeFrom_iff.1 h
  rw [span_append, span_cons]
  omega

/-- A piece ends before the next one starts. -/
theorem pairwise_placeFrom (base : Nat) (ps : List Piece) :
    (placeFrom base ps).Pairwise fun x y => x.extent.Before y.extent := by
  induction ps generalizing base with
  | nil => exact List.Pairwise.nil
  | cons p ps ih =>
    refine List.pairwise_cons.2 ⟨fun y hy => ?_, ih (base + p.size)⟩
    exact (bounds_of_mem_placeFrom hy).1

/-- There is no gap between pieces. -/
theorem exists_covers {base address : Nat} {ps : List Piece} (hbase : base ≤ address)
    (h : address < base + span ps) : ∃ x ∈ placeFrom base ps, x.extent.Covers address := by
  induction ps generalizing base with
  | nil =>
    rw [span_nil] at h
    omega
  | cons p ps ih =>
    rw [span_cons] at h
    by_cases hp : address < base + p.size
    · exact ⟨_, List.mem_cons_self, hbase, hp⟩
    · have hge : base + p.size ≤ address := Nat.le_of_not_lt hp
      have hlt : address < base + p.size + span ps := by omega
      obtain ⟨x, hx, hcovers⟩ := ih hge hlt
      exact ⟨x, List.mem_cons_of_mem _ hx, hcovers⟩

/-- Two pieces have no cell in common. -/
theorem eq_of_covers {base address : Nat} {ps : List Piece} {x y : Placed}
    (hx : x ∈ placeFrom base ps) (hy : y ∈ placeFrom base ps) (hxa : x.extent.Covers address)
    (hya : y.extent.Covers address) : x = y := by
  have hpairwise := List.pairwise_map.2 (pairwise_placeFrom base ps)
  obtain ⟨i, hi⟩ := List.mem_iff_getElem?.1 hx
  obtain ⟨j, hj⟩ := List.mem_iff_getElem?.1 hy
  have hij : i = j := Extent.index_eq_of_covers hpairwise
    (by rw [List.getElem?_map, hi]; rfl) (by rw [List.getElem?_map, hj]; rfl) hxa hya
  rw [hij, hj] at hi
  exact (Option.some.inj hi).symm

/-- A cell at the address between two parts of a layout is the first cell of its piece. -/
theorem start_eq_of_covers_span {ps qs : List Piece} {x : Placed} (hx : x ∈ placeFrom 0 (ps ++ qs))
    (hcovers : x.extent.Covers (span ps)) : x.start = span ps := by
  have hge : x.start ≤ span ps := hcovers.1
  have hlt : span ps < x.start + x.piece.size := hcovers.2
  rw [placeFrom_append, Nat.zero_add] at hx
  rcases List.mem_append.1 hx with hx | hx
  · have hbounds := bounds_of_mem_placeFrom hx
    omega
  · exact Nat.le_antisymm hge (bounds_of_mem_placeFrom hx).1

/-! ## What the places tell -/

/-- The code of pieces is at the starts of those that hold instructions. -/
theorem codeAddressesFrom_cells_map_block (base : Nat) (ps : List Piece) :
    codeAddressesFrom base (cells (ps.map Piece.block)) =
      ((placeFrom base ps).filter (·.piece.isCode)).map (·.start) := by
  induction ps generalizing base with
  | nil => rfl
  | cons p ps ih =>
    have hrest := ih (base + p.size)
    rw [Piece.size] at hrest
    rw [List.map_cons, cells_cons, codeAddressesFrom_append, Piece.codeAddressesFrom_block, hrest,
      placeFrom]
    cases hp : p.isCode <;> simp [hp, Piece.size]

theorem mem_codeAddressesFrom_iff {base c : Nat} {ps : List Piece} :
    c ∈ codeAddressesFrom base (cells (ps.map Piece.block)) ↔
      ∃ x ∈ placeFrom base ps, x.piece.isCode ∧ x.start = c := by
  simp only [codeAddressesFrom_cells_map_block, List.mem_map, List.mem_filter, and_assoc]

theorem bounds_of_mem_codeAddressesFrom {base c : Nat} {ps : List Piece}
    (h : c ∈ codeAddressesFrom base (cells (ps.map Piece.block))) :
    base ≤ c ∧ c < base + span ps := by
  obtain ⟨x, hx, hcode, rfl⟩ := mem_codeAddressesFrom_iff.1 h
  have hbounds := bounds_of_mem_placeFrom hx
  have hsize := Piece.size_of_isCode hcode
  omega

theorem getElem?_cells_of_mem_placeFrom {ps : List Piece} {x : Placed} (h : x ∈ placeFrom 0 ps)
    {k : Nat} (hk : k < x.piece.size) :
    (cells (ps.map Piece.block))[x.start + k]? = x.piece.block.cells[k]? := by
  obtain ⟨before, after, rfl, hstart⟩ := mem_placeFrom_iff.1 h
  rw [Nat.zero_add, span] at hstart
  rw [List.map_append, List.map_cons, cells_append, cells_cons, hstart,
    List.getElem?_append_right (Nat.le_add_right _ _), Nat.add_sub_cancel_left,
    List.getElem?_append_left hk]

/-- A word leaves entries for literals only. -/
theorem filter_entries_word (start : Nat) (group : Run) {kind : Entry.Kind} (h : kind ≠ .literal) :
    (Placed.entries ⟨start, .word group⟩).filter (·.kind == kind) = [] := by
  rw [List.filter_eq_nil_iff]
  intro e he
  obtain ⟨d, hd, rfl⟩ := List.mem_map.1 he
  obtain ⟨j, -, rfl⟩ := List.mem_mapIdx.1 hd
  simpa [Entry.shift] using h.symm

theorem entriesFrom_map_block (base : Nat) (ps : List Piece) :
    entriesFrom base (ps.map Piece.block) = (placeFrom base ps).flatMap Placed.entries := by
  induction ps generalizing base with
  | nil => rfl
  | cons p ps ih =>
    rw [List.map_cons, entriesFrom, placeFrom, List.flatMap_cons, ← ih]
    rfl

/-! ## The order of the map -/

namespace Piece

theorem offset_of_mem_entries_other {s : Statement} {e : Entry}
    (h : e ∈ (other s).block.entries) : e.offset = 0 := by
  cases s with
  | label _ | data _ | text _ | allocate _ =>
    obtain rfl := List.mem_singleton.1 h
    rfl
  | _ => cases h

/-- The entries of a piece are at the addresses of the piece or right behind it, and those that tell
what a cell holds at the addresses of its cells. -/
theorem offset_of_mem_entries_block {p : Piece} {e : Entry} (h : e ∈ p.block.entries) :
    e.offset ≤ p.size ∧ (e.tellsCell → e.offset < p.size) := by
  have hlit : e.tellsCell → e.offset < p.size := by
    intro htells
    obtain ⟨hpointer, hliteral⟩ := literal_of_mem_entries_block h
    have hkind : e.kind = .literal := by simpa [Entry.tellsCell, hpointer] using htells
    obtain ⟨o, ho, -⟩ := hliteral hkind
    exact (List.getElem?_eq_some_iff.1 ho).1
  refine ⟨?_, hlit⟩
  cases p with
  | word group =>
    obtain ⟨j, hj, rfl⟩ := List.mem_mapIdx.1 h
    exact Nat.le_of_lt (hlit rfl)
  | single i => cases h
  | other s =>
    rw [offset_of_mem_entries_other h]
    exact Nat.zero_le _

theorem pairwise_entries_block (p : Piece) : p.block.entries.Pairwise Entry.Precedes := by
  cases p with
  | word group =>
    rw [block, groupBlock, List.pairwise_iff_getElem]
    intro i j hi hj hij
    simp only [List.getElem_mapIdx, Entry.Precedes]
    omega
  | single i => exact List.Pairwise.nil
  | other s =>
    cases s with
    | label _ | data _ | text _ | allocate _ => exact List.pairwise_singleton _ _
    | _ => exact List.Pairwise.nil

/-- The map tells of the operands behind a word and of a number that is laid by itself. -/
theorem exists_tellsCell_iff {p : Piece} {k : Nat} :
    (∃ e ∈ p.block.entries, e.tellsCell ∧ e.offset = k) ↔
      k < p.size ∧ (p.packing? = some .packed ∧ 0 < k ∨ ∃ o, p = .other (.data o)) := by
  cases p with
  | word group =>
    rw [size_of_isCode rfl]
    constructor
    · rintro ⟨e, he, -, rfl⟩
      obtain ⟨j, hj, rfl⟩ := List.mem_mapIdx.1 he
      exact ⟨Nat.succ_lt_succ hj, .inl ⟨rfl, Nat.succ_pos j⟩⟩
    · rintro ⟨hlt, ⟨-, hpos⟩ | ⟨o, ho⟩⟩
      · obtain ⟨j, rfl⟩ := Nat.exists_eq_succ_of_ne_zero (Nat.pos_iff_ne_zero.1 hpos)
        refine ⟨_, List.mem_mapIdx.2 ⟨j, Nat.lt_of_succ_lt_succ hlt, rfl⟩, rfl, rfl⟩
      · cases ho
  | single i => simp [block, Block.single, packing?]
  | other s =>
    cases s with
    | data operand =>
      constructor
      · rintro ⟨e, he, -, rfl⟩
        obtain rfl := List.mem_singleton.1 he
        exact ⟨Nat.zero_lt_one, .inr ⟨operand, rfl⟩⟩
      · rintro ⟨hlt, -⟩
        have hk : k = 0 := Nat.lt_one_iff.1 hlt
        exact ⟨_, List.mem_singleton_self _, rfl, hk.symm⟩
    | _ => simp [block, statementBlock, Block.label, Block.text, Block.zeros, Block.empty, packing?,
        Entry.tellsCell]

end Piece

/-- The map of a layout is in the order of the offsets. -/
theorem pairwise_entriesFrom (base : Nat) (ps : List Piece) :
    (entriesFrom base (ps.map Piece.block)).Pairwise Entry.Precedes := by
  rw [entriesFrom_map_block, List.pairwise_flatMap]
  constructor
  · intro x _
    rw [Placed.entries, List.pairwise_map]
    refine x.piece.pairwise_entries_block.imp fun {e e'} h => ?_
    exact ⟨Nat.add_le_add_left h.1 _, fun hlit hlit' => Nat.add_lt_add_left (h.2 hlit hlit') _⟩
  · refine (pairwise_placeFrom base ps).imp fun {x y} hxy => ?_
    intro e he e' he'
    obtain ⟨d, hd, rfl⟩ := List.mem_map.1 he
    obtain ⟨d', -, rfl⟩ := List.mem_map.1 he'
    obtain ⟨hle, hlt⟩ := Piece.offset_of_mem_entries_block hd
    have hbefore : x.start + x.piece.size ≤ y.start := hxy
    simp only [Entry.Precedes, Entry.shift]
    refine ⟨by omega, fun hlit _ => ?_⟩
    have := hlt hlit
    omega

end Layout

end PackedStack
