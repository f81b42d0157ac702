import Mathlib.Data.List.Basic
import PackedStack.Proofs.Layout.Pieces
import PackedStack.Proofs.Source.Statements

/-!
# What a piece lays

A piece with instructions lays one code cell and behind it the operands of the instructions
(`cells_block_of_isCode`); any other piece lays no code (`cells_block_other`). The operands in the
cells of a piece are those of its statements, in the same order, next to words that need no
resolving (`filterMap_cells_block`), and an entry for a literal shows the text of the operand in the
cell at its offset (`literal_of_mem_entries_block`).
-/

namespace PackedStack.Layout

namespace Piece

/-- The instructions of a piece. -/
def run : Piece → Run
  | word group => group
  | single i => [i]
  | other _ => []

/-- Whether a piece holds instructions. -/
def isCode : Piece → Bool
  | word _ | single _ => true
  | other _ => false

/-- A word holds at most four instructions, of which only the last leaves it, and a statement that
stands for itself is one that ends a run. -/
def Proper : Piece → Prop
  | word group => group.length ≤ 4 ∧ group.Pairwise fun i _ => i.opcode.isFlow = false
  | single _ => True
  | other s => s.divides

theorem Proper.filterMap_statements {p : Piece} (h : p.Proper) :
    p.statements.filterMap (·.instruction?) = p.run := by
  cases p with
  | word group => simp [statements, run, Statement.instruction?, List.filterMap_map]
  | single i => rfl
  | other s =>
    cases s with
    | instruction i => cases h
    | _ => rfl

theorem Proper.length_run_le {p : Piece} (h : p.Proper) : p.run.length ≤ 4 := by
  cases p with
  | word group => exact h.1
  | single i => show 1 ≤ 4; decide
  | other s => exact Nat.zero_le 4

theorem Proper.pairwise_run {p : Piece} (h : p.Proper) :
    p.run.Pairwise fun i _ => i.opcode.isFlow = false := by
  cases p with
  | word group => exact h.2
  | single i => exact List.pairwise_singleton _ i
  | other s => exact List.Pairwise.nil

theorem run_of_not_isCode {p : Piece} (h : p.isCode = false) : p.run = [] := by
  cases p with
  | other s => rfl
  | _ => cases h

/-! ## Cells -/

theorem cells_block_of_isCode {p : Piece} (h : p.isCode) :
    p.block.cells = .code (.value (Word.encode (.ofList .nop (p.run.map (·.opcode))))) ::
      (operands p.run).map .data := by
  cases p with
  | word group => rw [block, ← group_eq_groupBlock]; rfl
  | single i =>
    have hword : BitVec.ofNat 32 i.opcode.code.toNat =
        Word.encode (.ofList .nop [i.opcode]) := by
      simp [Word.encode, Word.pack, Slots.map, Slots.ofList, Opcode.code, Opcode.ctorIdx]
    cases hi : i.operand <;> simp [block, Block.single, run, operands, hword, hi]
  | other s => cases h

/-- What the cells of a statement that is no instruction hold. -/
def contents : Statement → List Operand
  | .data operand => [operand]
  | .text content => content.toList.map (fun c => .value (BitVec.ofNat 32 c.toNat)) ++ [.value 0]
  | .allocate count => List.replicate count (.value 0)
  | _ => []

theorem cells_block_other (s : Statement) : (other s).block.cells = (contents s).map .data := by
  cases s with
  | text content => simp [block, statementBlock, Block.text, contents]
  | allocate count => simp [block, statementBlock, Block.zeros, contents]
  | _ => rfl

theorem codeAddressesFrom_map_data (base : Nat) (os : List Operand) :
    codeAddressesFrom base (os.map Cell.data) = [] := by
  simp [codeAddressesFrom, List.zipIdx_map, List.filter_map, Function.comp_def, Cell.data]

/-- The code of a piece, if it has any, is its first cell. -/
theorem codeAddressesFrom_block (base : Nat) (p : Piece) :
    codeAddressesFrom base p.block.cells = if p.isCode then [base] else [] := by
  cases hcode : p.isCode with
  | true =>
    rw [cells_block_of_isCode hcode, ← List.singleton_append, codeAddressesFrom_append,
      codeAddressesFrom_map_data]
    rfl
  | false =>
    cases p with
    | other s => rw [cells_block_other, codeAddressesFrom_map_data]; rfl
    | _ => cases hcode

/-- What can be found among the operands of the statements of a piece but never in a word is found
in its cells, in the same order. -/
theorem filterMap_cells_block {p : Piece} (h : p.Proper) {β : Type} {f : Operand → Option β}
    (hf : ∀ w, f (.value w) = none) :
    p.block.cells.filterMap (fun c => f c.content) =
      (p.statements.flatMap (·.operands)).filterMap f := by
  have hdata : ∀ os : List Operand,
      (os.map Cell.data).filterMap (fun c => f c.content) = os.filterMap f := by
    intro os
    rw [List.filterMap_map]
    rfl
  have hcode : ∀ (w : Word) (os : List Operand),
      (Cell.code (.value w) :: os.map Cell.data).filterMap (fun c => f c.content) =
        os.filterMap f := by
    intro w os
    rw [← hdata os]
    exact List.filterMap_cons_none (hf w)
  have hrun : ∀ is : Run, (is.map Statement.instruction).flatMap (·.operands) = operands is := by
    intro is
    rw [List.flatMap_map, operands, List.filterMap_eq_flatMap_toList]
    rfl
  cases p with
  | word group =>
    rw [cells_block_of_isCode rfl, hcode, statements, hrun]
    rfl
  | single i =>
    rw [cells_block_of_isCode rfl, hcode, ← hrun]
    rfl
  | other s =>
    rw [cells_block_other, hdata]
    cases s with
    | data operand => rfl
    | text content => simp [contents, statements, Statement.operands, hf, List.filterMap_map]
    | allocate count => simp [contents, statements, Statement.operands, hf]
    | instruction i => cases h
    | _ => rfl

/-! ## Entries -/

/-- An entry that a piece leaves in the map is no pointer, and one for a literal shows the operand
in the cell at its offset. -/
theorem literal_of_mem_entries_block {p : Piece} {e : Entry} (h : e ∈ p.block.entries) :
    e.kind ≠ .pointer ∧
      (e.kind = .literal → ∃ o, p.block.cells[e.offset]? = some (.data o) ∧ e.value = o.text) := by
  cases p with
  | word group =>
    obtain ⟨j, o, hj, rfl⟩ : ∃ j o, (operands group)[j]? = some o ∧
        e = ⟨.literal, o.text, j + 1⟩ := by
      obtain ⟨j, hj, rfl⟩ := List.mem_mapIdx.1 h
      exact ⟨j, _, List.getElem?_eq_getElem hj, rfl⟩
    refine ⟨nofun, fun _ => ⟨o, ?_, rfl⟩⟩
    rw [cells_block_of_isCode rfl, List.getElem?_cons_succ, List.getElem?_map, run, hj]
    rfl
  | single i => cases h
  | other s =>
    cases s with
    | data operand =>
      obtain rfl := List.mem_singleton.1 h
      exact ⟨nofun, fun _ => ⟨operand, rfl, rfl⟩⟩
    | label name | text content | allocate count =>
      obtain rfl := List.mem_singleton.1 h
      exact ⟨nofun, nofun⟩
    | _ => cases h

end Piece

/-! ## All pieces of a program -/

theorem proper_of_mem_runPieces {mode : Packing} {run : Run} {p : Piece}
    (h : p ∈ runPieces mode run) : p.Proper := by
  cases mode with
  | packed =>
    obtain ⟨group, hgroup, rfl⟩ := List.mem_map.1 h
    exact ⟨length_le_of_mem_groups hgroup, pairwise_of_mem_groups hgroup⟩
  | unpacked =>
    obtain ⟨i, -, rfl⟩ := List.mem_map.1 h
    trivial

theorem proper_of_mem_piecesFrom {mode : Packing} {program : List Statement} {p : Piece}
    (h : p ∈ piecesFrom mode program) : p.Proper := by
  induction program generalizing mode with
  | nil =>
    rcases List.mem_append.1 h with hrun | hnil
    · exact proper_of_mem_runPieces hrun
    · cases hnil
  | cons s rest ih =>
    rcases List.mem_append.1 h with hrun | hsections
    · exact proper_of_mem_runPieces hrun
    · cases hs : s.divides with
      | true =>
        rw [divide_of_divides hs] at hsections
        rcases List.mem_cons.1 hsections with rfl | hrest
        · exact hs
        · exact ih hrest
      | false =>
        -- a statement that ends no run leaves the sections of the rest as they are
        have hrest : p ∈ sectionPieces mode (divide rest).2 := by
          cases s with
          | instruction i => exact hsections
          | output path => exact hsections
          | _ => cases hs
        exact ih (List.mem_append_right _ hrest)

/-- The instructions of a program are those of its pieces. -/
theorem run_piecesFrom (mode : Packing) (program : List Statement) :
    (piecesFrom mode program).flatMap Piece.run = program.filterMap (·.instruction?) := by
  have hplaced : program.filterMap (·.instruction?) =
      (program.filter (·.isPlaced)).filterMap (·.instruction?) := by
    rw [List.filterMap_filter]
    refine List.filterMap_congr fun s _ => ?_
    cases s <;> rfl
  rw [hplaced, ← statements_piecesFrom mode, List.filterMap_flatMap]
  exact List.flatMap_congr fun p hp => (proper_of_mem_piecesFrom hp).filterMap_statements.symm

theorem flatMap_operands_filter_isPlaced (program : List Statement) :
    (program.filter (·.isPlaced)).flatMap (·.operands) = program.flatMap (·.operands) := by
  induction program with
  | nil => rfl
  | cons s rest ih =>
    cases s with
    | output path => exact ih
    | _ => rw [List.filter_cons_of_pos rfl, List.flatMap_cons, List.flatMap_cons, ih]

/-- What can be found among the operands of a program but never in a word is found in the cells of
its layout, in the same order. -/
theorem filterMap_cells_blocks (program : List Statement) {β : Type} {f : Operand → Option β}
    (hf : ∀ w, f (.value w) = none) :
    (cells (blocks program)).filterMap (fun c => f c.content) =
      (program.flatMap (·.operands)).filterMap f := by
  rw [← flatMap_operands_filter_isPlaced, ← statements_piecesFrom .packed, List.flatMap_assoc,
    blocks_eq_map_pieces, cells, List.flatMap_map, List.filterMap_flatMap, List.filterMap_flatMap]
  exact List.flatMap_congr fun p hp => Piece.filterMap_cells_block (proper_of_mem_piecesFrom hp) hf

/-- No entry of a layout is a pointer, and one for a literal shows the operand in the cell at its
offset. -/
theorem literal_of_mem_entriesFrom {program : List Statement} {e : Entry}
    (h : e ∈ entriesFrom 0 (blocks program)) :
    e.kind ≠ .pointer ∧ (e.kind = .literal →
      ∃ o, (cells (blocks program))[e.offset]? = some (.data o) ∧ e.value = o.text) := by
  obtain ⟨before, b, after, e', hblocks, he', rfl⟩ := exists_of_mem_entriesFrom h
  have hb : b ∈ (piecesFrom .packed program).map Piece.block := by
    rw [← blocks_eq_map_pieces, hblocks]
    exact List.mem_append_right _ List.mem_cons_self
  obtain ⟨p, -, rfl⟩ := List.mem_map.1 hb
  obtain ⟨hkind, hliteral⟩ := Piece.literal_of_mem_entries_block he'
  refine ⟨hkind, fun hlit => ?_⟩
  obtain ⟨o, ho, hvalue⟩ := hliteral hlit
  refine ⟨o, ?_, hvalue⟩
  have hlt : e'.offset < p.block.cells.length := (List.getElem?_eq_some_iff.1 ho).1
  have hoffset : (e'.shift (0 + (cells before).length)).offset =
      (cells before).length + e'.offset := by
    rw [Entry.shift, Nat.zero_add]
  rw [hblocks, cells_append, cells_cons, hoffset, List.getElem?_append_right (Nat.le_add_right _ _),
    Nat.add_sub_cancel_left, List.getElem?_append_left hlt, ho]

end PackedStack.Layout
