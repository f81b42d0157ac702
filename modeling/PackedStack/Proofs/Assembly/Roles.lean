import PackedStack.Proofs.Assembly.Disassembly
import PackedStack.Proofs.Assembly.Places

/-!
# What every cell is for

A cell of an assembly is a word of opcodes, an operand of such a word, or a cell of a statement that
lays data (`Image.HasRole`). Words and operands are told from the image alone, by what its code
decodes to; the data is where the first pass laid it. A word and its operands are the cells of a
piece with instructions (`role_of_isCode`), and any other piece with cells is data
(`role_of_not_isCode`). As pieces neither overlap nor leave gaps, every cell has a role
(`exists_role`) and only one (`role_unique`).
-/

namespace PackedStack

open Layout (Piece Extent Placed)

/-- What the cell at an address is for. -/
inductive Role where
  /-- A word of opcodes. -/
  | code
  /-- The operand with the given number, counted from zero, of the word at an address. -/
  | operand (word number : Nat)
  /-- The cell with the given number, counted from zero, of a block of data. Blocks are numbered in
  the order of the program. -/
  | data (block number : Nat)
  deriving DecidableEq, Repr

/-- Whether the cell at an address has a role, in an image with the given blocks of data. -/
def Image.HasRole (image : Image Word) (blocks : List (Statement × Extent)) (address : Nat) :
    Role → Prop
  | .code => address ∈ image.codeAddresses
  | .operand word number =>
    word ∈ image.codeAddresses ∧ number < image.operandCount word ∧ address = word + 1 + number
  | .data block number =>
    ∃ b, blocks[block]? = some b ∧ number < b.2.size ∧ address = b.2.start + number

theorem Image.exists_hasRole_data (image : Image Word) {blocks : List (Statement × Extent)}
    {b : Statement × Extent} (hb : b ∈ blocks) {address : Nat} (haddress : b.2.Covers address) :
    ∃ block, blocks[block]? = some b ∧
      image.HasRole blocks address (.data block (address - b.2.start)) := by
  obtain ⟨block, hblock⟩ := List.mem_iff_getElem?.1 hb
  obtain ⟨hge, hlt⟩ := haddress
  exact ⟨block, hblock, b, hblock, by omega, by omega⟩

/-! ## Words -/

/-- As many opcodes push a literal as there are operands. -/
theorem Layout.count_lit_eq_length_operands {run : Layout.Run} (h : ∀ i ∈ run, i.Proper) :
    (run.map (·.opcode)).count .lit = (operands run).length := by
  induction run with
  | nil => rfl
  | cons i run ih =>
    have hi : i.Proper := h i List.mem_cons_self
    have ih := ih fun j hj => h j (List.mem_cons_of_mem i hj)
    obtain ⟨opcode, operand⟩ := i
    cases operand with
    | some o =>
      obtain rfl : opcode = .lit := hi.1 rfl
      simpa [operands] using ih
    | none =>
      have hne : opcode ≠ .lit := fun heq => by simpa [heq] using hi.2 heq
      simpa [operands, hne] using ih

namespace Assembly.MadeFrom

variable {a : Assembly} {program : List (Line × Statement)}

section

variable (h : a.MadeFrom program)

include h

theorem size_image :
    a.image.size = Layout.span (Layout.piecesFrom .packed (State.startup program)) := by
  rw [← Image.length_toList, h.image, List.length_map, Layout.blocks_eq_map_pieces]
  rfl

theorem mem_codeAddresses_iff {c : Nat} :
    c ∈ a.image.codeAddresses ↔ ∃ x ∈ State.places program, x.piece.isCode ∧ x.start = c := by
  rw [h.codeAddresses_eq, Layout.mem_codeAddressesFrom_iff]
  rfl

/-- The first cell of a piece with instructions holds their opcodes. -/
theorem contents_start {x : Placed} (hx : x ∈ State.places program) (hcode : x.piece.isCode) :
    a.image.contents[x.start]? =
      some (Word.encode (.ofList .nop (x.piece.run.map (·.opcode)))) := by
  have hpos : 0 < x.piece.size := by
    rw [Piece.size_of_isCode hcode]
    omega
  have hcell := Layout.getElem?_cells_of_mem_placeFrom hx hpos
  rw [Nat.add_zero, Piece.cells_block_of_isCode hcode, List.getElem?_cons_zero] at hcell
  rw [Image.contents, h.image, Layout.blocks_eq_map_pieces, List.getElem?_map, List.getElem?_map,
    hcell]
  rfl

end

/-- The opcodes of a piece fit into a word, and the slots that are left do nothing. -/
theorem toList_ofList_run {x : Placed} (hx : x ∈ State.places program) :
    (Slots.ofList .nop (x.piece.run.map (·.opcode))).toList =
      x.piece.run.map (·.opcode) ++ List.replicate (4 - x.piece.run.length) .nop := by
  have hproper := Layout.proper_of_mem_piecesFrom (Layout.piece_mem_of_mem_placeFrom hx)
  rw [Slots.toList_ofList _ (by rw [List.length_map]; exact hproper.length_run_le), List.length_map]

/-- Code decodes, and behind an opcode that leaves its word nothing is done in the word. -/
theorem exists_slots_of_code (h : a.MadeFrom program) {c : Nat} (hc : c ∈ a.image.codeAddresses) :
    ∃ w slots, a.image.contents[c]? = some w ∧ Word.decode? w = some slots ∧
      slots.toList.Pairwise fun o o' => o.isFlow → o' = .nop := by
  obtain ⟨x, hx, hcode, rfl⟩ := h.mem_codeAddresses_iff.1 hc
  have hproper := Layout.proper_of_mem_piecesFrom (Layout.piece_mem_of_mem_placeFrom hx)
  refine ⟨_, _, h.contents_start hx hcode, Word.decode?_encode _, ?_⟩
  rw [toList_ofList_run hx, List.pairwise_append]
  refine ⟨?_, ?_, ?_⟩
  · rw [List.pairwise_map]
    refine hproper.pairwise_run.imp fun hstraight hflow => ?_
    rw [hstraight] at hflow
    cases hflow
  · exact List.pairwise_replicate.2 (.inr fun _ => rfl)
  · intro o _ o' ho' _
    exact List.eq_of_mem_replicate ho'

section

variable (h : a.MadeFrom program)
  (hparse : ∀ p ∈ program, Statement.parse p.1.text = .ok p.2)

include h hparse

/-- A piece with instructions has a word and the operands that the word asks for. -/
theorem size_eq_operandCount {x : Placed} (hx : x ∈ State.places program)
    (hcode : x.piece.isCode) : x.piece.size = a.image.operandCount x.start + 1 := by
  have hlits := Layout.count_lit_eq_length_operands fun i hi =>
    State.proper_of_mem_run hparse (Layout.piece_mem_of_mem_placeFrom hx) hi
  have hword := h.contents_start hx hcode
  rw [Image.contents, List.getElem?_map, Option.map_eq_some_iff] at hword
  obtain ⟨cell, hcell, hcontent⟩ := hword
  rw [Image.toList, Array.getElem?_toList] at hcell
  rw [Piece.size_of_isCode hcode, ← hlits]
  simp [Image.operandCount, hcell, hcontent, toList_ofList_run hx, List.count_replicate]

end

/-! ## The place of a cell with a role -/

theorem exists_place_of_code (h : a.MadeFrom program) {blocks : List (Statement × Extent)}
    {address : Nat} (hrole : a.image.HasRole blocks address .code) :
    ∃ x ∈ State.places program, x.piece.isCode ∧ x.start = address ∧ x.extent.Covers address := by
  obtain ⟨x, hx, hcode, rfl⟩ := h.mem_codeAddresses_iff.1 hrole
  have hsize := Piece.size_of_isCode hcode
  have hlt : x.start < x.start + x.piece.size := by omega
  exact ⟨x, hx, hcode, rfl, Nat.le_refl _, hlt⟩

theorem exists_place_of_operand (h : a.MadeFrom program)
    (hparse : ∀ p ∈ program, Statement.parse p.1.text = .ok p.2)
    {blocks : List (Statement × Extent)} {address word number : Nat}
    (hrole : a.image.HasRole blocks address (.operand word number)) :
    ∃ x ∈ State.places program, x.piece.isCode ∧ x.start = word ∧ x.extent.Covers address := by
  obtain ⟨hword, hnumber, rfl⟩ := hrole
  obtain ⟨x, hx, hcode, rfl⟩ := h.mem_codeAddresses_iff.1 hword
  have hsize := h.size_eq_operandCount hparse hx hcode
  have hle : x.start ≤ x.start + 1 + number := by omega
  have hlt : x.start + 1 + number < x.start + x.piece.size := by omega
  exact ⟨x, hx, hcode, rfl, hle, hlt⟩

theorem exists_place_of_data {image : Image Word} {address block number : Nat}
    (hrole : image.HasRole (State.initial.dataBlocks program) address (.data block number)) :
    ∃ x ∈ State.places program, ∃ b, (State.initial.dataBlocks program)[block]? = some b ∧
      x.dataBlock? = some b ∧ x.extent.Covers address := by
  obtain ⟨b, hb, hnumber, rfl⟩ := hrole
  have hmem := List.mem_of_getElem? hb
  rw [State.dataBlocks_eq_places] at hmem
  obtain ⟨x, hx, hxb⟩ := List.mem_filterMap.1 hmem
  have hextent : b.2 = x.extent := (Placed.dataBlock?_eq_some_iff.1 hxb).2.2
  refine ⟨x, hx, b, hb, hxb, ?_⟩
  rw [← hextent]
  exact ⟨Nat.le_add_right _ _, Nat.add_lt_add_left hnumber _⟩

/-- A piece with cells but without instructions lays data. -/
theorem exists_dataBlock? {x : Placed} (hcode : x.piece.isCode = false) {address : Nat}
    (haddress : x.extent.Covers address) : ∃ b, x.dataBlock? = some b ∧ b.2 = x.extent := by
  obtain ⟨start, piece⟩ := x
  cases piece with
  | other s =>
    have hsize := Piece.size_other s
    cases hdata : s.dataSize? with
    | none =>
      have hlt : start < start + (Piece.other s).size :=
        Nat.lt_of_le_of_lt haddress.1 haddress.2
      rw [hsize, hdata] at hlt
      exact absurd hlt (Nat.lt_irrefl start)
    | some size =>
      refine ⟨(s, ⟨start, size⟩), by simp [Placed.dataBlock?, hdata], ?_⟩
      rw [Placed.extent, hsize, hdata]
      rfl
  | _ => cases hcode

/-! ## One role for each cell -/

section

variable (h : a.MadeFrom program)
  (hparse : ∀ p ∈ program, Statement.parse p.1.text = .ok p.2)

include h hparse

/-- A cell of a piece with instructions is the word or one of its operands. -/
theorem role_of_isCode {x : Placed} (hx : x ∈ State.places program) (hcode : x.piece.isCode)
    {address : Nat} (haddress : x.extent.Covers address) {role : Role}
    (hrole : a.image.HasRole (State.initial.dataBlocks program) address role) :
    role = if address = x.start then .code else .operand x.start (address - x.start - 1) := by
  cases role with
  | code =>
    obtain ⟨y, hy, -, hstart, hcovers⟩ := h.exists_place_of_code hrole
    obtain rfl := Layout.eq_of_covers hx hy haddress hcovers
    rw [if_pos hstart.symm]
  | operand word number =>
    obtain ⟨y, hy, -, hstart, hcovers⟩ := h.exists_place_of_operand hparse hrole
    obtain rfl := Layout.eq_of_covers hx hy haddress hcovers
    obtain ⟨-, -, rfl⟩ := hrole
    rw [if_neg (by omega), hstart, Nat.add_assoc, Nat.add_sub_cancel_left, Nat.add_sub_cancel_left]
  | data block number =>
    obtain ⟨y, hy, b, -, hyb, hcovers⟩ := exists_place_of_data hrole
    obtain rfl := Layout.eq_of_covers hx hy haddress hcovers
    rw [(Placed.dataBlock?_eq_some_iff.1 hyb).1] at hcode
    cases hcode

/-- A cell of any other piece is data. -/
theorem role_of_not_isCode {x : Placed} (hx : x ∈ State.places program)
    (hcode : x.piece.isCode = false) {address : Nat} (haddress : x.extent.Covers address)
    {role : Role} (hrole : a.image.HasRole (State.initial.dataBlocks program) address role) :
    ∃ block number, role = .data block number := by
  cases role with
  | code =>
    obtain ⟨y, hy, hycode, -, hcovers⟩ := h.exists_place_of_code hrole
    rw [← Layout.eq_of_covers hx hy haddress hcovers, hcode] at hycode
    cases hycode
  | operand word number =>
    obtain ⟨y, hy, hycode, -, hcovers⟩ := h.exists_place_of_operand hparse hrole
    rw [← Layout.eq_of_covers hx hy haddress hcovers, hcode] at hycode
    cases hycode
  | data block number => exact ⟨block, number, rfl⟩

/-- Every cell of a piece has a role. -/
theorem exists_role_of_covers {x : Placed} (hx : x ∈ State.places program) {address : Nat}
    (haddress : x.extent.Covers address) :
    ∃ role, a.image.HasRole (State.initial.dataBlocks program) address role := by
  cases hcode : x.piece.isCode with
  | true =>
    have hge : x.start ≤ address := haddress.1
    have hlt : address < x.start + x.piece.size := haddress.2
    have hsize := h.size_eq_operandCount hparse hx hcode
    have hmem := h.mem_codeAddresses_iff.2 ⟨x, hx, hcode, rfl⟩
    by_cases heq : address = x.start
    · exact ⟨.code, heq ▸ hmem⟩
    · exact ⟨.operand x.start (address - x.start - 1), hmem, by omega, by omega⟩
  | false =>
    obtain ⟨b, hb, hextent⟩ := exists_dataBlock? hcode haddress
    have hmem : b ∈ State.initial.dataBlocks program := by
      rw [State.dataBlocks_eq_places]
      exact List.mem_filterMap.2 ⟨x, hx, hb⟩
    obtain ⟨block, -, hrole⟩ := a.image.exists_hasRole_data hmem (hextent ▸ haddress)
    exact ⟨_, hrole⟩

theorem exists_role {address : Nat} (haddress : address < a.image.size) :
    ∃ role, a.image.HasRole (State.initial.dataBlocks program) address role := by
  rw [h.size_image, ← Nat.zero_add (Layout.span _)] at haddress
  obtain ⟨x, hx, hcovers⟩ := Layout.exists_covers (Nat.zero_le address) haddress
  exact h.exists_role_of_covers hparse hx hcovers

theorem exists_place_of_hasRole {address : Nat} {role : Role}
    (hrole : a.image.HasRole (State.initial.dataBlocks program) address role) :
    ∃ x ∈ State.places program, x.extent.Covers address := by
  cases role with
  | code =>
    obtain ⟨x, hx, -, -, hcovers⟩ := h.exists_place_of_code hrole
    exact ⟨x, hx, hcovers⟩
  | operand word number =>
    obtain ⟨x, hx, -, -, hcovers⟩ := h.exists_place_of_operand hparse hrole
    exact ⟨x, hx, hcovers⟩
  | data block number =>
    obtain ⟨x, hx, -, -, -, hcovers⟩ := exists_place_of_data hrole
    exact ⟨x, hx, hcovers⟩

/-- Only cells of the image have a role. -/
theorem lt_size_of_hasRole {address : Nat} {role : Role}
    (hrole : a.image.HasRole (State.initial.dataBlocks program) address role) :
    address < a.image.size := by
  obtain ⟨x, hx, hcovers⟩ := h.exists_place_of_hasRole hparse hrole
  have hend := (Layout.bounds_of_mem_placeFrom hx).2
  rw [h.size_image, ← Nat.zero_add (Layout.span _)]
  exact Nat.lt_of_lt_of_le hcovers.2 hend

end

/-- A block of data ends before the next one starts. -/
theorem pairwise_dataBlocks (program : List (Line × Statement)) :
    ((State.initial.dataBlocks program).map (·.2)).Pairwise Extent.Before := by
  rw [List.pairwise_map, State.dataBlocks_eq_places]
  refine (Layout.pairwise_placeFrom 0 _).filterMap _ ?_
  intro x y hxy b hb c hc
  rwa [(Placed.dataBlock?_eq_some_iff.1 hb).2.2, (Placed.dataBlock?_eq_some_iff.1 hc).2.2]

/-- A cell has only one role. -/
theorem role_unique (h : a.MadeFrom program)
    (hparse : ∀ p ∈ program, Statement.parse p.1.text = .ok p.2) {address : Nat}
    {role role' : Role}
    (hrole : a.image.HasRole (State.initial.dataBlocks program) address role)
    (hrole' : a.image.HasRole (State.initial.dataBlocks program) address role') : role = role' := by
  obtain ⟨x, hx, hcovers⟩ := h.exists_place_of_hasRole hparse hrole
  cases hcode : x.piece.isCode with
  | true =>
    rw [h.role_of_isCode hparse hx hcode hcovers hrole,
      h.role_of_isCode hparse hx hcode hcovers hrole']
  | false =>
    obtain ⟨i, k, rfl⟩ := h.role_of_not_isCode hparse hx hcode hcovers hrole
    obtain ⟨j, l, rfl⟩ := h.role_of_not_isCode hparse hx hcode hcovers hrole'
    obtain ⟨b, hb, hk, hbk⟩ := hrole
    obtain ⟨c, hc, hl, hcl⟩ := hrole'
    have hbcovers : b.2.Covers address := ⟨by omega, by omega⟩
    have hccovers : c.2.Covers address := ⟨by omega, by omega⟩
    obtain rfl : i = j := Extent.index_eq_of_covers (pairwise_dataBlocks program)
      (by rw [List.getElem?_map, hb]; rfl) (by rw [List.getElem?_map, hc]; rfl) hbcovers hccovers
    obtain rfl : b = c := Option.some.inj (hb.symm.trans hc)
    rw [show k = l by omega]

end Assembly.MadeFrom

end PackedStack
