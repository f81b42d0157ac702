import PackedStack.Assembly.Disassembly
import PackedStack.Proofs.Assembly.SecondPass

/-!
# Disassembling what was assembled

A code cell with its operands behind it reads back as the instructions it was laid for, up to
instructions that do nothing (`Instruction.withOperands_append`). Reading the pieces of a layout one
after the other therefore gives back the instructions of the program
(`Image.exists_mapM_instructionsAt?`), and so does disassembling an assembly
(`disassemble?_of_assemble`).
-/

namespace PackedStack

namespace Instruction

section

variable {α : Type}

theorem effective_append (is js : List (Instruction α)) :
    effective (is ++ js) = effective is ++ effective js :=
  List.filter_append ..

theorem effective_replicate_nop (n : Nat) :
    effective (List.replicate n (⟨.nop, none⟩ : Instruction α)) = [] := by
  simp [effective]

theorem withOperands_replicate_nop (n : Nat) (operands : List α) :
    withOperands (List.replicate n .nop) operands = List.replicate n ⟨.nop, none⟩ := by
  induction n with
  | zero => rfl
  | succ n ih => rw [List.replicate_succ, List.replicate_succ, withOperands, ih]; nofun

/-- The operands of some instructions find their opcodes again. -/
theorem withOperands_append {is : List (Instruction α)} (h : ∀ i ∈ is, i.Proper) (n : Nat)
    (rest : List α) :
    withOperands (is.map (·.opcode) ++ List.replicate n .nop) (is.filterMap (·.operand) ++ rest) =
      is ++ List.replicate n ⟨.nop, none⟩ := by
  induction is with
  | nil => exact withOperands_replicate_nop n rest
  | cons i is ih =>
    have hi : i.Proper := h i List.mem_cons_self
    have ih := ih fun j hj => h j (List.mem_cons_of_mem i hj)
    obtain ⟨opcode, operand⟩ := i
    cases operand with
    | some x =>
      obtain rfl : opcode = .lit := hi.1 rfl
      simp [withOperands, ih]
    | none =>
      have hne : opcode ≠ .lit := fun heq => by simpa [heq] using hi.2 heq
      simp [withOperands, ih, hne]

end

end Instruction

namespace Image

/-- A word with its operands behind it reads back as the instructions it was laid for. -/
theorem instructionsAt?_of_toList {image : Image Word} {before after : List (Cell Word)}
    {is : List (Instruction Word)} (hlen : is.length ≤ 4) (hproper : ∀ i ∈ is, i.Proper)
    (h : image.toList = before ++ (.code (Word.encode (.ofList .nop (is.map (·.opcode)))) ::
      (is.filterMap (·.operand)).map .data ++ after)) :
    image.instructionsAt? before.length =
      some (is ++ List.replicate (4 - is.length) ⟨.nop, none⟩) := by
  have hcell : image.cells[before.length]? =
      some (.code (Word.encode (.ofList .nop (is.map (·.opcode))))) := by
    rw [← Array.getElem?_toList, ← Image.toList, h, List.getElem?_append_right (Nat.le_refl _),
      Nat.sub_self]
    rfl
  have hrest : image.contents.drop (before.length + 1) =
      is.filterMap (·.operand) ++ after.map (·.content) := by
    have hsplit : image.contents =
        (before.map (·.content) ++ [Word.encode (.ofList .nop (is.map (·.opcode)))]) ++
          (is.filterMap (·.operand) ++ after.map (·.content)) := by
      rw [contents, h]
      simp [Cell.code, Cell.data, Function.comp_def]
    rw [hsplit, List.drop_left' (by simp)]
  have hslots : (Slots.ofList Opcode.nop (is.map (·.opcode))).toList =
      is.map (·.opcode) ++ List.replicate (4 - is.length) .nop := by
    rw [Slots.toList_ofList _ (by rwa [List.length_map]), List.length_map]
  simp only [instructionsAt?, hcell, Cell.code, hrest]
  simp [hslots, Instruction.withOperands_append hproper]

/-- Resolving changes no code into data or data into code. -/
theorem codeAddressesFrom_map_valueIn (labels : Labels) (base : Nat) (cells : List (Cell Operand)) :
    Layout.codeAddressesFrom base (cells.map (Cell.valueIn labels)) =
      Layout.codeAddressesFrom base cells := by
  rw [Layout.codeAddressesFrom, List.zipIdx_map, List.filter_map, List.map_map]
  rfl

/-- A piece with instructions reads back at the address of its code. -/
theorem instructionsAt?_of_piece {image : Image Word} {labels : Labels} {p : Layout.Piece}
    (hp : p.Proper) (hcode : p.isCode) (hrun : ∀ i ∈ p.run, i.Proper)
    {before after : List (Cell Word)}
    (h : image.toList = before ++ (p.block.cells.map (Cell.valueIn labels) ++ after)) :
    image.instructionsAt? before.length =
      some (p.run.map (Instruction.map (Operand.valueIn labels)) ++
        List.replicate (4 - p.run.length) ⟨.nop, none⟩) := by
  have hopcodes : (p.run.map (Instruction.map (Operand.valueIn labels))).map (·.opcode) =
      p.run.map (·.opcode) := List.map_map
  have hoperands : (p.run.map (Instruction.map (Operand.valueIn labels))).filterMap (·.operand) =
      (Layout.operands p.run).map (Operand.valueIn labels) := by
    rw [List.filterMap_map, Layout.operands, List.map_filterMap]
    rfl
  have hcells : p.block.cells.map (Cell.valueIn labels) =
      .code (Word.encode (.ofList .nop (p.run.map (·.opcode)))) ::
        ((Layout.operands p.run).map (Operand.valueIn labels)).map .data := by
    rw [Layout.Piece.cells_block_of_isCode hcode, List.map_cons, List.map_map, List.map_map]
    rfl
  rw [hcells, ← hopcodes, ← hoperands] at h
  have hproper : ∀ i ∈ p.run.map (Instruction.map (Operand.valueIn labels)), i.Proper := by
    intro i hi
    obtain ⟨j, hj, rfl⟩ := List.mem_map.1 hi
    exact (hrun j hj).map
  have hlen : (p.run.map (Instruction.map (Operand.valueIn labels))).length ≤ 4 := by
    rw [List.length_map]
    exact hp.length_run_le
  rw [instructionsAt?_of_toList hlen hproper h, List.length_map]

/-- The code cells of the pieces of a layout read back as the instructions of the pieces. -/
theorem exists_mapM_instructionsAt? {image : Image Word} {labels : Labels} {ps : List Layout.Piece}
    (hps : ∀ p ∈ ps, p.Proper) (hrun : ∀ p ∈ ps, ∀ i ∈ p.run, i.Proper)
    {before after : List (Cell Word)}
    (h : image.toList = before ++
      ((Layout.cells (ps.map Layout.Piece.block)).map (Cell.valueIn labels) ++ after)) :
    ∃ found, (Layout.codeAddressesFrom before.length
        (Layout.cells (ps.map Layout.Piece.block))).mapM image.instructionsAt? = some found ∧
      Instruction.effective found.flatten =
        Instruction.effective ((ps.flatMap Layout.Piece.run).map
          (Instruction.map (Operand.valueIn labels))) := by
  induction ps generalizing before with
  | nil => exact ⟨[], rfl, rfl⟩
  | cons p ps ih =>
    have hcells : Layout.cells ((p :: ps).map Layout.Piece.block) =
        p.block.cells ++ Layout.cells (ps.map Layout.Piece.block) := Layout.cells_cons _ _
    rw [hcells, List.map_append, List.append_assoc] at h
    obtain ⟨found, hfound, heffective⟩ := ih (fun q hq => hps q (List.mem_cons_of_mem p hq))
      (fun q hq => hrun q (List.mem_cons_of_mem p hq))
      (h.trans (List.append_assoc before (p.block.cells.map (Cell.valueIn labels)) _).symm)
    rw [List.length_append, List.length_map] at hfound
    rw [hcells, Layout.codeAddressesFrom_append, List.mapM_append, hfound,
      Layout.Piece.codeAddressesFrom_block]
    cases hcode : p.isCode with
    | false =>
      refine ⟨found, rfl, ?_⟩
      rw [List.flatMap_cons, Layout.Piece.run_of_not_isCode hcode, List.nil_append, heffective]
    | true =>
      have hat := instructionsAt?_of_piece (hps p List.mem_cons_self) hcode
        (hrun p List.mem_cons_self) h
      refine ⟨(p.run.map (Instruction.map (Operand.valueIn labels)) ++
        List.replicate (4 - p.run.length) ⟨.nop, none⟩) :: found, by simp [hat], ?_⟩
      rw [List.flatten_cons, List.flatMap_cons, List.map_append, Instruction.effective_append,
        Instruction.effective_append, Instruction.effective_append, heffective,
        Instruction.effective_replicate_nop, List.append_nil]

end Image

/-! ## Whole programs -/

/-- The instruction with its operand resolved. -/
def Instruction.resolve (labels : Labels) (i : Instruction String) :
    Except Cause (Instruction Word) :=
  match i.operand with
  | none => .ok ⟨i.opcode, none⟩
  | some text => (labels.resolve text).map fun w => ⟨i.opcode, some w⟩

theorem Instruction.resolve_eq_ok {labels : Labels} {i : Instruction String}
    (h : ∀ text ∈ i.operand, (Operand.parse text).resolve labels =
      .ok ((Operand.parse text).valueIn labels)) :
    i.resolve labels = .ok ((i.map Operand.parse).map (Operand.valueIn labels)) := by
  obtain ⟨opcode, operand⟩ := i
  cases operand with
  | none => rfl
  | some text =>
    have htext := h text rfl
    rw [Operand.resolve_parse] at htext
    show (labels.resolve text).map _ = _
    rw [htext]
    rfl

theorem State.proper_of_mem_startup {program : List (Line × Statement)}
    (h : ∀ p ∈ program, Statement.parse p.1.text = .ok p.2) {i : Instruction Operand}
    (hi : .instruction i ∈ startup program) : i.Proper := by
  have hbootstrap : ∀ j ∈ bootstrap, j.Proper := by simp [bootstrap, Instruction.Proper]
  rcases List.mem_append.1 hi with hi | hi
  · obtain ⟨j, hj, hij⟩ := List.mem_map.1 hi
    exact Statement.instruction.inj hij ▸ hbootstrap j hj
  · obtain ⟨p, hp, hpi⟩ := List.mem_map.1 hi
    exact Statement.proper_of_parse (hpi ▸ h p hp)

/-- The instructions in the pieces of a source have an operand exactly if they push a literal. -/
theorem State.proper_of_mem_run {program : List (Line × Statement)}
    (h : ∀ p ∈ program, Statement.parse p.1.text = .ok p.2) {p : Layout.Piece}
    (hp : p ∈ Layout.piecesFrom .packed (startup program)) {i : Instruction Operand}
    (hi : i ∈ p.run) : i.Proper := by
  have hmem : i ∈ (startup program).filterMap (·.instruction?) :=
    Layout.run_piecesFrom .packed (startup program) ▸ List.mem_flatMap.2 ⟨p, hp, hi⟩
  obtain ⟨s, hs, hsi⟩ := List.mem_filterMap.1 hmem
  obtain rfl := Statement.instruction?_eq_some_iff.1 hsi
  exact proper_of_mem_startup h hs

namespace Assembly.MadeFrom

variable {a : Assembly} {program : List (Line × Statement)}

/-- The code of an assembly is where the layout puts it. -/
theorem codeAddresses_eq (h : a.MadeFrom program) :
    a.image.codeAddresses = Layout.codeAddressesFrom 0 (Layout.cells
      ((Layout.piecesFrom .packed (State.startup program)).map Layout.Piece.block)) := by
  rw [← Image.codeAddressesFrom_map_valueIn a.labels, ← Layout.blocks_eq_map_pieces, ← h.image]
  rfl

/-- The instructions of some of the pieces, one after the other, are in the image. -/
theorem disassemble?_pieces (h : a.MadeFrom program)
    (hparse : ∀ p ∈ program, Statement.parse p.1.text = .ok p.2)
    {before ps after : List Layout.Piece}
    (hpieces : Layout.piecesFrom .packed (State.startup program) = before ++ (ps ++ after)) :
    a.image.disassemble? (Layout.codeAddressesFrom
        (Layout.cells (before.map Layout.Piece.block)).length
        (Layout.cells (ps.map Layout.Piece.block))) =
      some (Instruction.effective ((ps.flatMap Layout.Piece.run).map
        (Instruction.map (Operand.valueIn a.labels)))) := by
  have hmem : ∀ p ∈ ps, p ∈ Layout.piecesFrom .packed (State.startup program) := by
    intro p hp
    rw [hpieces]
    exact List.mem_append_right _ (List.mem_append_left _ hp)
  have himage := h.image
  rw [Layout.blocks_eq_map_pieces, hpieces, List.map_append, List.map_append, Layout.cells_append,
    Layout.cells_append, List.map_append, List.map_append] at himage
  obtain ⟨found, hfound, heffective⟩ := Image.exists_mapM_instructionsAt?
    (fun p hp => Layout.proper_of_mem_piecesFrom (hmem p hp))
    (fun p hp i hi => State.proper_of_mem_run hparse (hmem p hp) hi) himage
  rw [List.length_map] at hfound
  rw [Image.disassemble?, hfound, ← heffective]
  rfl

/-- The image holds the instructions of the program. -/
theorem disassemble?_codeAddresses (h : a.MadeFrom program)
    (hparse : ∀ p ∈ program, Statement.parse p.1.text = .ok p.2) :
    a.image.disassemble? a.image.codeAddresses =
      some (Instruction.effective (((State.startup program).filterMap (·.instruction?)).map
        (Instruction.map (Operand.valueIn a.labels)))) := by
  have hpieces : Layout.piecesFrom .packed (State.startup program) =
      [] ++ (Layout.piecesFrom .packed (State.startup program) ++ []) := by
    rw [List.nil_append, List.append_nil]
  rw [h.codeAddresses_eq, ← Layout.run_piecesFrom .packed]
  exact h.disassemble?_pieces hparse hpieces

/-- The instructions of some lines of the source resolve. -/
theorem mapM_resolve_instructions_of_subset (h : a.MadeFrom program)
    (hparse : ∀ p ∈ program, Statement.parse p.1.text = .ok p.2) {part : List (Line × Statement)}
    (hpart : part ⊆ program) :
    (Source.instructions (part.map (·.1))).mapM (Instruction.resolve a.labels) =
      .ok (((part.map (·.2)).filterMap (·.instruction?)).map
        (Instruction.map (Operand.valueIn a.labels))) := by
  have hinstructions := Source.map_parse_instructions fun p hp => hparse p (hpart hp)
  rw [mapM_eq_ok_iff, ← hinstructions, List.map_map, List.map_map]
  refine List.map_congr_left fun i hi => Instruction.resolve_eq_ok fun text htext => ?_
  have hmem : i.map Operand.parse ∈ (part.map (·.2)).filterMap (·.instruction?) :=
    hinstructions ▸ List.mem_map_of_mem hi
  obtain ⟨s, hs, hsi⟩ := List.mem_filterMap.1 hmem
  obtain rfl := Statement.instruction?_eq_some_iff.1 hsi
  refine h.resolve_operand (List.mem_flatMap.2
    ⟨_, List.mem_append_right _ (List.map_subset _ hpart hs), ?_⟩)
  rw [Statement.operands, Option.mem_toList]
  exact Option.mem_map_of_mem Operand.parse htext

/-- The instructions of the source resolve. -/
theorem mapM_resolve_instructions (h : a.MadeFrom program)
    (hparse : ∀ p ∈ program, Statement.parse p.1.text = .ok p.2) :
    (Source.instructions (program.map (·.1))).mapM (Instruction.resolve a.labels) =
      .ok (((program.map (·.2)).filterMap (·.instruction?)).map
        (Instruction.map (Operand.valueIn a.labels))) :=
  h.mapM_resolve_instructions_of_subset hparse (List.Subset.refl program)

end Assembly.MadeFrom

/-- Disassembling an assembly gives back the jump to `main` and the instructions of the source with
their operands resolved, except for those that do nothing. -/
theorem disassemble?_of_assemble {lines : List Line} {a : Assembly}
    (h : assemble lines = .ok a) :
    ∃ offset is, a.labels.lookup State.entryLabel = some offset ∧
      (Source.instructions lines).mapM (Instruction.resolve a.labels) = .ok is ∧
      a.image.disassemble? a.image.codeAddresses =
        some (⟨.lit, some (Word.ofAddress offset)⟩ :: ⟨.jump, none⟩ ::
          Instruction.effective is) := by
  obtain ⟨program, hread, hmade⟩ := Assembly.madeFrom_of_assemble h
  obtain ⟨rfl, hparse⟩ := Source.of_read_eq_ok hread
  obtain ⟨offset, hmain⟩ := hmade.main
  refine ⟨offset, _, hmain, hmade.mapM_resolve_instructions hparse, ?_⟩
  have hstartup : (State.startup program).filterMap (·.instruction?) =
      State.bootstrap ++ (program.map (·.2)).filterMap (·.instruction?) :=
    List.filterMap_append
  rw [hmade.disassemble?_codeAddresses hparse, hstartup, List.map_append,
    Instruction.effective_append]
  simp [State.bootstrap, Instruction.map, Instruction.effective,
    Operand.valueIn_of_resolve (State.resolve_entry hmain)]

/-- A source with both ways of packing, a literal held back by the queue and a label after it. -/
theorem disassemble?_of_assemble_both_packings :
    ∃ a offset is,
      assemble [⟨1, ":main"⟩, ⟨2, "lit &x"⟩, ⟨3, "nop"⟩, ⟨4, "ret"⟩, ⟨5, ".unpacked"⟩,
        ⟨6, "lit 0x10"⟩, ⟨8, ":x"⟩] = .ok a ∧
      a.labels.lookup State.entryLabel = some offset ∧
      (Source.instructions [⟨1, ":main"⟩, ⟨2, "lit &x"⟩, ⟨3, "nop"⟩, ⟨4, "ret"⟩, ⟨5, ".unpacked"⟩,
        ⟨6, "lit 0x10"⟩, ⟨8, ":x"⟩]).mapM (Instruction.resolve a.labels) = .ok is ∧
      a.image.disassemble? a.image.codeAddresses =
        some (⟨.lit, some (Word.ofAddress offset)⟩ :: ⟨.jump, none⟩ ::
          Instruction.effective is) := by
  obtain ⟨a, ha⟩ : ∃ a, assemble [⟨1, ":main"⟩, ⟨2, "lit &x"⟩, ⟨3, "nop"⟩, ⟨4, "ret"⟩,
    ⟨5, ".unpacked"⟩, ⟨6, "lit 0x10"⟩, ⟨8, ":x"⟩] = .ok a := ⟨_, rfl⟩
  obtain ⟨offset, is, hresult⟩ := disassemble?_of_assemble ha
  exact ⟨a, offset, is, ha, hresult⟩

end PackedStack
