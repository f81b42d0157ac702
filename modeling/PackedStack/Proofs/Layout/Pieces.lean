import PackedStack.Assembly.Layout

/-!
# The pieces of a layout

A layout is a row of pieces: words with the instructions that share them, instructions with a cell
of their own, and statements that are no instruction. A block is what a piece adds to the image
(`blocks_eq_map_pieces`), and the pieces hold every statement of the program once and in order,
except those that only name the image file (`statements_piecesFrom`). Statements about whole images
follow from these two and from what holds of a single piece.
-/

namespace PackedStack

namespace Statement

/-- Whether a statement ends the run of instructions before it. -/
def divides : Statement → Bool
  | instruction _ | output _ => false
  | _ => true

/-- Whether a statement has a place in the image, be it of no cells. -/
def isPlaced : Statement → Bool
  | output _ => false
  | _ => true

theorem isPlaced_of_divides {s : Statement} (h : s.divides) : s.isPlaced := by
  cases s <;> simp_all [divides, isPlaced]

end Statement

namespace Layout

/-! ## Groups -/

theorem findIdx_isFlow_append {run : Run} (h : ∀ i ∈ run, i.opcode.isFlow = false) (rest : Run) :
    (run ++ rest).findIdx (·.opcode.isFlow) =
      run.length + rest.findIdx (·.opcode.isFlow) := by
  have hrun : run.findIdx (·.opcode.isFlow) = run.length := List.findIdx_eq_length.2 h
  rw [List.findIdx_append, hrun, if_neg (Nat.lt_irrefl _), Nat.add_comm]

theorem groups_of_ne_nil {run : Run} (h : run ≠ []) :
    groups run = run.take (groupLength run) :: groups (run.drop (groupLength run)) := by
  cases run with
  | nil => exact absurd rfl h
  | cons i run => rw [groups]

/-- Instructions that leave room in their word and do not leave it share that word. -/
theorem groups_of_open {run : Run} (hne : run ≠ []) (hlen : run.length < 4)
    (hflow : ∀ i ∈ run, i.opcode.isFlow = false) : groups run = [run] := by
  have hidx := findIdx_isFlow_append hflow []
  rw [List.append_nil, List.findIdx_nil, Nat.add_zero] at hidx
  have hle : run.length ≤ groupLength run := by rw [groupLength, hidx]; omega
  rw [groups_of_ne_nil hne, List.take_of_length_le hle, List.drop_eq_nil_of_le hle, groups]

/-- An instruction that fills the word of those before it, or leaves it, ends a group. -/
theorem groups_of_complete {run : Run} {i : Instruction Operand} (hlen : run.length < 4)
    (hflow : ∀ j ∈ run, j.opcode.isFlow = false)
    (hi : run.length + 1 = 4 ∨ i.opcode.isFlow = true) (rest : Run) :
    groups (run ++ i :: rest) = (run ++ [i]) :: groups rest := by
  have hgroup : groupLength (run ++ i :: rest) = (run ++ [i]).length := by
    rw [groupLength, findIdx_isFlow_append hflow, List.length_append, List.length_singleton,
      List.findIdx_cons]
    rcases hi with hi | hi
    · omega
    · rw [hi, cond_true]; omega
  rw [groups_of_ne_nil (by simp), hgroup, List.append_cons run i rest, List.take_left,
    List.drop_left]

theorem flatten_groups (run : Run) : (groups run).flatten = run := by
  fun_induction groups run with
  | case1 => rfl
  | case2 i run ih => rw [List.flatten_cons, ih, List.take_append_drop]

theorem length_le_of_mem_groups {run group : Run} (h : group ∈ groups run) : group.length ≤ 4 := by
  fun_induction groups run with
  | case1 => cases h
  | case2 i run ih =>
    rcases List.mem_cons.1 h with rfl | h
    · rw [List.length_take, groupLength]
      omega
    · exact ih h

/-- Only the last instruction of a group leaves the word. -/
theorem pairwise_of_mem_groups {run group : Run} (h : group ∈ groups run) :
    group.Pairwise fun i _ => i.opcode.isFlow = false := by
  fun_induction groups run with
  | case1 => cases h
  | case2 i run ih =>
    rcases List.mem_cons.1 h with rfl | h
    · rw [List.pairwise_iff_getElem]
      intro j k hj hk hjk
      rw [List.length_take, groupLength] at hk
      have hlt : j < (i :: run).findIdx (·.opcode.isFlow) := by omega
      rw [List.getElem_take]
      simpa using List.not_of_lt_findIdx hlt
    · exact ih h

/-- A word laid from the opcodes and literals of some instructions is the word of their group. -/
theorem group_eq_groupBlock (run : Run) :
    Block.group (run.map (·.opcode)) (operands run) = groupBlock run := by
  have hslot : ∀ k, ((run.map Instruction.opcode).getD k .nop).code = slotCode run k := by
    intro k
    rw [slotCode, List.getD_eq_getElem?_getD, List.getElem?_map]
    cases run[k]? <;> rfl
  have hentries : ((operands run).zipIdx 1).map (fun l => (⟨.literal, l.1.text, l.2⟩ : Entry)) =
      (operands run).mapIdx fun j operand => ⟨.literal, operand.text, j + 1⟩ := by
    rw [List.mapIdx_eq_zipIdx_map, List.zipIdx_succ, List.map_map]
    rfl
  simp only [Block.group, groupBlock, Word.encode, Slots.map, Slots.ofList, hslot, hentries]

/-! ## Blocks that follow one another -/

theorem cells_cons (b : Block) (bs : List Block) : cells (b :: bs) = b.cells ++ cells bs :=
  List.flatMap_cons

theorem cells_append (bs cs : List Block) : cells (bs ++ cs) = cells bs ++ cells cs :=
  List.flatMap_append

theorem entriesFrom_append (base : Nat) (bs cs : List Block) :
    entriesFrom base (bs ++ cs) =
      entriesFrom base bs ++ entriesFrom (base + (cells bs).length) cs := by
  induction bs generalizing base with
  | nil => rfl
  | cons b bs ih =>
    rw [List.cons_append, entriesFrom, entriesFrom, ih, cells_cons, List.length_append,
      List.append_assoc, Nat.add_assoc]

/-- An entry belongs to one of the blocks, and its offset counts from the start of that block. -/
theorem exists_of_mem_entriesFrom {base : Nat} {bs : List Block} {e : Entry}
    (h : e ∈ entriesFrom base bs) :
    ∃ before b after e', bs = before ++ b :: after ∧ e' ∈ b.entries ∧
      e = e'.shift (base + (cells before).length) := by
  induction bs generalizing base with
  | nil => cases h
  | cons b bs ih =>
    rw [entriesFrom] at h
    rcases List.mem_append.1 h with h | h
    · obtain ⟨e', he', rfl⟩ := List.mem_map.1 h
      exact ⟨[], b, bs, e', rfl, he', rfl⟩
    · obtain ⟨before, b', after, e', rfl, he', rfl⟩ := ih h
      refine ⟨b :: before, b', after, e', rfl, he', ?_⟩
      rw [cells_cons, List.length_append, Nat.add_assoc]

/-- The addresses of the code among cells that start at an address. -/
def codeAddressesFrom {α : Type} (base : Nat) (cells : List (Cell α)) : List Nat :=
  ((cells.zipIdx base).filter (·.1.isCode)).map (·.2)

theorem codeAddressesFrom_append {α : Type} (base : Nat) (xs ys : List (Cell α)) :
    codeAddressesFrom base (xs ++ ys) =
      codeAddressesFrom base xs ++ codeAddressesFrom (base + xs.length) ys := by
  rw [codeAddressesFrom, List.zipIdx_append, List.filter_append, List.map_append]
  rfl

/-- The addresses of the code in blocks that follow one another from an address on. -/
def codeFrom (base : Nat) : List Block → List Nat
  | [] => []
  | b :: rest => codeAddressesFrom base b.cells ++ codeFrom (base + b.cells.length) rest

theorem codeAddressesFrom_cells (base : Nat) (bs : List Block) :
    codeAddressesFrom base (cells bs) = codeFrom base bs := by
  induction bs generalizing base with
  | nil => rfl
  | cons b bs ih => rw [cells_cons, codeAddressesFrom_append, ih, codeFrom]

/-! ## Dividing a program -/

@[simp] theorem divide_instruction (i : Instruction Operand) (rest : List Statement) :
    divide (.instruction i :: rest) = (i :: (divide rest).1, (divide rest).2) := rfl

@[simp] theorem divide_output (path : String) (rest : List Statement) :
    divide (.output path :: rest) = divide rest := rfl

theorem divide_of_divides {s : Statement} (h : s.divides) (rest : List Statement) :
    divide (s :: rest) = ([], (s, (divide rest).1) :: (divide rest).2) := by
  cases s <;> simp_all [Statement.divides, divide]

theorem divide_instructions (run : Run) (rest : List Statement) :
    divide (run.map .instruction ++ rest) = (run ++ (divide rest).1, (divide rest).2) := by
  induction run with
  | nil => rfl
  | cons i run ih => rw [List.map_cons, List.cons_append, divide_instruction, ih]; rfl

/-! ## Pieces -/

inductive Piece where
  /-- Instructions that share a word. -/
  | word (group : Run)
  /-- An instruction with a cell of its own. -/
  | single (i : Instruction Operand)
  /-- A statement that is no instruction. -/
  | other (s : Statement)
  deriving DecidableEq, Repr

namespace Piece

def block : Piece → Block
  | word group => groupBlock group
  | single i => .single i
  | other s => statementBlock s

/-- The statements that a piece was made from. -/
def statements : Piece → List Statement
  | word group => group.map .instruction
  | single i => [.instruction i]
  | other s => [s]

/-- The mode in which the instructions of a piece are laid, if it holds any. -/
def packing? : Piece → Option Packing
  | word _ => some .packed
  | single _ => some .unpacked
  | other _ => none

end Piece

def runPieces (mode : Packing) (run : Run) : List Piece :=
  match mode with
  | .packed => (groups run).map .word
  | .unpacked => run.map .single

@[simp] theorem runPieces_nil (mode : Packing) : runPieces mode [] = [] := by
  cases mode <;> simp [runPieces, groups]

theorem packing?_of_mem_runPieces {mode : Packing} {run : Run} {p : Piece}
    (h : p ∈ runPieces mode run) : p.packing? = some mode := by
  cases mode <;> obtain ⟨_, -, rfl⟩ := List.mem_map.1 h <;> rfl

def sectionPieces (mode : Packing) : List (Statement × Run) → List Piece
  | [] => []
  | (s, run) :: rest =>
    .other s :: runPieces (modeAfter mode s) run ++ sectionPieces (modeAfter mode s) rest

/-- The piece that a statement is by itself: none if it is part of a run or has no place. -/
def ownPieces (s : Statement) : List Piece := if s.divides then [.other s] else []

/-- The pieces of a program that starts in the given mode. -/
def piecesFrom (mode : Packing) (program : List Statement) : List Piece :=
  runPieces mode (divide program).1 ++ sectionPieces mode (divide program).2

/-! ### One statement after the other

How the pieces of a program come about when the instructions of a run wait for the next statement.
-/

theorem piecesFrom_instructions (mode : Packing) (run : Run) (rest : List Statement) :
    piecesFrom mode (run.map .instruction ++ rest) =
      runPieces mode (run ++ (divide rest).1) ++ sectionPieces mode (divide rest).2 := by
  rw [piecesFrom, divide_instructions]

theorem piecesFrom_run (mode : Packing) (run : Run) :
    piecesFrom mode (run.map .instruction) = runPieces mode run := by
  have h := piecesFrom_instructions mode run []
  simpa [divide, sectionPieces] using h

theorem piecesFrom_output (mode : Packing) (run : Run) (path : String) (rest : List Statement) :
    piecesFrom mode (run.map .instruction ++ .output path :: rest) =
      piecesFrom mode (run.map .instruction ++ rest) := by
  rw [piecesFrom_instructions, piecesFrom_instructions, divide_output]

theorem piecesFrom_of_divides (mode : Packing) (run : Run) {s : Statement} (h : s.divides)
    (rest : List Statement) :
    piecesFrom mode (run.map .instruction ++ s :: rest) =
      runPieces mode run ++ .other s :: piecesFrom (modeAfter mode s) rest := by
  rw [piecesFrom_instructions, divide_of_divides h, List.append_nil]
  rfl

theorem piecesFrom_packed_of_complete (run : Run) {i : Instruction Operand}
    (hlen : run.length < 4) (hflow : ∀ j ∈ run, j.opcode.isFlow = false)
    (hi : run.length + 1 = 4 ∨ i.opcode.isFlow = true) (rest : List Statement) :
    piecesFrom .packed (run.map .instruction ++ .instruction i :: rest) =
      .word (run ++ [i]) :: piecesFrom .packed rest := by
  rw [piecesFrom_instructions, divide_instruction, runPieces, groups_of_complete hlen hflow hi]
  rfl

theorem piecesFrom_unpacked_instruction (i : Instruction Operand) (rest : List Statement) :
    piecesFrom .unpacked (.instruction i :: rest) = .single i :: piecesFrom .unpacked rest := rfl

/-! ### Blocks and statements of pieces -/

theorem map_block_runPieces (mode : Packing) (run : Run) :
    (runPieces mode run).map Piece.block = runBlocks mode run := by
  cases mode <;> simp [runPieces, runBlocks, Piece.block]

theorem map_block_sectionPieces (mode : Packing) (sections : List (Statement × Run)) :
    (sectionPieces mode sections).map Piece.block = sectionBlocks mode sections := by
  induction sections generalizing mode with
  | nil => rfl
  | cons section_ rest ih =>
    obtain ⟨s, run⟩ := section_
    simp [sectionPieces, sectionBlocks, map_block_runPieces, ih, Piece.block]

theorem blocks_eq_map_pieces (program : List Statement) :
    blocks program = (piecesFrom .packed program).map Piece.block := by
  rw [piecesFrom, List.map_append, map_block_runPieces, map_block_sectionPieces]
  rfl

theorem statements_runPieces (mode : Packing) (run : Run) :
    (runPieces mode run).flatMap Piece.statements = run.map .instruction := by
  cases mode with
  | packed =>
    have hword : ((groups run).map Piece.word).flatMap Piece.statements =
        ((groups run).map (List.map Statement.instruction)).flatten := by
      rw [List.flatMap_map, List.flatMap_def]; rfl
    rw [runPieces, hword, ← List.map_flatten, flatten_groups]
  | unpacked =>
    rw [runPieces, List.flatMap_map, List.map_eq_flatMap]
    rfl

theorem statements_piecesFrom (mode : Packing) (program : List Statement) :
    (piecesFrom mode program).flatMap Piece.statements = program.filter (·.isPlaced) := by
  induction program generalizing mode with
  | nil => rw [piecesFrom, List.flatMap_append, statements_runPieces]; rfl
  | cons s rest ih =>
    cases hs : s.divides with
    | true =>
      have hpieces := piecesFrom_of_divides mode [] hs rest
      rw [List.map_nil, List.nil_append] at hpieces
      rw [hpieces, List.flatMap_append, List.flatMap_cons, ih, statements_runPieces,
        List.filter_cons_of_pos (Statement.isPlaced_of_divides hs)]
      rfl
    | false =>
      cases s with
      | instruction i =>
        have h := ih mode
        rw [piecesFrom, List.flatMap_append, statements_runPieces] at h ⊢
        rw [divide_instruction, List.filter_cons_of_pos rfl, ← h]
        rfl
      | output path =>
        rw [List.filter_cons_of_neg (by simp [Statement.isPlaced]), ← ih mode]
        rfl
      | _ => cases hs

end Layout

end PackedStack
