import PackedStack.Proofs.Layout.Shape
import PackedStack.Proofs.Layout.Streaming

/-!
# What a queue keeps

A queue is fed, flushed and switched between the modes in any order (`Draft.Call`). It never holds
more than it can lay down with one word (`Queue.WellFormed`), and every call lays words for the
instructions that waited first and keeps the others (`Draft.exists_lays_perform`, the step). So
after any calls the instructions fed are those in the words that were laid, followed by those that
wait (`Draft.exists_lays_foldl_perform`, the run), and no operand is lost or moved past another
(`queue_loses_nothing`).
-/

namespace PackedStack

open Layout (Run Piece operands)

/-! ## Queues -/

namespace Queue

/-- What waits leaves room for one more instruction in the word and does not leave the word; there
is at most one literal for each opcode; and nothing waits in unpacked mode. -/
structure WellFormed (q : Queue) : Prop where
  length_le : q.opcodes.length ≤ 3
  straight : ∀ o ∈ q.opcodes, o.isFlow = false
  literals_le : q.literals.length ≤ q.opcodes.length
  unpacked : q.packing = .unpacked → q.opcodes = [] ∧ q.literals = []

theorem WellFormed.literals_eq_nil {q : Queue} (h : q.WellFormed) (hopcodes : q.opcodes = []) :
    q.literals = [] := by
  have hle := h.literals_le
  rw [hopcodes, List.length_nil] at hle
  exact List.eq_nil_of_length_eq_zero (Nat.le_zero.1 hle)

theorem Holds.wellFormed {q : Queue} {run : Run} (h : q.Holds run) : q.WellFormed where
  length_le := by
    rw [h.opcodes, List.length_map]
    exact Nat.le_of_lt_succ h.length_lt
  straight := by
    rw [h.opcodes]
    intro o ho
    obtain ⟨i, hi, rfl⟩ := List.mem_map.1 ho
    exact h.straight i hi
  literals_le := by
    rw [h.opcodes, h.literals, List.length_map]
    exact List.length_filterMap_le _ run
  unpacked := by
    intro hmode
    rw [h.opcodes, h.literals, h.unpacked hmode]
    exact ⟨rfl, rfl⟩

theorem opcodes_flush (q : Queue) : q.flush.1.opcodes = [] := by
  rw [flush]
  split
  · rename_i hempty
    exact List.isEmpty_iff.1 hempty
  · rfl

theorem Holds.runPieces_eq {q : Queue} {run : Run} (h : q.Holds run) (hrun : run ≠ []) :
    Layout.runPieces q.packing run = [.word run] := by
  cases hmode : q.packing with
  | packed => rw [Layout.runPieces, Layout.groups_of_open hrun h.length_lt h.straight]; rfl
  | unpacked => exact absurd (h.unpacked hmode) hrun

end Queue

/-! ## Words that are laid -/

namespace Layout

/-- A piece with some instructions, no more than a word has room for. -/
structure Piece.Filled (p : Piece) : Prop where
  isCode : p.isCode
  run_ne_nil : p.run ≠ []
  length_le : p.run.length ≤ 4

/-- The word of some instructions, and their operands behind it. -/
def groupCells (group : Run) : List (Cell Operand) :=
  (Block.group (group.map (·.opcode)) (operands group)).cells

theorem cells_map_block {ps : List Piece} (h : ∀ p ∈ ps, p.Filled) :
    cells (ps.map Piece.block) = (ps.map Piece.run).flatMap groupCells := by
  rw [cells, List.flatMap_map, List.flatMap_map]
  exact List.flatMap_congr fun p hp => Piece.cells_block_of_isCode (h p hp).isCode

end Layout

/-- The contents of the cells that are no code. -/
def Cell.dataContents {α : Type} (cells : List (Cell α)) : List α :=
  (cells.filter fun c => !c.isCode).map (·.content)

theorem Cell.dataContents_groupCells (group : Run) :
    dataContents (Layout.groupCells group) = operands group := by
  simp [dataContents, Layout.groupCells, Block.group, Cell.code, Cell.data, List.filter_map,
    Function.comp_def]

/-- The operands in the cells of some groups are those of the instructions. -/
theorem Cell.dataContents_flatMap (groups : List Run) :
    dataContents (groups.flatMap Layout.groupCells) = operands groups.flatten := by
  induction groups with
  | nil => rfl
  | cons group groups ih =>
    rw [List.flatMap_cons, List.flatten_cons, dataContents, List.filter_append, List.map_append,
      operands, List.filterMap_append]
    exact congrArg₂ (· ++ ·) (dataContents_groupCells group) ih

/-! ## Calls -/

namespace Draft

/-- Flushing does nothing if no instruction waits. -/
theorem flush_of_opcodes_eq_nil {d : Draft} (h : d.queue.opcodes = []) : d.flush = d := by
  have hflush : d.queue.flush = (d.queue, .empty) := by simp [Queue.flush, h]
  rw [flush, hflush]
  simp [advance, lay, Block.empty, Image.append]

theorem flush_flush (d : Draft) : d.flush.flush = d.flush :=
  flush_of_opcodes_eq_nil d.queue.opcodes_flush

/-- What can be asked of the queue of a draft. -/
inductive Call where
  | feed (i : Instruction Operand)
  | flush
  | setPacking (mode : Packing)
  deriving DecidableEq, Repr

namespace Call

def instruction? : Call → Option (Instruction Operand)
  | feed i => some i
  | flush | setPacking _ => none

/-- The instructions that some calls feed. -/
def fed (calls : List Call) : Run := calls.filterMap instruction?

theorem fed_cons (c : Call) (calls : List Call) :
    fed (c :: calls) = c.instruction?.toList ++ fed calls := by
  rw [fed, List.filterMap_cons]
  cases c.instruction? <;> rfl

end Call

def perform (d : Draft) : Call → Draft
  | .feed i => d.feed i
  | .flush => d.flush
  | .setPacking mode => d.setPacking mode

/-- Flushing lays a word for what waits, if anything waits. -/
theorem exists_lays_flush {d : Draft} {run : Run} (h : d.queue.Holds run) :
    ∃ ps, (∀ p ∈ ps, p.Filled) ∧ d.Lays ps d.flush ∧ ps.flatMap Piece.run = run := by
  obtain ⟨hlays, -⟩ := lays_flush h
  by_cases hrun : run = []
  · rw [hrun, Layout.runPieces_nil] at hlays
    exact ⟨[], by simp, hlays, hrun.symm⟩
  · rw [h.runPieces_eq hrun] at hlays
    have hfilled : (Piece.word run).Filled := ⟨rfl, hrun, Nat.le_of_lt h.length_lt⟩
    exact ⟨[.word run], List.forall_mem_singleton.2 hfilled, hlays, List.append_nil run⟩

/-- A call lays words for the oldest of the instructions that wait or come with it. The others wait
after it. -/
theorem exists_lays_perform {d : Draft} {run : Run} (h : d.queue.Holds run) (c : Call) :
    ∃ ps run', (∀ p ∈ ps, p.Filled) ∧ d.Lays ps (d.perform c) ∧
      (d.perform c).queue.Holds run' ∧
      run ++ c.instruction?.toList = ps.flatMap Piece.run ++ run' := by
  cases c with
  | feed i =>
    rcases feed_cases h i with ⟨-, rfl, hlays, hqueue⟩ | ⟨-, -, hlays, hqueue⟩ |
      ⟨-, hlays, -, hholds⟩
    · have hfilled : (Piece.single i).Filled := ⟨rfl, List.cons_ne_nil i [], by simp [Piece.run]⟩
      exact ⟨[.single i], [], List.forall_mem_singleton.2 hfilled, hlays, hqueue ▸ h, rfl⟩
    · -- with at most three before it, the instruction that completes a word still fits into it
      have hfilled : (Piece.word (run ++ [i])).Filled := by
        refine ⟨rfl, List.append_ne_nil_of_right_ne_nil run (List.cons_ne_nil i []), ?_⟩
        rw [Piece.run, List.length_append]
        exact h.length_lt
      refine ⟨[.word (run ++ [i])], [], List.forall_mem_singleton.2 hfilled, hlays,
        hqueue ▸ Queue.holds_nil _, ?_⟩
      rw [List.flatMap_singleton, List.append_nil]
      rfl
    · exact ⟨[], run ++ [i], by simp, hlays, hholds, rfl⟩
  | flush =>
    obtain ⟨ps, hfilled, hlays, hrun⟩ := exists_lays_flush h
    refine ⟨ps, [], hfilled, hlays, (lays_flush h).2 ▸ Queue.holds_nil _, ?_⟩
    rw [hrun]
    rfl
  | setPacking mode =>
    obtain ⟨ps, hfilled, hlays, hrun⟩ := exists_lays_flush h
    have hqueue : (d.perform (.setPacking mode)).queue = ⟨mode, [], []⟩ :=
      congrArg (fun q : Queue => { q with packing := mode }) (lays_flush h).2
    refine ⟨ps, [], hfilled, ⟨hlays.image, hlays.map⟩, hqueue ▸ Queue.holds_nil _, ?_⟩
    rw [hrun]
    rfl

/-- After any calls, what waited before and what was fed is in the words laid or waits. -/
theorem exists_lays_foldl_perform {d : Draft} {run : Run} (h : d.queue.Holds run)
    (calls : List Call) :
    ∃ ps run', (∀ p ∈ ps, p.Filled) ∧ d.Lays ps (calls.foldl perform d) ∧
      (calls.foldl perform d).queue.Holds run' ∧
      run ++ Call.fed calls = ps.flatMap Piece.run ++ run' := by
  induction calls generalizing d run with
  | nil => exact ⟨[], run, by simp, .refl d, h, List.append_nil run⟩
  | cons c calls ih =>
    obtain ⟨ps, run₁, hfilled, hlays, hholds, hstep⟩ := exists_lays_perform h c
    obtain ⟨qs, run₂, hfilled', hlays', hholds', hrest⟩ := ih hholds
    refine ⟨ps ++ qs, run₂, ?_, hlays.trans hlays', hholds', ?_⟩
    · intro p hp
      exact (List.mem_append.1 hp).elim (hfilled p) (hfilled' p)
    · rw [Call.fed_cons, ← List.append_assoc, hstep, List.append_assoc, hrest,
        List.flatMap_append, List.append_assoc]

end Draft

/-- A queue loses nothing, whatever is asked of it and whatever image and map it lays words into.
After any calls at most three instructions wait and none of them leaves the word, no literal waits
without an instruction, and nothing waits in unpacked mode. A flush leaves nothing behind, so that a
second one changes nothing. The operands fed are those in the cells laid so far, in order, followed
by the literals that wait. Each word was laid for a group of the instructions fed, and none of the
group is cut off by the end of the word. -/
theorem queue_loses_nothing (image : Image Operand) (map : Array Entry) (calls : List Draft.Call) :
    let d := calls.foldl Draft.perform ⟨image, map, .initial⟩
    let emitted := d.image.toList.drop image.size
    d.queue.WellFormed ∧ (d.queue.opcodes = [] → d.queue.literals = []) ∧
      d.flush.queue = ⟨d.queue.packing, [], []⟩ ∧ d.flush.flush = d.flush ∧
      image.toList <+: d.image.toList ∧
      operands (Draft.Call.fed calls) = Cell.dataContents emitted ++ d.queue.literals ∧
      ∃ (laid : List Run) (waiting : Run),
        Draft.Call.fed calls = laid.flatten ++ waiting ∧
        d.queue.opcodes = waiting.map (·.opcode) ∧ d.queue.literals = operands waiting ∧
        emitted = laid.flatMap Layout.groupCells ∧
        ∀ group ∈ laid, group ≠ [] ∧
          (Slots.ofList .nop (group.map (·.opcode))).toList =
            group.map (·.opcode) ++ List.replicate (4 - group.length) .nop := by
  intro d emitted
  obtain ⟨ps, waiting, hfilled, hlays, hholds, hfed⟩ :=
    Draft.exists_lays_foldl_perform (d := ⟨image, map, .initial⟩) (Queue.holds_nil .packed) calls
  have hemitted : emitted = (ps.map Piece.run).flatMap Layout.groupCells := by
    rw [← Layout.cells_map_block hfilled]
    show d.image.toList.drop image.size = _
    rw [hlays.image, List.drop_left' image.length_toList]
  have hfed : Draft.Call.fed calls = (ps.map Piece.run).flatten ++ waiting := by
    rwa [List.nil_append, List.flatMap_def] at hfed
  refine ⟨hholds.wellFormed, hholds.wellFormed.literals_eq_nil, (Draft.lays_flush hholds).2,
    d.flush_flush, hlays.image ▸ List.prefix_append _ _, ?_, ps.map Piece.run, waiting, hfed,
    hholds.opcodes, hholds.literals, hemitted, ?_⟩
  · rw [hemitted, Cell.dataContents_flatMap, hholds.literals, hfed]
    exact List.filterMap_append
  · intro group hgroup
    obtain ⟨p, hp, rfl⟩ := List.mem_map.1 hgroup
    refine ⟨(hfilled p hp).run_ne_nil, ?_⟩
    rw [Slots.toList_ofList _ (by rw [List.length_map]; exact (hfilled p hp).length_le),
      List.length_map]

/-- Operands of an instruction that leaves the word and of one that waits at a change of mode. -/
theorem queue_loses_nothing_change_of_mode :
    let calls : List Draft.Call := [.feed ⟨.dup, some (.value 7)⟩, .feed ⟨.jump, some (.token "a")⟩,
      .feed ⟨.lit, some (.value 5)⟩, .setPacking .unpacked, .feed ⟨.lit, some (.token "b")⟩]
    let d := calls.foldl Draft.perform ⟨.empty, #[], .initial⟩
    d.queue.opcodes = [] ∧ d.queue.literals = [] ∧
      Cell.dataContents d.image.toList ++ d.queue.literals =
        [.value 7, .token "a", .value 5, .token "b"] :=
  ⟨rfl, (queue_loses_nothing .empty #[] _).2.1 rfl,
    (queue_loses_nothing .empty #[] _).2.2.2.2.2.1.symm⟩

end PackedStack
