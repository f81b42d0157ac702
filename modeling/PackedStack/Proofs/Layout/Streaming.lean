import PackedStack.Proofs.Layout.Pieces

/-!
# The first pass lays out the whole program

The first pass reads statements one by one and keeps instructions in a queue; the layout of a
program is told for all its statements at once. The queue always holds the instructions of a run
that neither fill a word nor leave it (`Queue.Holds`). A statement lays the pieces that it
completes, and what then waits together with the rest of the program has the pieces that are left
(`exists_lays_carry`, the step); so the pieces laid in the end are those of the whole program
(`lays_flush_foldl_carry`, the run).
-/

namespace PackedStack

open Layout (Run Piece operands)

/-! ## What waits in a queue -/

/-- A queue in which the instructions of a run wait: fewer than a word holds, and none that leaves
the word. Nothing waits in unpacked mode. -/
structure Queue.Holds (q : Queue) (run : Run) : Prop where
  opcodes : q.opcodes = run.map (·.opcode)
  literals : q.literals = operands run
  length_lt : run.length < 4
  straight : ∀ i ∈ run, i.opcode.isFlow = false
  unpacked : q.packing = .unpacked → run = []

theorem Queue.holds_nil (mode : Packing) : Queue.Holds ⟨mode, [], []⟩ [] :=
  ⟨rfl, rfl, by decide, by simp, fun _ => rfl⟩

/-! ## Laying pieces -/

namespace Draft

/-- The second draft is the first with some pieces laid at its end. The queues do not matter. -/
structure Lays (d : Draft) (ps : List Piece) (d' : Draft) : Prop where
  image : d'.image.toList = d.image.toList ++ Layout.cells (ps.map Piece.block)
  map : d'.map.toList = d.map.toList ++ Layout.entriesFrom d.here (ps.map Piece.block)

theorem length_image_toList (d : Draft) : d.image.toList.length = d.here := d.image.length_toList

theorem Lays.here_eq {d d' : Draft} {ps : List Piece} (h : d.Lays ps d') :
    d'.here = d.here + (Layout.cells (ps.map Piece.block)).length := by
  rw [← length_image_toList, h.image, List.length_append, length_image_toList]

theorem Lays.refl (d : Draft) : d.Lays [] d :=
  ⟨(List.append_nil _).symm, (List.append_nil _).symm⟩

theorem Lays.trans {d d₁ d₂ : Draft} {ps qs : List Piece} (h : d.Lays ps d₁) (h' : d₁.Lays qs d₂) :
    d.Lays (ps ++ qs) d₂ where
  image := by rw [h'.image, h.image, List.map_append, Layout.cells_append, List.append_assoc]
  map := by
    rw [h'.map, h.map, h.here_eq, List.map_append, Layout.entriesFrom_append, List.append_assoc]

theorem lays_lay (d : Draft) (p : Piece) : d.Lays [p] (d.lay p.block) where
  image := by simp [Layout.cells]
  map := by simp [Layout.entriesFrom]

theorem lays_advance_of_empty (d : Draft) {step : Queue × Block} (h : step.2 = .empty) :
    d.Lays [] (d.advance step) where
  image := by simp [advance, h, Block.empty, Layout.cells]
  map := by simp [advance, h, Block.empty, Layout.entriesFrom]

theorem lays_advance (d : Draft) {step : Queue × Block} {p : Piece} (h : step.2 = p.block) :
    d.Lays [p] (d.advance step) := by
  have hlay := d.lays_lay p
  rw [← h] at hlay
  exact ⟨hlay.image, hlay.map⟩

/-! ## One statement -/

/-- Flushing lays the word of the run that waits, if any waits, and leaves nothing behind. -/
theorem lays_flush {d : Draft} {run : Run} (h : d.queue.Holds run) :
    d.Lays (Layout.runPieces d.queue.packing run) d.flush ∧
      d.flush.queue = ⟨d.queue.packing, [], []⟩ := by
  by_cases hrun : run = []
  · subst hrun
    have hopcodes : d.queue.opcodes = [] := h.opcodes
    have hflush : d.queue.flush = (d.queue, .empty) := by simp [Queue.flush, hopcodes]
    have hqueue : d.queue = ⟨d.queue.packing, d.queue.opcodes, d.queue.literals⟩ := rfl
    rw [h.opcodes, h.literals] at hqueue
    rw [Layout.runPieces_nil, flush, hflush]
    exact ⟨d.lays_advance_of_empty rfl, hqueue⟩
  · have hpacked : d.queue.packing = .packed := by
      cases hmode : d.queue.packing with
      | packed => rfl
      | unpacked => exact absurd (h.unpacked hmode) hrun
    have hflush : d.queue.flush = (⟨d.queue.packing, [], []⟩, Layout.groupBlock run) := by
      rw [← Layout.group_eq_groupBlock, ← h.opcodes, ← h.literals, Queue.flush, if_neg]
      simpa [h.opcodes] using hrun
    rw [hpacked, Layout.runPieces, Layout.groups_of_open hrun h.length_lt h.straight, flush,
      hflush, hpacked]
    exact ⟨d.lays_advance rfl, rfl⟩

/-- What a statement does to a draft. -/
def carry (d : Draft) : Statement → Draft
  | .label name => d.place (.label name)
  | .instruction i => d.feed i
  | .output _ => d
  | .data operand => d.place (.data operand)
  | .packing mode => d.setPacking mode
  | .text content => d.place (.text content)
  | .allocate count => d.place (.zeros count)

/-- A statement that ends a run lays the run and then its own block. -/
theorem lays_carry_of_divides {d : Draft} {run : Run} (h : d.queue.Holds run) {s : Statement}
    (hs : s.divides) :
    d.Lays (Layout.runPieces d.queue.packing run ++ [.other s]) (d.carry s) ∧
      (d.carry s).queue = ⟨Layout.modeAfter d.queue.packing s, [], []⟩ := by
  obtain ⟨hflush, hqueue⟩ := lays_flush h
  cases s with
  | packing mode =>
    have hmode : d.flush.Lays [.other (.packing mode)] (d.setPacking mode) :=
      ⟨(List.append_nil _).symm, (List.append_nil _).symm⟩
    exact ⟨hflush.trans hmode, congrArg (fun q : Queue => { q with packing := mode }) hqueue⟩
  | instruction _ | output _ => cases hs
  | _ => exact ⟨hflush.trans (lays_lay _ _), hqueue⟩

/-- An instruction either completes the word of the run that waits and leaves nothing behind, or
waits with the run. In unpacked mode it gets a cell of its own. -/
theorem feed_cases {d : Draft} {run : Run} (h : d.queue.Holds run) (i : Instruction Operand) :
    (d.queue.packing = .unpacked ∧ run = [] ∧ d.Lays [.single i] (d.feed i) ∧
      (d.feed i).queue = d.queue) ∨
    (d.queue.packing = .packed ∧ (run.length + 1 = 4 ∨ i.opcode.isFlow = true) ∧
      d.Lays [.word (run ++ [i])] (d.feed i) ∧ (d.feed i).queue = ⟨.packed, [], []⟩) ∨
    (d.queue.packing = .packed ∧ d.Lays [] (d.feed i) ∧ (d.feed i).queue.packing = .packed ∧
      (d.feed i).queue.Holds (run ++ [i])) := by
  cases hmode : d.queue.packing with
  | unpacked =>
    have hfeed : d.queue.feed i = (d.queue, .single i) := by rw [Queue.feed, hmode]
    rw [feed, hfeed]
    exact .inl ⟨rfl, h.unpacked hmode, d.lays_advance rfl, rfl⟩
  | packed =>
    have hopcodes : d.queue.opcodes ++ [i.opcode] = (run ++ [i]).map Instruction.opcode := by
      rw [h.opcodes, List.map_append]; rfl
    have hliterals : d.queue.literals ++ i.operand.toList = operands (run ++ [i]) := by
      rw [h.literals, operands, operands, List.filterMap_append]
      cases hi : i.operand <;> simp [hi]
    have hlen : (d.queue.opcodes ++ [i.opcode]).length = run.length + 1 := by
      rw [hopcodes, List.length_map, List.length_append, List.length_singleton]
    right
    by_cases hdone : run.length + 1 = 4 ∨ i.opcode.isFlow = true
    · have hfeed : d.queue.feed i = (⟨.packed, [], []⟩, Layout.groupBlock (run ++ [i])) := by
        rw [← Layout.group_eq_groupBlock, ← hopcodes, ← hliterals]
        simp only [Queue.feed, hmode, hlen, if_pos hdone]
        rw [Queue.flush, if_neg (by simp)]
      rw [feed, hfeed]
      exact .inl ⟨rfl, hdone, d.lays_advance rfl, rfl⟩
    · have hfeed : d.queue.feed i = (⟨.packed, (run ++ [i]).map Instruction.opcode,
          operands (run ++ [i])⟩, .empty) := by
        rw [← hopcodes, ← hliterals]
        simp only [Queue.feed, hmode, hlen, if_neg hdone]
      rw [feed, hfeed]
      have hshort := h.length_lt
      have hflow : i.opcode.isFlow = false := by simpa using fun hi => hdone (.inr hi)
      refine .inr ⟨rfl, d.lays_advance_of_empty rfl, rfl, rfl, rfl, ?_, ?_, nofun⟩
      · rw [List.length_append, List.length_singleton]; omega
      · intro j hj
        rcases List.mem_append.1 hj with hj | hj
        · exact h.straight j hj
        · rw [List.mem_singleton.1 hj, hflow]

/-- A statement lays the pieces that it completes, in the mode that is on before it, and then itself
if it ends a run. What waits after it, followed by the rest of the program, has the pieces that are
left. -/
theorem exists_lays_carry {d : Draft} {run : Run} (h : d.queue.Holds run) (s : Statement) :
    ∃ ps run', (∀ p ∈ ps, p.packing? = some d.queue.packing) ∧ (s.divides → d.Lays ps d.flush) ∧
      d.Lays (ps ++ Layout.ownPieces s) (d.carry s) ∧ (d.carry s).queue.Holds run' ∧
      ∀ rest, Layout.piecesFrom d.queue.packing (run.map .instruction ++ s :: rest) =
        ps ++ Layout.ownPieces s ++
          Layout.piecesFrom (d.carry s).queue.packing (run'.map .instruction ++ rest) := by
  cases hs : s.divides with
  | true =>
    obtain ⟨hlays, hqueue⟩ := lays_carry_of_divides h hs
    rw [Layout.ownPieces, if_pos hs]
    refine ⟨_, [], fun p => Layout.packing?_of_mem_runPieces, fun _ => (lays_flush h).1, hlays,
      hqueue ▸ Queue.holds_nil _, fun rest => ?_⟩
    rw [Layout.piecesFrom_of_divides _ _ hs, hqueue, List.append_assoc]
    rfl
  | false =>
    simp only [Layout.ownPieces, hs, Bool.false_eq_true, if_false, List.append_nil]
    cases s with
    | output path =>
      refine ⟨[], run, by simp, by simp, .refl d, h, fun rest => ?_⟩
      rw [Layout.piecesFrom_output]
      rfl
    | instruction i =>
      rcases feed_cases h i with ⟨hmode, rfl, hlays, hqueue⟩ | ⟨hmode, hdone, hlays, hqueue⟩ |
        ⟨hmode, hlays, hmode', hholds⟩
      · refine ⟨_, [], by simp [Piece.packing?, hmode], by simp, hlays, hqueue ▸ h, fun rest => ?_⟩
        rw [carry, hqueue, hmode]
        exact Layout.piecesFrom_unpacked_instruction i rest
      · refine ⟨_, [], by simp [Piece.packing?, hmode], by simp, hlays, hqueue ▸ Queue.holds_nil _,
          fun rest => ?_⟩
        rw [carry, hqueue, hmode]
        exact Layout.piecesFrom_packed_of_complete run h.length_lt h.straight hdone rest
      · refine ⟨[], run ++ [i], by simp, by simp, hlays, hholds, fun rest => ?_⟩
        rw [carry, hmode, hmode', List.map_append, List.append_assoc]
        rfl
    | _ => cases hs

/-- Carrying out a program and flushing lays the pieces of what waited followed by the program. -/
theorem lays_flush_foldl_carry {d : Draft} {run : Run} (h : d.queue.Holds run)
    (program : List Statement) :
    d.Lays (Layout.piecesFrom d.queue.packing (run.map .instruction ++ program))
      (program.foldl carry d).flush := by
  induction program generalizing d run with
  | nil =>
    rw [List.append_nil, Layout.piecesFrom_run]
    exact (lays_flush h).1
  | cons s rest ih =>
    obtain ⟨ps, run', -, -, hlays, hholds, hpieces⟩ := exists_lays_carry h s
    rw [hpieces]
    exact hlays.trans (ih hholds)

end Draft

end PackedStack
