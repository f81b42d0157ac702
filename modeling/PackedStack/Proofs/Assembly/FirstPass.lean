import PackedStack.Assembly.State
import PackedStack.Proofs.Layout.Streaming

/-!
# The first pass

What the first pass knows after a program: the draft has the pieces of the program behind the two
instructions with which every program starts (`State.lays_flush_run`), and the table of labels gives
each name the offset of its first label in the map (`State.lookup_run`). Together they say that the
first pass, which sees one statement after the other, arrives at the layout of the whole program
(`State.run_eq_layout`).
-/

namespace PackedStack

/-! ## The labels of the map -/

/-- The labels among the entries of a map. -/
def Entry.labels (entries : List Entry) : List Entry := entries.filter (·.kind == .label)

/-- The offset of the first label with a name. -/
def Entry.labelOffset? (name : String) (entries : List Entry) : Option Nat :=
  (entries.find? fun e => e.kind == .label && e.value == name).map (·.offset)

theorem Entry.labelOffset?_labels (name : String) (entries : List Entry) :
    labelOffset? name (labels entries) = labelOffset? name entries := by
  rw [labelOffset?, labels, List.find?_filter, labelOffset?]
  congr 2
  funext e
  rw [Bool.eq_iff_iff]
  simp

theorem Entry.labelOffset?_append (name : String) (entries more : List Entry) :
    labelOffset? name (entries ++ more) =
      (labelOffset? name entries).or (labelOffset? name more) := by
  rw [labelOffset?, List.find?_append, Option.map_or]
  rfl

theorem Entry.labelOffset?_append_label (name other : String) (entries : List Entry)
    (offset : Nat) :
    labelOffset? other (entries ++ [⟨.label, name, offset⟩]) =
      (labelOffset? other entries).or (if other = name then some offset else none) := by
  rw [labelOffset?_append]
  by_cases h : other = name
  · simp [labelOffset?, h]
  · simp [labelOffset?, h, Ne.symm h]

theorem Queue.kind_of_mem_flush {q : Queue} {e : Entry} (h : e ∈ q.flush.2.entries) :
    e.kind = .literal := by
  rw [Queue.flush] at h
  split at h
  · cases h
  · obtain ⟨l, -, rfl⟩ := List.mem_map.1 h
    rfl

theorem Queue.kind_of_mem_feed {q : Queue} {i : Instruction Operand} {e : Entry}
    (h : e ∈ (q.feed i).2.entries) : e.kind = .literal := by
  simp only [Queue.feed] at h
  split at h
  · cases h
  · split at h
    · exact kind_of_mem_flush h
    · cases h

namespace Draft

theorem labels_lay (d : Draft) {b : Block} (h : ∀ e ∈ b.entries, e.kind ≠ .label) :
    Entry.labels (d.lay b).map.toList = Entry.labels d.map.toList := by
  have hmore : Entry.labels (b.entries.map (·.shift d.here)) = [] := by
    apply List.filter_eq_nil_iff.2
    intro e he
    obtain ⟨e', he', rfl⟩ := List.mem_map.1 he
    simpa [Entry.shift] using h e' he'
  rw [toList_map_lay, Entry.labels, List.filter_append, ← Entry.labels, ← Entry.labels, hmore,
    List.append_nil]

theorem labels_flush (d : Draft) :
    Entry.labels d.flush.map.toList = Entry.labels d.map.toList :=
  d.labels_lay fun e he => by simp [Queue.kind_of_mem_flush he]

theorem labels_carry_of_not_label (d : Draft) {s : Statement} (hs : ∀ name, s ≠ .label name) :
    Entry.labels (d.carry s).map.toList = Entry.labels d.map.toList := by
  have hplace : ∀ b : Block, (∀ e ∈ b.entries, e.kind ≠ .label) →
      Entry.labels (d.place b).map.toList = Entry.labels d.map.toList :=
    fun b hb => (d.flush.labels_lay hb).trans d.labels_flush
  cases s with
  | label name => exact absurd rfl (hs name)
  | instruction i => exact d.labels_lay fun e he => by simp [Queue.kind_of_mem_feed he]
  | output path => rfl
  | data operand => exact hplace (.data operand) (by simp [Block.data])
  | packing mode => exact d.labels_flush
  | text content => exact hplace (.text content) (by simp [Block.text])
  | allocate count => exact hplace (.zeros count) (by simp [Block.zeros])

/-- A label is added to the map at the address behind what waits. -/
theorem labels_carry_label (d : Draft) (name : String) :
    Entry.labels (d.carry (.label name)).map.toList =
      Entry.labels d.map.toList ++ [⟨.label, name, d.flush.here⟩] := by
  show Entry.labels (d.flush.lay (.label name)).map.toList = _
  rw [toList_map_lay, Entry.labels, List.filter_append, ← Entry.labels, labels_flush]
  rfl

theorem labelOffset?_flush (name : String) (d : Draft) :
    Entry.labelOffset? name d.flush.map.toList = Entry.labelOffset? name d.map.toList := by
  rw [← Entry.labelOffset?_labels, labels_flush, Entry.labelOffset?_labels]

/-- A statement adds a label to the map exactly if it is one. -/
theorem labelOffset?_carry (name : String) (d : Draft) (s : Statement) :
    Entry.labelOffset? name (d.carry s).map.toList =
      (Entry.labelOffset? name d.map.toList).or
        (if s = .label name then some d.flush.here else none) := by
  rw [← Entry.labelOffset?_labels]
  by_cases hs : ∃ other, s = .label other
  · obtain ⟨other, rfl⟩ := hs
    rw [labels_carry_label, Entry.labelOffset?_append_label, Entry.labelOffset?_labels]
    simp [eq_comm]
  · rw [not_exists] at hs
    rw [labels_carry_of_not_label d hs, Entry.labelOffset?_labels, if_neg (hs name), Option.or_none]

end Draft

/-! ## A whole program -/

theorem Labels.lookup_define (labels : Labels) (name other : String) (definition : Definition) :
    (labels.define name definition).lookup other =
      (labels.lookup other).or (if other = name then some definition.offset else none) := by
  rw [Labels.lookup, Labels.find?_define, Option.map_or, Labels.lookup]
  split <;> rfl

namespace State

/-- Carries out the statements of a program, each on its line. -/
def run (s : State) (program : List (Line × Statement)) : State :=
  program.foldl (fun s p => s.execute p.1 p.2) s

/-- The statements of a program behind those with which every program starts. -/
def startup (program : List (Line × Statement)) : List Statement :=
  bootstrap.map .instruction ++ program.map (·.2)

theorem startup_append (program rest : List (Line × Statement)) :
    startup (program ++ rest) = startup program ++ rest.map (·.2) := by
  rw [startup, List.map_append, ← List.append_assoc]
  rfl

theorem draft_execute (s : State) (line : Line) (st : Statement) :
    (s.execute line st).draft = s.draft.carry st := by
  cases st <;> rfl

theorem draft_run (s : State) (program : List (Line × Statement)) :
    (s.run program).draft = (program.map (·.2)).foldl Draft.carry s.draft := by
  induction program generalizing s with
  | nil => rfl
  | cons p program ih =>
    rw [List.map_cons, List.foldl_cons, ← draft_execute s p.1 p.2, ← ih]
    rfl

/-- The draft after a program, flushed, has the pieces of the whole program. -/
theorem lays_flush_run (program : List (Line × Statement)) :
    Draft.empty.Lays (Layout.piecesFrom .packed (startup program))
      (initial.run program).draft.flush := by
  have hdraft : (initial.run program).draft = (startup program).foldl Draft.carry .empty := by
    rw [draft_run, startup, List.foldl_append]
    rfl
  have hholds : Draft.empty.queue.Holds [] := Queue.holds_nil .packed
  rw [hdraft]
  exact Draft.lays_flush_foldl_carry hholds (startup program)

theorem lookup_execute (s : State) (line : Line) (st : Statement) (name : String) :
    (s.execute line st).labels.lookup name =
      (s.labels.lookup name).or (if st = .label name then some s.draft.flush.here else none) := by
  cases st with
  | label other => simp [execute, defineLabel, Labels.lookup_define, eq_comm]
  | _ => simp [execute]

/-- The table of labels and the map agree on every label. -/
theorem lookup_run (program : List (Line × Statement)) (name : String) :
    (initial.run program).labels.lookup name =
      Entry.labelOffset? name (initial.run program).draft.map.toList := by
  have key : ∀ s : State, s.labels.lookup name = Entry.labelOffset? name s.draft.map.toList →
      (s.run program).labels.lookup name =
        Entry.labelOffset? name (s.run program).draft.map.toList := by
    induction program with
    | nil => exact fun s h => h
    | cons p program ih =>
      intro s h
      refine ih (s.execute p.1 p.2) ?_
      rw [lookup_execute, draft_execute, Draft.labelOffset?_carry, h]
  exact key initial rfl

theorem toList_image_flush_run (program : List (Line × Statement)) :
    (initial.run program).draft.flush.image.toList =
      Layout.cells (Layout.blocks (startup program)) := by
  rw [(lays_flush_run program).image, Layout.blocks_eq_map_pieces]
  rfl

theorem toList_map_flush_run (program : List (Line × Statement)) :
    (initial.run program).draft.flush.map.toList =
      Layout.entriesFrom 0 (Layout.blocks (startup program)) := by
  rw [(lays_flush_run program).map, Layout.blocks_eq_map_pieces]
  rfl

/-- The table of labels gives each name the offset of its first label in the map of the layout. -/
theorem lookup_run_eq (program : List (Line × Statement)) (name : String) :
    (initial.run program).labels.lookup name =
      Entry.labelOffset? name (Layout.entriesFrom 0 (Layout.blocks (startup program))) := by
  rw [← toList_map_flush_run, Draft.labelOffset?_flush, lookup_run]

/-- The first pass, which takes one statement after the other, and the layout of the whole program
agree on the cells, on which of them are code, on the map, and on the offset of every label. -/
theorem run_eq_layout (program : List (Line × Statement)) :
    let draft := (initial.run program).draft.flush
    let blocks := Layout.blocks (startup program)
    draft.image.toList = Layout.cells blocks ∧
      draft.image.codeAddresses = Layout.codeFrom 0 blocks ∧
      draft.map.toList = Layout.entriesFrom 0 blocks ∧
      ∀ name, (initial.run program).labels.lookup name =
        Entry.labelOffset? name (Layout.entriesFrom 0 blocks) := by
  have himage := toList_image_flush_run program
  have hmap := toList_map_flush_run program
  refine ⟨himage, ?_, hmap, fun name => ?_⟩
  · rw [← Layout.codeAddressesFrom_cells, ← himage]
    rfl
  · rw [← hmap, Draft.labelOffset?_flush, lookup_run]

end State

end PackedStack
