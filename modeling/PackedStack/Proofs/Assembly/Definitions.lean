import Mathlib.Data.Finset.Card
import Mathlib.Data.List.Induction
import PackedStack.Proofs.Assembly.Coverage

/-!
# The first definition of a label

A source may define a label again. What its labels should be can be told from its statements: each
label stands behind the cells of everything before it (`Source.definitions`), and is reported if its
name was defined before, together with the first definition of that name (`Source.redefinitions`).
Three logs are kept of this while the first pass goes on, and each of them tells it: the labels in
the map (`State.labels_map_run`), the table of labels (`State.labels_run`) and the warnings
(`State.warnings_run`). So the table has the first definition of every name and no other, and every
other definition is reported (`first_definition_wins`).
-/

namespace PackedStack

/-- What is made of each element of a list, given the elements before it. -/
def collect {α β : Type} (f : List α → α → Option β) (xs : List α) : List β :=
  xs.zipIdx.filterMap fun x => f (xs.take x.2) x.1

theorem collect_append_singleton {α β : Type} (f : List α → α → Option β) (xs : List α) (x : α) :
    collect f (xs ++ [x]) = collect f xs ++ (f xs x).toList := by
  have hbefore : xs.zipIdx.filterMap (fun y => f ((xs ++ [x]).take y.2) y.1) = collect f xs := by
    apply List.filterMap_congr
    intro y hy
    have hlt : y.2 < xs.length := by simpa using List.snd_lt_of_mem_zipIdx hy
    rw [List.take_append_of_le_length (Nat.le_of_lt hlt)]
  rw [collect, List.zipIdx_append, List.filterMap_append, hbefore]
  cases h : f xs x <;> simp [h]

namespace Source

/-- The labels that a program defines, in order. The address of a label is the number of cells that
the program needs up to there. -/
def definitions (program : List (Line × Statement)) : List (String × Definition) :=
  collect (fun before p => p.2.labelName?.map fun name =>
    (name, ⟨(Layout.cells (Layout.blocks (State.startup before))).length, p.1⟩)) program

/-- What is to be reported about definitions: each whose name was defined before, with the first
definition of that name. -/
def redefinitions (ds : List (String × Definition)) : List Redefinition :=
  collect (fun before d => (before.lookup d.1).map fun first => ⟨d.1, d.2.line, first⟩) ds

theorem definitions_append_label (program : List (Line × Statement)) (line : Line)
    (name : String) :
    definitions (program ++ [(line, .label name)]) =
      definitions program ++ [(name, ⟨(State.initial.run program).draft.flush.here, line⟩)] := by
  rw [definitions, collect_append_singleton, ← State.toList_image_flush_run,
    Draft.length_image_toList]
  rfl

theorem definitions_append_of_not_label (program : List (Line × Statement)) (line : Line)
    {s : Statement} (hs : s.labelName? = none) :
    definitions (program ++ [(line, s)]) = definitions program := by
  rw [definitions, collect_append_singleton, hs]
  exact List.append_nil _

theorem map_fst_definitions (program : List (Line × Statement)) :
    (definitions program).map (·.1) = (program.map (·.2)).filterMap (·.labelName?) := by
  induction program using List.reverseRecOn with
  | nil => rfl
  | append_singleton program p ih =>
    obtain ⟨line, s⟩ := p
    rw [List.map_append, List.filterMap_append, ← ih]
    cases hs : s.labelName? with
    | none =>
      rw [definitions_append_of_not_label program line hs]
      simp [hs]
    | some name =>
      obtain rfl := Statement.labelName?_eq_some_iff.1 hs
      rw [definitions_append_label, List.map_append]
      rfl

theorem redefinitions_append_singleton (ds : List (String × Definition)) (d : String × Definition) :
    redefinitions (ds ++ [d]) = redefinitions ds ++
      ((ds.lookup d.1).map fun first => (⟨d.1, d.2.line, first⟩ : Redefinition)).toList :=
  collect_append_singleton _ ds d

end Source

/-! ## The table of labels -/

namespace Labels

/-- The table after some definitions, one after the other. -/
def ofDefinitions (ds : List (String × Definition)) : Labels :=
  ds.foldl (fun labels d => labels.define d.1 d.2) .empty

theorem ofDefinitions_append_singleton (ds : List (String × Definition)) (d : String × Definition) :
    ofDefinitions (ds ++ [d]) = (ofDefinitions ds).define d.1 d.2 := by
  simp [ofDefinitions]

/-- The table has the first definition of each name. -/
theorem find?_ofDefinitions (ds : List (String × Definition)) (name : String) :
    (ofDefinitions ds).find? name = ds.lookup name := by
  induction ds using List.reverseRecOn with
  | nil => rfl
  | append_singleton ds d ih =>
    obtain ⟨other, definition⟩ := d
    rw [ofDefinitions_append_singleton, find?_define, ih, List.lookup_append, List.lookup_cons]
    by_cases h : name = other
    · simp [h]
    · simp [h, beq_false_of_ne h]

/-- The table has the names of the definitions, each of them once. -/
theorem size_ofDefinitions (ds : List (String × Definition)) :
    (ofDefinitions ds).size = (ds.map (·.1)).toFinset.card := by
  induction ds using List.reverseRecOn with
  | nil => rfl
  | append_singleton ds d ih =>
    have hnames : ((ds ++ [d]).map (·.1)).toFinset = insert d.1 (ds.map (·.1)).toFinset := by
      ext name
      simp
    have hmem : d.1 ∈ (ds.map (·.1)).toFinset ↔ (ds.lookup d.1).isSome := by
      simp only [List.mem_toFinset, List.mem_map, List.lookup_isSome_iff, beq_iff_eq,
        eq_comm (a := d.1)]
    rw [ofDefinitions_append_singleton, define, find?_ofDefinitions, hnames]
    cases h : ds.lookup d.1 with
    | some first =>
      rw [Finset.insert_eq_of_mem (hmem.2 (by simp [h]))]
      exact ih
    | none =>
      rw [Finset.card_insert_of_notMem (by simp [hmem, h]), ← ih]
      simp [size]

end Labels

/-! ## The first pass -/

namespace State

theorem run_append_singleton (s : State) (program : List (Line × Statement)) (line : Line)
    (st : Statement) : s.run (program ++ [(line, st)]) = (s.run program).execute line st := by
  simp [run]

/-- A statement that is no label leaves the table of labels and the warnings as they are. -/
theorem execute_of_not_label (s : State) (line : Line) {st : Statement}
    (hst : st.labelName? = none) :
    (s.execute line st).labels = s.labels ∧ (s.execute line st).warnings = s.warnings := by
  cases st with
  | label name => cases hst
  | _ => exact ⟨rfl, rfl⟩

/-- The labels of the map are the definitions of the program. -/
theorem labels_map_run (program : List (Line × Statement)) :
    Entry.labels (initial.run program).draft.map.toList =
      (Source.definitions program).map fun d => ⟨.label, d.1, d.2.offset⟩ := by
  induction program using List.reverseRecOn with
  | nil => rfl
  | append_singleton program p ih =>
    obtain ⟨line, st⟩ := p
    rw [run_append_singleton, draft_execute]
    cases hst : st.labelName? with
    | none =>
      rw [Source.definitions_append_of_not_label program line hst, ← ih]
      refine Draft.labels_carry_of_not_label _ fun name hname => ?_
      rw [hname] at hst
      cases hst
    | some name =>
      obtain rfl := Statement.labelName?_eq_some_iff.1 hst
      rw [Source.definitions_append_label, List.map_append, ← ih]
      exact Draft.labels_carry_label _ name

/-- The table of labels is made from the definitions of the program. -/
theorem labels_run (program : List (Line × Statement)) :
    (initial.run program).labels = .ofDefinitions (Source.definitions program) := by
  induction program using List.reverseRecOn with
  | nil => rfl
  | append_singleton program p ih =>
    obtain ⟨line, st⟩ := p
    rw [run_append_singleton]
    cases hst : st.labelName? with
    | none =>
      rw [Source.definitions_append_of_not_label program line hst, ← ih]
      exact (execute_of_not_label _ line hst).1
    | some name =>
      obtain rfl := Statement.labelName?_eq_some_iff.1 hst
      rw [Source.definitions_append_label, Labels.ofDefinitions_append_singleton, ← ih]
      rfl

/-- The warnings are what is to be reported about the definitions of the program. -/
theorem warnings_run (program : List (Line × Statement)) :
    (initial.run program).warnings.toList =
      Source.redefinitions (Source.definitions program) := by
  induction program using List.reverseRecOn with
  | nil => rfl
  | append_singleton program p ih =>
    obtain ⟨line, st⟩ := p
    rw [run_append_singleton]
    cases hst : st.labelName? with
    | none =>
      rw [Source.definitions_append_of_not_label program line hst, ← ih]
      rw [(execute_of_not_label _ line hst).2]
    | some name =>
      obtain rfl := Statement.labelName?_eq_some_iff.1 hst
      have hfirst : (initial.run program).labels.find? name =
          (Source.definitions program).lookup name := by
        rw [labels_run, Labels.find?_ofDefinitions]
      rw [Source.definitions_append_label, Source.redefinitions_append_singleton, ← ih, ← hfirst]
      simp only [execute, defineLabel]
      cases (initial.run program).labels.find? name <;> simp

end State

/-- The first definition of a label counts, and every other one is reported. The labels in the map
are those of the source, each at its own address. The table of labels has each name once, with the
offset of the first label in the map that has this name. There is a warning for each label whose
name was defined before, in the order of the source, and it gives the first definition of that name.
-/
theorem first_definition_wins {lines : List Line} {a : Assembly} (h : assemble lines = .ok a) :
    ∃ program, Source.read lines = .ok program ∧
      let definitions := Source.definitions program
      definitions.map (·.1) = Source.labelNames lines ∧
      a.map.filter (·.kind == .label) =
        definitions.map (fun d => ⟨.label, d.1, d.2.offset⟩) ∧
      (∀ name, a.labels.lookup name =
        (a.map.find? fun e => e.kind == .label && e.value == name).map (·.offset)) ∧
      a.labels.size = (Source.labelNames lines).toFinset.card ∧
      a.warnings = Source.redefinitions definitions := by
  obtain ⟨program, hread, hmade⟩ := Assembly.madeFrom_of_assemble h
  obtain ⟨rfl, hparse⟩ := Source.of_read_eq_ok hread
  have hnames : (Source.definitions program).map (·.1) =
      Source.labelNames (program.map (·.1)) := by
    rw [Source.map_fst_definitions, Source.labelNames_of_parse hparse]
  have hlabels : Entry.labels a.map =
      (Source.definitions program).map fun d => ⟨.label, d.1, d.2.offset⟩ := by
    rw [hmade.labels_map, ← State.labels_map_run, ← Draft.labels_flush,
      State.toList_map_flush_run, Layout.blocks_eq_map_pieces, Layout.entriesFrom_map_block]
    rfl
  refine ⟨program, hread, hnames, hlabels, fun name => ?_, ?_, ?_⟩
  · rw [hmade.labels, State.lookup_run, ← Entry.labelOffset?_labels, State.labels_map_run,
      ← hlabels, Entry.labelOffset?_labels]
    rfl
  · rw [hmade.labels, State.labels_run, Labels.size_ofDefinitions, hnames]
  · rw [hmade.warnings, State.warnings_run]

/-- A label with three definitions at three addresses: both warnings give the first. -/
theorem first_definition_wins_thrice :
    ∃ a program,
      assemble [⟨1, ":main"⟩, ⟨2, ":x"⟩, ⟨3, "dup"⟩, ⟨5, ":x"⟩, ⟨6, ".data &x"⟩, ⟨7, ":x"⟩] =
        .ok a ∧
      Source.read [⟨1, ":main"⟩, ⟨2, ":x"⟩, ⟨3, "dup"⟩, ⟨5, ":x"⟩, ⟨6, ".data &x"⟩, ⟨7, ":x"⟩] =
        .ok program ∧
      a.map.filter (·.kind == .label) =
        (Source.definitions program).map (fun d => ⟨.label, d.1, d.2.offset⟩) ∧
      a.map.filter (·.kind == .label) =
        [⟨.label, "main", 2⟩, ⟨.label, "x", 2⟩, ⟨.label, "x", 3⟩, ⟨.label, "x", 4⟩] ∧
      a.labels.lookup "x" = some 2 ∧
      a.labels.size = 2 ∧
      Source.redefinitions (Source.definitions program) =
        [⟨"x", ⟨5, ":x"⟩, 2, ⟨2, ":x"⟩⟩, ⟨"x", ⟨7, ":x"⟩, 2, ⟨2, ":x"⟩⟩] := by
  obtain ⟨a, ha, hmap, hwarnings⟩ : ∃ a, assemble [⟨1, ":main"⟩, ⟨2, ":x"⟩, ⟨3, "dup"⟩, ⟨5, ":x"⟩,
      ⟨6, ".data &x"⟩, ⟨7, ":x"⟩] = .ok a ∧
      a.map = [⟨.pointer, "2", 1⟩, ⟨.label, "main", 2⟩, ⟨.label, "x", 2⟩, ⟨.label, "x", 3⟩,
        ⟨.pointer, "2", 3⟩, ⟨.label, "x", 4⟩] ∧
      a.warnings = [⟨"x", ⟨5, ":x"⟩, 2, ⟨2, ":x"⟩⟩, ⟨"x", ⟨7, ":x"⟩, 2, ⟨2, ":x"⟩⟩] :=
    ⟨_, rfl, by decide, by decide⟩
  obtain ⟨program, hread, -, hlabels, hlookup, hsize, hreported⟩ := first_definition_wins ha
  refine ⟨a, program, ha, hread, hlabels, by rw [hmap]; decide, ?_, hsize, ?_⟩
  · rw [hlookup, hmap]
    decide
  · rw [← hreported, hwarnings]

end PackedStack
