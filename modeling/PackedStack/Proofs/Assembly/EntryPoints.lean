import PackedStack.Proofs.Assembly.Coverage

/-!
# Labels are entry points

A label ends the run before it, so that the layout of a program falls apart at the label: the pieces
of what is before it end where it stands, and those of what is after it start there. Code on the two
sides of such a cut reads back as the instructions on its two sides
(`Assembly.MadeFrom.disassemble?_of_cut`), and a cell at the cut is the first cell of its piece
(`Assembly.MadeFrom.role_at_cut`). This holds for every label of a source, also for one that is
defined again (`label_is_entry_point`).
-/

namespace PackedStack

open Layout (Piece Extent Placed)

/-! ## Labels in the map -/

namespace Layout

/-- A piece leaves an entry for a label exactly if it is one. -/
theorem Placed.map_value_labels (x : Placed) :
    (x.entries.filter (·.kind == .label)).map (·.value) =
      x.piece.statements.filterMap (·.labelName?) := by
  obtain ⟨start, piece⟩ := x
  cases piece with
  | word group =>
    rw [filter_entries_word start group (by decide), Piece.statements, List.filterMap_map]
    exact (List.filterMap_eq_nil_iff.2 fun _ _ => rfl).symm
  | single i => rfl
  | other s => cases s <;> rfl

/-- The labels of a program are in the map, in the order of the program. -/
theorem map_value_labels (base : Nat) (mode : Packing) (program : List Statement) :
    (((placeFrom base (piecesFrom mode program)).flatMap Placed.entries).filter
        (·.kind == .label)).map (·.value) = program.filterMap (·.labelName?) := by
  have hplaced : program.filterMap (·.labelName?) =
      (program.filter (·.isPlaced)).filterMap (·.labelName?) := by
    rw [List.filterMap_filter]
    refine List.filterMap_congr fun s _ => ?_
    cases s <;> rfl
  rw [hplaced, ← statements_piecesFrom mode, List.filterMap_flatMap, List.filter_flatMap,
    List.map_flatMap]
  conv_rhs => rw [← map_piece_placeFrom base (piecesFrom mode program), List.flatMap_map]
  exact List.flatMap_congr fun x _ => x.map_value_labels

end Layout

/-! ## Cutting an image between two pieces -/

namespace Assembly.MadeFrom

variable {a : Assembly} {program : List (Line × Statement)} {ps qs : List Piece}

section

variable (h : a.MadeFrom program)
  (hpieces : Layout.piecesFrom .packed (State.startup program) = ps ++ qs)

include h hpieces

theorem size_image_of_cut : a.image.size = Layout.span ps + Layout.span qs := by
  rw [h.size_image, hpieces, Layout.span_append]

/-- The code below a cut is that of the pieces before it, and the code above it that of the others.
-/
theorem filter_codeAddresses_of_cut :
    a.image.codeAddresses.filter (· < Layout.span ps) =
        Layout.codeAddressesFrom 0 (Layout.cells (ps.map Piece.block)) ∧
      a.image.codeAddresses.filter (Layout.span ps ≤ ·) =
        Layout.codeAddressesFrom (Layout.span ps) (Layout.cells (qs.map Piece.block)) := by
  have hcode := h.codeAddresses_eq
  rw [hpieces, List.map_append, Layout.cells_append, Layout.codeAddressesFrom_append,
    Nat.zero_add] at hcode
  have hbelow : ∀ c ∈ Layout.codeAddressesFrom 0 (Layout.cells (ps.map Piece.block)),
      c < Layout.span ps := by
    intro c hc
    have hbounds := Layout.bounds_of_mem_codeAddressesFrom hc
    omega
  have habove : ∀ c ∈ Layout.codeAddressesFrom (Layout.span ps)
      (Layout.cells (qs.map Piece.block)), Layout.span ps ≤ c :=
    fun c hc => (Layout.bounds_of_mem_codeAddressesFrom hc).1
  rw [hcode, List.filter_append, List.filter_append]
  constructor
  · rw [List.filter_eq_self.2 fun c hc => decide_eq_true (hbelow c hc),
      List.filter_eq_nil_iff.2 fun c hc => ?_, List.append_nil]
    simpa using habove c hc
  · rw [List.filter_eq_nil_iff.2 fun c hc => ?_, List.nil_append]
    · exact List.filter_eq_self.2 fun c hc => decide_eq_true (habove c hc)
    · simpa using hbelow c hc

variable (hparse : ∀ p ∈ program, Statement.parse p.1.text = .ok p.2)

include hparse

/-- Code reads back on the two sides of a cut as the instructions on the two sides. -/
theorem disassemble?_of_cut :
    a.image.disassemble? (a.image.codeAddresses.filter (· < Layout.span ps)) =
        some (Instruction.effective ((ps.flatMap Piece.run).map
          (Instruction.map (Operand.valueIn a.labels)))) ∧
      a.image.disassemble? (a.image.codeAddresses.filter (Layout.span ps ≤ ·)) =
        some (Instruction.effective ((qs.flatMap Piece.run).map
          (Instruction.map (Operand.valueIn a.labels)))) := by
  obtain ⟨hbelow, habove⟩ := h.filter_codeAddresses_of_cut hpieces
  rw [hbelow, habove]
  constructor
  · exact h.disassemble?_pieces hparse (show _ = [] ++ (ps ++ qs) from hpieces)
  · exact h.disassemble?_pieces hparse (show _ = ps ++ (qs ++ []) by rw [hpieces, List.append_nil])

/-- A cell at a cut is code or the first cell of a block of data, but no operand and not inside of a
block. -/
theorem role_at_cut (hlt : Layout.span ps < a.image.size) :
    (Layout.span ps ∈ a.image.codeAddresses ∨
        ∃ b ∈ State.initial.dataBlocks program, Layout.span ps = b.2.start ∧ 0 < b.2.size) ∧
      (∀ word number, ¬ a.image.HasRole (State.initial.dataBlocks program) (Layout.span ps)
        (.operand word number)) ∧
      ∀ b ∈ State.initial.dataBlocks program,
        ¬ (b.2.start < Layout.span ps ∧ Layout.span ps < b.2.start + b.2.size) := by
  have hfirst : ∀ x ∈ State.places program, x.extent.Covers (Layout.span ps) →
      x.start = Layout.span ps := by
    intro x hx hcovers
    rw [State.places, hpieces] at hx
    exact Layout.start_eq_of_covers_span hx hcovers
  refine ⟨?_, ?_, ?_⟩
  · obtain ⟨role, hrole⟩ := h.exists_role hparse hlt
    obtain ⟨x, hx, hcovers⟩ := h.exists_place_of_hasRole hparse hrole
    have hstart := hfirst x hx hcovers
    cases hcode : x.piece.isCode with
    | true => exact .inl (h.mem_codeAddresses_iff.2 ⟨x, hx, hcode, hstart⟩)
    | false =>
      obtain ⟨b, hb, hextent⟩ := exists_dataBlock? hcode hcovers
      refine .inr ⟨b, ?_, ?_, ?_⟩
      · rw [State.dataBlocks_eq_places]
        exact List.mem_filterMap.2 ⟨x, hx, hb⟩
      · rw [hextent, ← hstart]
        rfl
      · obtain ⟨hge, hlt⟩ := hextent ▸ hcovers
        omega
  · intro word number hrole
    obtain ⟨x, hx, -, hword, hcovers⟩ := h.exists_place_of_operand hparse hrole
    have hstart := hfirst x hx hcovers
    obtain ⟨-, -, heq⟩ := hrole
    omega
  · rintro b hb ⟨hgt, hend⟩
    rw [State.dataBlocks_eq_places] at hb
    obtain ⟨x, hx, hxb⟩ := List.mem_filterMap.1 hb
    have hextent : b.2 = x.extent := (Placed.dataBlock?_eq_some_iff.1 hxb).2.2
    have hcovers : b.2.Covers (Layout.span ps) := ⟨Nat.le_of_lt hgt, hend⟩
    rw [hextent] at hcovers hgt
    exact Nat.ne_of_lt hgt (hfirst x hx hcovers)

end

/-- The label that stands at a cut is in the map behind the labels before it, with the address of
the cut as its offset. -/
theorem getElem?_labels_of_cut (h : a.MadeFrom program) {name : String} {qs : List Piece}
    (hpieces : Layout.piecesFrom .packed (State.startup program) =
      ps ++ .other (.label name) :: qs) :
    (a.map.filter (·.kind == .label))[(((Layout.placeFrom 0 ps).flatMap Placed.entries).filter
      (·.kind == .label)).length]? = some ⟨.label, name, Layout.span ps⟩ := by
  have hlabels := h.labels_map
  rw [State.places, hpieces, Layout.placeFrom_append, List.flatMap_append, Entry.labels,
    Entry.labels, List.filter_append] at hlabels
  rw [hlabels, List.getElem?_append_right (Nat.le_refl _), Nat.sub_self, Layout.placeFrom,
    Nat.zero_add]
  rfl

end Assembly.MadeFrom

/-! ## Labels -/

/-- A source whose lines are cut at one of them has a program that is cut there. -/
theorem Source.exists_of_read_append_cons {before after : List Line} {line : Line}
    {program : List (Line × Statement)} (h : Source.read (before ++ line :: after) = .ok program) :
    ∃ p s q, program = p ++ (line, s) :: q ∧ p.map (·.1) = before ∧ q.map (·.1) = after ∧
      Statement.parse line.text = .ok s := by
  obtain ⟨hlines, hparse⟩ := Source.of_read_eq_ok h
  obtain ⟨p, q', rfl, hbefore, hrest⟩ := List.map_eq_append_iff.1 hlines.symm
  obtain ⟨⟨line', s⟩, q, rfl, rfl, hafter⟩ := List.map_eq_cons_iff.1 hrest
  exact ⟨p, s, q, rfl, hbefore, hafter, hparse (line', s) (by simp)⟩

/-- The labels of some lines of a source are counted by the entries of their pieces. -/
theorem Source.length_labelNames {program : List (Line × Statement)}
    (h : ∀ p ∈ program, Statement.parse p.1.text = .ok p.2) :
    (labelNames (program.map (·.1))).length =
      (((Layout.placeFrom 0 (Layout.piecesFrom .packed (State.startup program))).flatMap
        Placed.entries).filter (·.kind == .label)).length := by
  have hlabels := Layout.map_value_labels 0 .packed (State.startup program)
  have hstartup : (State.startup program).filterMap (·.labelName?) =
      labelNames (program.map (·.1)) := by
    rw [labelNames_of_parse h, State.startup, List.filterMap_append]
    rfl
  rw [← hstartup, ← hlabels, List.length_map]

/-- A program starts with the jump to `main`. -/
theorem State.effective_startup {labels : Labels} {offset : Nat}
    (h : labels.lookup entryLabel = some offset) (program : List (Line × Statement)) :
    Instruction.effective (((startup program).filterMap (·.instruction?)).map
        (Instruction.map (Operand.valueIn labels))) =
      ⟨.lit, some (Word.ofAddress offset)⟩ :: ⟨.jump, none⟩ ::
        Instruction.effective (((program.map (·.2)).filterMap (·.instruction?)).map
          (Instruction.map (Operand.valueIn labels))) := by
  have hstartup : (startup program).filterMap (·.instruction?) =
      bootstrap ++ (program.map (·.2)).filterMap (·.instruction?) := List.filterMap_append
  rw [hstartup, List.map_append, Instruction.effective_append]
  simp [bootstrap, Instruction.map, Instruction.effective,
    Operand.valueIn_of_resolve (resolve_entry h)]

/-- Every label is an exact entry point, also one that is defined again. Its entry in the map gives
an address in the image behind the jump to `main`. The code below that address reads back as the
jump and the instructions before the label, and the code from there on as those after it. The cell
at the address, if there is one, is code or the first cell of a block of data, but no operand and
not inside of a block. -/
theorem label_is_entry_point {before after : List Line} {line : Line} {name : String} {a : Assembly}
    (h : assemble (before ++ line :: after) = .ok a)
    (hlabel : line.statement? = some (.label name)) :
    ∃ program o main is js,
      Source.read (before ++ line :: after) = .ok program ∧
      (a.map.filter (·.kind == .label))[(Source.labelNames before).length]? =
        some ⟨.label, name, o⟩ ∧
      2 ≤ o ∧ o ≤ a.image.size ∧
      a.labels.lookup State.entryLabel = some main ∧
      (Source.instructions before).mapM (Instruction.resolve a.labels) = .ok is ∧
      a.image.disassemble? (a.image.codeAddresses.filter (· < o)) =
        some (⟨.lit, some (Word.ofAddress main)⟩ :: ⟨.jump, none⟩ :: Instruction.effective is) ∧
      (Source.instructions after).mapM (Instruction.resolve a.labels) = .ok js ∧
      a.image.disassemble? (a.image.codeAddresses.filter (o ≤ ·)) =
        some (Instruction.effective js) ∧
      (o < a.image.size →
        (o ∈ a.image.codeAddresses ∨
          ∃ b ∈ State.initial.dataBlocks program, o = b.2.start ∧ 0 < b.2.size) ∧
        (∀ word number,
          ¬ a.image.HasRole (State.initial.dataBlocks program) o (.operand word number)) ∧
        ∀ b ∈ State.initial.dataBlocks program,
          ¬ (b.2.start < o ∧ o < b.2.start + b.2.size)) := by
  obtain ⟨program, hread, hmade⟩ := Assembly.madeFrom_of_assemble h
  obtain ⟨p, s, q, rfl, rfl, rfl, hs⟩ := Source.exists_of_read_append_cons hread
  have hparse := (Source.of_read_eq_ok hread).2
  obtain rfl : s = .label name := by simpa [Line.statement?, hs, Except.toOption] using hlabel
  obtain ⟨offset, hmain⟩ := hmade.main
  have hdivides : (Statement.label name).divides := rfl
  have hpieces := State.piecesFrom_startup_append_cons hdivides line p q
  obtain ⟨hbelow, habove⟩ := hmade.disassemble?_of_cut hpieces hparse
  rw [Layout.run_piecesFrom, State.effective_startup hmain] at hbelow
  rw [List.flatMap_cons, Layout.run_piecesFrom] at habove
  refine ⟨_, Layout.span (Layout.piecesFrom .packed (State.startup p)), offset, _, _, hread, ?_, ?_,
    ?_, hmain, hmade.mapM_resolve_instructions_of_subset hparse (List.subset_append_left p _),
    hbelow, hmade.mapM_resolve_instructions_of_subset hparse ?_, habove,
    hmade.role_at_cut hpieces hparse⟩
  · rw [Source.length_labelNames fun x hx => hparse x (List.mem_append_left _ hx)]
    exact hmade.getElem?_labels_of_cut hpieces
  · rw [State.piecesFrom_startup, Layout.span_cons]
    exact Nat.le_add_right 2 _
  · rw [hmade.size_image_of_cut hpieces]
    exact Nat.le_add_right _ _
  · exact fun x hx => List.mem_append_right p (List.mem_cons_of_mem _ hx)

/-- The second definition of a label, behind a literal that waits for its word. -/
theorem label_is_entry_point_redefined :
    ∃ a o, assemble ([⟨1, ":main"⟩, ⟨2, ":x"⟩, ⟨3, "lit &x"⟩, ⟨4, "dup"⟩] ++
        ⟨5, ":x"⟩ :: [⟨6, ".data 7"⟩, ⟨7, "ret"⟩]) = .ok a ∧
      (a.map.filter (·.kind == .label))[2]? = some ⟨.label, "x", o⟩ ∧ 2 ≤ o ∧ o ≤ a.image.size ∧
      a.image.disassemble? (a.image.codeAddresses.filter (o ≤ ·)) = some [⟨.ret, none⟩] := by
  obtain ⟨a, ha⟩ : ∃ a, assemble ([⟨1, ":main"⟩, ⟨2, ":x"⟩, ⟨3, "lit &x"⟩, ⟨4, "dup"⟩] ++
    ⟨5, ":x"⟩ :: [⟨6, ".data 7"⟩, ⟨7, "ret"⟩]) = .ok a := ⟨_, rfl⟩
  have hlabel : Line.statement? ⟨5, ":x"⟩ = some (.label "x") := rfl
  obtain ⟨program, o, main, is, js, -, hentry, hge, hle, -, -, -, hafter, habove, -⟩ :=
    label_is_entry_point ha hlabel
  cases hafter
  exact ⟨a, o, ha, hentry, hge, hle, habove⟩

end PackedStack
