import Mathlib.Logic.ExistsUnique
import PackedStack.Proofs.Assembly.Roles

/-!
# What the map covers

The map has an entry for every cell that is not code, except for the operands of instructions that
are laid by themselves. Before the second pass it lists the pieces of the layout in order
(`Assembly.MadeFrom.pairwise_map`); the second pass keeps the offsets and rewrites only what an
entry says about its cell (`Entry.of_resolve`). The cells that it tells of are the operands laid in
packed mode and the numbers laid as data (`Assembly.MadeFrom.exists_tellsCell_iff`), and its raw
entries are the other data (`Assembly.MadeFrom.raw_map`). With the roles of cells this accounts
for the whole image (`cells_accounted_for`).
-/

namespace PackedStack

open Layout (Piece Extent Placed)

/-- Whether a statement lays raw data. -/
def Statement.isRaw : Statement → Bool
  | text _ | allocate _ => true
  | _ => false

/-- What the map tells of raw data: the text, or the number of cells. -/
def Statement.rawText : Statement → String
  | text content => content
  | allocate count => String.ofList (Numeral.decimal count)
  | _ => ""

namespace Entry

/-- Whether an entry speaks of the cell at an address, in an image with the given blocks of data. A
raw entry speaks of its whole block; a label marks an address and speaks of no cell. -/
def Covers (blocks : List (Statement × Extent)) (e : Entry) (address : Nat) : Prop :=
  match e.kind with
  | .literal | .pointer => e.offset = address
  | .raw => ∃ b ∈ blocks, b.1.isRaw ∧ b.2.start = e.offset ∧ b.2.Covers address
  | .label => False

theorem covers_iff_of_tellsCell {e : Entry} (h : e.tellsCell) (blocks : List (Statement × Extent))
    (address : Nat) : e.Covers blocks address ↔ e.offset = address := by
  obtain ⟨kind, value, offset⟩ := e
  cases kind with
  | literal | pointer => exact Iff.rfl
  | label | raw => cases h

theorem covers_cases {blocks : List (Statement × Extent)} {e : Entry} {address : Nat}
    (h : e.Covers blocks address) :
    (e.tellsCell ∧ e.offset = address) ∨ ∃ b ∈ blocks, b.2.Covers address := by
  obtain ⟨kind, value, offset⟩ := e
  cases kind with
  | literal | pointer => exact .inl ⟨rfl, h⟩
  | label => cases h
  | raw =>
    obtain ⟨b, hb, -, -, hcovers⟩ := h
    exact .inr ⟨b, hb, hcovers⟩

/-- Resolving keeps the offset of an entry, and changes nothing else but a literal. -/
theorem of_resolve {labels : Labels} {e e' : Entry} (h : e.resolve labels = .ok e') :
    e'.offset = e.offset ∧ e'.tellsCell = e.tellsCell ∧ (e.kind ≠ .literal → e' = e) := by
  rcases resolve_cases h with ⟨rfl, -⟩ | ⟨hlit, -, w, -, rfl⟩
  · exact ⟨rfl, rfl, fun _ => rfl⟩
  · exact ⟨rfl, by simp [tellsCell, hlit], fun hne => absurd hlit hne⟩

theorem kind_eq_of_resolve {labels : Labels} {e e' : Entry} (h : e.resolve labels = .ok e')
    {kind : Kind} (hliteral : kind ≠ .literal) (hpointer : kind ≠ .pointer) :
    (e'.kind == kind) = (e.kind == kind) := by
  rcases resolve_cases h with ⟨rfl, -⟩ | ⟨hlit, -, w, -, rfl⟩
  · rfl
  · rw [hlit, beq_false_of_ne hliteral.symm, beq_false_of_ne hpointer.symm]

end Entry

namespace Assembly.MadeFrom

variable {a : Assembly} {program : List (Line × Statement)}

/-! ## The map and the places of pieces -/

section

variable (h : a.MadeFrom program)

include h

theorem mapM_resolve_entries :
    ((State.places program).flatMap Placed.entries).mapM (Entry.resolve a.labels) = .ok a.map := by
  have hmap := h.map
  rwa [Layout.blocks_eq_map_pieces, Layout.entriesFrom_map_block] at hmap

/-- The map is in the order of the offsets. -/
theorem pairwise_map : a.map.Pairwise Entry.Precedes := by
  have hentries : ((State.places program).flatMap Placed.entries).Pairwise Entry.Precedes := by
    rw [State.places, ← Layout.entriesFrom_map_block]
    exact Layout.pairwise_entriesFrom 0 _
  have hsame : (a.map.filter fun _ => true).map (fun e => (e.offset, e.tellsCell)) =
      (((State.places program).flatMap Placed.entries).filter fun _ => true).map
        fun e => (e.offset, e.tellsCell) := by
    refine map_filter_of_mapM h.mapM_resolve_entries fun e e' he => ⟨rfl, fun _ => ?_⟩
    obtain ⟨hoffset, htells, -⟩ := Entry.of_resolve he
    rw [hoffset, htells]
  rw [List.filter_true, List.filter_true] at hsame
  -- the order of two entries is told by what the two lists have in common
  have hpairs := List.pairwise_map (f := fun e : Entry => (e.offset, e.tellsCell))
    (R := fun x y => x.1 ≤ y.1 ∧ (x.2 → y.2 → x.1 < y.1)).2 hentries
  rw [← hsame, List.pairwise_map] at hpairs
  exact hpairs

/-- The map tells of the operands behind words and of numbers that are laid by themselves. -/
theorem exists_tellsCell_iff_places {address : Nat} :
    (∃ e ∈ a.map, e.tellsCell ∧ e.offset = address) ↔
      ∃ x ∈ State.places program, x.extent.Covers address ∧
        (x.piece.packing? = some .packed ∧ x.start < address ∨
          ∃ o, x.piece = .other (.data o)) := by
  have hsame : (a.map.filter (·.tellsCell)).map (·.offset) =
      (((State.places program).flatMap Placed.entries).filter (·.tellsCell)).map (·.offset) :=
    map_filter_of_mapM h.mapM_resolve_entries fun e e' he =>
      ⟨(Entry.of_resolve he).2.1, fun _ => (Entry.of_resolve he).1⟩
  have hmem : (∃ e ∈ a.map, e.tellsCell ∧ e.offset = address) ↔
      ∃ e ∈ (State.places program).flatMap Placed.entries, e.tellsCell ∧ e.offset = address := by
    have hiff := congrArg (address ∈ ·) hsame
    simpa only [List.mem_map, List.mem_filter, and_assoc, eq_iff_iff] using hiff
  rw [hmem]
  constructor
  · rintro ⟨e, he, htells, rfl⟩
    obtain ⟨x, hx, he⟩ := List.mem_flatMap.1 he
    obtain ⟨d, hd, rfl⟩ := List.mem_map.1 he
    obtain ⟨hlt, hpiece⟩ := Piece.exists_tellsCell_iff.1 ⟨d, hd, htells, rfl⟩
    refine ⟨x, hx, ⟨Nat.le_add_right _ _, Nat.add_lt_add_left hlt _⟩, ?_⟩
    exact hpiece.imp_left fun hpacked => ⟨hpacked.1, Nat.lt_add_of_pos_right hpacked.2⟩
  · rintro ⟨x, hx, hcovers, hpiece⟩
    obtain ⟨k, rfl⟩ := Nat.exists_eq_add_of_le hcovers.1
    have hlt : k < x.piece.size := Nat.lt_of_add_lt_add_left hcovers.2
    have hpiece' : x.piece.packing? = some .packed ∧ 0 < k ∨ ∃ o, x.piece = .other (.data o) :=
      hpiece.imp_left fun hpacked => ⟨hpacked.1, Nat.pos_of_lt_add_right hpacked.2⟩
    obtain ⟨e, he, htells, rfl⟩ := Piece.exists_tellsCell_iff.2 ⟨hlt, hpiece'⟩
    exact ⟨_, List.mem_flatMap.2 ⟨x, hx, List.mem_map_of_mem he⟩, htells, rfl⟩

/-- The second pass keeps the labels of the map. -/
theorem labels_map :
    Entry.labels a.map = Entry.labels ((State.places program).flatMap Placed.entries) := by
  have hsame : (Entry.labels a.map).map id =
      (Entry.labels ((State.places program).flatMap Placed.entries)).map id :=
    map_filter_of_mapM h.mapM_resolve_entries fun e e' he =>
      ⟨Entry.kind_eq_of_resolve he (by decide) (by decide), fun hlabel =>
        (Entry.of_resolve he).2.2 (by rw [beq_iff_eq.1 hlabel]; decide)⟩
  rwa [List.map_id, List.map_id] at hsame

/-- There is a raw entry for each statement with raw data, at the start of its block. -/
theorem raw_map :
    a.map.filter (·.kind == .raw) = ((State.initial.dataBlocks program).filter (·.1.isRaw)).map
      fun b => ⟨.raw, b.1.rawText, b.2.start⟩ := by
  have hsame : (a.map.filter (·.kind == .raw)).map id =
      (((State.places program).flatMap Placed.entries).filter (·.kind == .raw)).map id :=
    map_filter_of_mapM h.mapM_resolve_entries fun e e' he =>
      ⟨Entry.kind_eq_of_resolve he (by decide) (by decide), fun hraw =>
        (Entry.of_resolve he).2.2 (by rw [beq_iff_eq.1 hraw]; decide)⟩
  rw [List.map_id, List.map_id] at hsame
  rw [hsame, State.dataBlocks_eq_places, List.filterMap_eq_flatMap_toList, List.filter_flatMap,
    List.filter_flatMap, List.map_flatMap]
  refine List.flatMap_congr fun x _ => ?_
  obtain ⟨start, piece⟩ := x
  cases piece with
  | word group =>
    rw [Layout.filter_entries_word start group (by decide)]
    rfl
  | single i => rfl
  | other s => cases s <;> rfl

theorem offset_raw :
    (a.map.filter (·.kind == .raw)).map (·.offset) =
      ((State.initial.dataBlocks program).filter (·.1.isRaw)).map (·.2.start) := by
  rw [h.raw_map, List.map_map]
  rfl

/-- A block of raw data has an entry that speaks of its cells. -/
theorem exists_covers_of_raw {b : Statement × Extent} (hb : b ∈ State.initial.dataBlocks program)
    (hraw : b.1.isRaw) {address : Nat} (haddress : b.2.Covers address) :
    ∃ e ∈ a.map, e.Covers (State.initial.dataBlocks program) address := by
  have hmem : b.2.start ∈ (a.map.filter (·.kind == .raw)).map (·.offset) := by
    rw [h.offset_raw]
    exact List.mem_map.2 ⟨b, List.mem_filter.2 ⟨hb, hraw⟩, rfl⟩
  obtain ⟨e, he, hoffset⟩ := List.mem_map.1 hmem
  obtain ⟨he, hkind⟩ := List.mem_filter.1 he
  refine ⟨e, he, ?_⟩
  rw [Entry.Covers, beq_iff_eq.1 hkind]
  exact ⟨b, hb, hraw, hoffset.symm, haddress⟩

end

/-! ## The map and the roles of cells -/

section

variable (h : a.MadeFrom program)
  (hparse : ∀ p ∈ program, Statement.parse p.1.text = .ok p.2)

include h hparse

/-- The map tells of the operands laid in packed mode and of the numbers laid as data. -/
theorem exists_tellsCell_iff {address : Nat} :
    (∃ e ∈ a.map, e.tellsCell ∧ e.offset = address) ↔
      (∃ word number, a.image.HasRole (State.initial.dataBlocks program) address
          (.operand word number) ∧ State.initial.packingAt address program = .packed) ∨
        ∃ block number o extent, a.image.HasRole (State.initial.dataBlocks program) address
          (.data block number) ∧
            (State.initial.dataBlocks program)[block]? = some (.data o, extent) := by
  rw [h.exists_tellsCell_iff_places]
  constructor
  · rintro ⟨x, hx, hcovers, hpiece⟩
    obtain ⟨role, hrole⟩ := h.exists_role_of_covers hparse hx hcovers
    rcases hpiece with ⟨hpacked, hlt⟩ | ⟨o, ho⟩
    · have hcode := Piece.isCode_of_packing? hpacked
      rw [h.role_of_isCode hparse hx hcode hcovers hrole, if_neg (Nat.ne_of_gt hlt)] at hrole
      exact .inl ⟨_, _, hrole, State.packingAt_of_mem_places hx hpacked hcovers⟩
    · obtain ⟨block, number, rfl⟩ := h.role_of_not_isCode hparse hx (by rw [ho]; rfl) hcovers hrole
      obtain ⟨y, hy, b, hb, hyb, hycovers⟩ := exists_place_of_data hrole
      obtain rfl := Layout.eq_of_covers hx hy hcovers hycovers
      obtain ⟨hother, -, -⟩ := Placed.dataBlock?_eq_some_iff.1 hyb
      obtain ⟨s, extent⟩ := b
      obtain rfl : Statement.data o = s := Piece.other.inj (ho.symm.trans hother)
      exact .inr ⟨block, number, o, extent, hrole, hb⟩
  · rintro (⟨word, number, hrole, hmode⟩ | ⟨block, number, o, extent, hrole, hblock⟩)
    · obtain ⟨x, hx, hcode, rfl, hcovers⟩ := h.exists_place_of_operand hparse hrole
      obtain ⟨mode, hpacking⟩ := Piece.exists_packing? hcode
      obtain rfl := (State.packingAt_of_mem_places hx hpacking hcovers).symm.trans hmode
      obtain ⟨-, -, rfl⟩ := hrole
      exact ⟨x, hx, hcovers, .inl ⟨hpacking, by omega⟩⟩
    · obtain ⟨x, hx, b, hb, hxb, hcovers⟩ := exists_place_of_data hrole
      obtain rfl : (Statement.data o, extent) = b := Option.some.inj (hblock.symm.trans hb)
      exact ⟨x, hx, hcovers, .inr ⟨o, (Placed.dataBlock?_eq_some_iff.1 hxb).1⟩⟩

/-- The map speaks of every cell that is no code, except for operands laid in unpacked mode. -/
theorem not_covered_iff {address : Nat} (haddress : address < a.image.size)
    (hcode : address ∉ a.image.codeAddresses) :
    (¬ ∃ e ∈ a.map, e.Covers (State.initial.dataBlocks program) address) ↔
      ∃ word number, a.image.HasRole (State.initial.dataBlocks program) address
        (.operand word number) ∧ State.initial.packingAt address program = .unpacked := by
  have htells : (∃ e ∈ a.map, e.tellsCell ∧ e.offset = address) →
      ∃ e ∈ a.map, e.Covers (State.initial.dataBlocks program) address := by
    rintro ⟨e, he, hcell, hoffset⟩
    exact ⟨e, he, (Entry.covers_iff_of_tellsCell hcell _ _).2 hoffset⟩
  constructor
  · intro hnone
    obtain ⟨role, hrole⟩ := h.exists_role hparse haddress
    cases role with
    | code => exact absurd hrole hcode
    | operand word number =>
      refine ⟨word, number, hrole, ?_⟩
      cases hmode : State.initial.packingAt address program with
      | unpacked => rfl
      | packed =>
        exact absurd (htells ((h.exists_tellsCell_iff hparse).2 (.inl ⟨_, _, hrole, hmode⟩))) hnone
    | data block number =>
      obtain ⟨x, hx, ⟨s, extent⟩, hb, hxb, hcovers⟩ := exists_place_of_data hrole
      obtain ⟨-, hsize, hextent⟩ := Placed.dataBlock?_eq_some_iff.1 hxb
      refine absurd ?_ hnone
      cases hraw : s.isRaw with
      | true => exact h.exists_covers_of_raw (List.mem_of_getElem? hb) hraw (hextent ▸ hcovers)
      | false =>
        obtain ⟨o, rfl⟩ : ∃ o, s = .data o := by
          cases s with
          | data o => exact ⟨o, rfl⟩
          | text content | allocate count => cases hraw
          | _ => cases hsize
        exact htells ((h.exists_tellsCell_iff hparse).2 (.inr ⟨_, _, o, extent, hrole, hb⟩))
  · rintro ⟨word, number, hrole, hmode⟩ ⟨e, he, hcovers⟩
    rcases Entry.covers_cases hcovers with hcell | ⟨b, hb, hbcovers⟩
    · rcases (h.exists_tellsCell_iff hparse).1 ⟨e, he, hcell⟩ with
        ⟨-, -, -, hpacked⟩ | ⟨block, k, -, -, hdata, -⟩
      · rw [hmode] at hpacked
        cases hpacked
      · cases h.role_unique hparse hrole hdata
    · obtain ⟨block, -, hdata⟩ := a.image.exists_hasRole_data hb hbcovers
      cases h.role_unique hparse hrole hdata

end

end Assembly.MadeFrom

/-- Every cell of an assembly is accounted for. Each is a word, an operand of one word or a cell of
one statement with data, and nothing runs behind an opcode that leaves its word. The map tells once
of each operand that was laid in packed mode and of each number laid as data, has a raw entry at the
start of each other block of data, and leaves out no cell but code and the operands laid in unpacked
mode. Its offsets do not decrease. -/
theorem cells_accounted_for {lines : List Line} {a : Assembly} (h : assemble lines = .ok a) :
    ∃ program, Source.read lines = .ok program ∧
      let blocks := State.initial.dataBlocks program
      let mode := fun address => State.initial.packingAt address program
      blocks.map (·.1) = (program.map (·.2)).filter (·.dataSize?.isSome) ∧
      (∀ address < a.image.size, ∃! role, a.image.HasRole blocks address role) ∧
      (∀ address role, a.image.HasRole blocks address role → address < a.image.size) ∧
      (∀ c ∈ a.image.codeAddresses, ∃ w slots, a.image.contents[c]? = some w ∧
        Word.decode? w = some slots ∧ slots.toList.Pairwise fun o o' => o.isFlow → o' = .nop) ∧
      ((a.map.filter (·.tellsCell)).map (·.offset)).Nodup ∧
      (∀ address, address ∈ (a.map.filter (·.tellsCell)).map (·.offset) ↔
        (∃ word number, a.image.HasRole blocks address (.operand word number) ∧
          mode address = .packed) ∨
        ∃ block number o extent, a.image.HasRole blocks address (.data block number) ∧
          blocks[block]? = some (.data o, extent)) ∧
      (a.map.filter (·.kind == .raw)).map (·.offset) =
        (blocks.filter (·.1.isRaw)).map (·.2.start) ∧
      (∀ address < a.image.size, address ∉ a.image.codeAddresses →
        ((¬ ∃ e ∈ a.map, e.Covers blocks address) ↔
          ∃ word number, a.image.HasRole blocks address (.operand word number) ∧
            mode address = .unpacked)) ∧
      (a.map.map (·.offset)).Pairwise (· ≤ ·) := by
  obtain ⟨program, hread, hmade⟩ := Assembly.madeFrom_of_assemble h
  obtain ⟨rfl, hparse⟩ := Source.of_read_eq_ok hread
  have horder := hmade.pairwise_map
  refine ⟨program, hread, State.initial.map_fst_dataBlocks program, ?_, ?_, ?_, ?_, ?_,
    hmade.offset_raw, ?_, ?_⟩
  · intro address haddress
    obtain ⟨role, hrole⟩ := hmade.exists_role hparse haddress
    exact ⟨role, hrole, fun role' hrole' => hmade.role_unique hparse hrole' hrole⟩
  · exact fun address role hrole => hmade.lt_size_of_hasRole hparse hrole
  · exact fun c hc => hmade.exists_slots_of_code hc
  · rw [List.Nodup, List.pairwise_map, List.pairwise_filter]
    exact horder.imp fun hprecedes htells htells' => Nat.ne_of_lt (hprecedes.2 htells htells')
  · intro address
    rw [← hmade.exists_tellsCell_iff hparse]
    simp only [List.mem_map, List.mem_filter, and_assoc]
  · exact fun address haddress hcode => hmade.not_covered_iff hparse haddress hcode
  · rw [List.pairwise_map]
    exact horder.imp fun hprecedes => hprecedes.1

/-- A source with both modes, an empty allocation and an operand of which the map does not tell. -/
theorem cells_accounted_for_unpacked_operand :
    ∃ a program,
      assemble [⟨1, ":main"⟩, ⟨2, "lit 1"⟩, ⟨3, "ret"⟩, ⟨4, ".allocate 0"⟩, ⟨5, ".unpacked"⟩,
        ⟨6, "lit 2"⟩, ⟨7, ".string a"⟩, ⟨8, ".data 3"⟩] = .ok a ∧
      Source.read [⟨1, ":main"⟩, ⟨2, "lit 1"⟩, ⟨3, "ret"⟩, ⟨4, ".allocate 0"⟩, ⟨5, ".unpacked"⟩,
        ⟨6, "lit 2"⟩, ⟨7, ".string a"⟩, ⟨8, ".data 3"⟩] = .ok program ∧
      a.image.size = 9 ∧
      (∃! role, a.image.HasRole (State.initial.dataBlocks program) 5 role) ∧
      ¬ (∃ e ∈ a.map, e.Covers (State.initial.dataBlocks program) 5) ∧
      (a.map.filter (·.kind == .raw)).map (·.offset) = [4, 6] := by
  obtain ⟨a, ha, hsize, hcode, hword⟩ : ∃ a, assemble [⟨1, ":main"⟩, ⟨2, "lit 1"⟩, ⟨3, "ret"⟩,
      ⟨4, ".allocate 0"⟩, ⟨5, ".unpacked"⟩, ⟨6, "lit 2"⟩, ⟨7, ".string a"⟩, ⟨8, ".data 3"⟩] =
        .ok a ∧
      a.image.size = 9 ∧ a.image.codeAddresses = [0, 2, 4] ∧ a.image.operandCount 4 = 1 :=
    ⟨_, rfl, by decide, by decide, by decide⟩
  obtain ⟨program, hread, -, hrole, -, -, -, -, hraw, hcovers, -⟩ := cells_accounted_for ha
  refine ⟨a, program, ha, hread, hsize, hrole 5 (by omega), ?_, ?_⟩
  · rw [hcovers 5 (by omega) (by rw [hcode]; decide)]
    refine ⟨4, 0, ⟨by rw [hcode]; decide, by rw [hword]; decide, rfl⟩, ?_⟩
    cases hread
    decide
  · rw [hraw]
    cases hread
    decide

end PackedStack
