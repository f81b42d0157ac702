import Mathlib.Data.List.Induction
import PackedStack.Proofs.Assembly.Coverage
import PackedStack.Proofs.Assembly.Map
import PackedStack.Proofs.Report.Rows
import PackedStack.Proofs.Source.Load
import PackedStack.Proofs.Source.Spelling

/-!
# What a listing shows

The listing of an assembly can be read back row by row (`Assembly.mapM_read?_listing`), since what
it shows was written in single lines and holds no newline (`Assembly.newline_not_mem_listing`). It
shows the whole image. A code cell always decodes, so that its row has mnemonics and nothing
else; no entry of the map is lost by that but those of allocations of no cells, as every other entry
speaks of a cell that is no code (`Assembly.MadeFrom.eq_allocate_of_raw`). Together this says what
`listing_faithful` states.
-/

namespace PackedStack

open Layout (Piece Extent Placed)

/-! ## Newlines -/

/-- What an entry says is the end of the spelling of the statement that it is for. -/
theorem Layout.Piece.exists_suffix_of_mem_entries {p : Piece} {e : Entry}
    (h : e ∈ p.block.entries) : ∃ s ∈ p.statements, e.value.toList <:+ s.spell.toList := by
  cases p with
  | word group =>
    obtain ⟨j, hj, rfl⟩ := List.mem_mapIdx.1 h
    obtain ⟨⟨opcode, operand⟩, hi, hoperand⟩ := List.mem_filterMap.1 (List.getElem_mem hj)
    have hoperand : operand = some (operands group)[j] := hoperand
    refine ⟨.instruction ⟨opcode, operand⟩, List.mem_map_of_mem hi, ?_⟩
    rw [hoperand]
    exact ⟨(opcode.mnemonic ++ " ").toList, (String.toList_append ..).symm⟩
  | single i => cases h
  | other s =>
    refine ⟨s, List.mem_singleton_self s, ?_⟩
    cases s with
    | label name =>
      obtain rfl := List.mem_singleton.1 h
      exact ⟨":".toList, (String.toList_append ..).symm⟩
    | data operand =>
      obtain rfl := List.mem_singleton.1 h
      exact ⟨".d ".toList, (String.toList_append ..).symm⟩
    | text content =>
      obtain rfl := List.mem_singleton.1 h
      exact ⟨".s ".toList, (String.toList_append ..).symm⟩
    | allocate count =>
      obtain rfl := List.mem_singleton.1 h
      exact ⟨".a ".toList, (String.toList_append ..).symm⟩
    | _ => cases h

/-- An entry of the map holds no newline if the source was written in lines. -/
theorem Assembly.MadeFrom.newline_not_mem_value {a : Assembly} {program : List (Line × Statement)}
    (h : a.MadeFrom program) (hspell : ∀ p ∈ program, '\n' ∉ p.2.spell.toList) {e : Entry}
    (he : e ∈ a.map) : '\n' ∉ e.value.toList := by
  have hstartup : ∀ s ∈ State.startup program, '\n' ∉ s.spell.toList := by
    intro s hs
    rcases List.mem_append.1 hs with hs | hs
    · obtain ⟨i, hi, rfl⟩ := List.mem_map.1 hs
      rcases List.mem_cons.1 hi with rfl | hi
      · decide
      · rw [List.mem_singleton.1 hi]
        decide
    · obtain ⟨p, hp, rfl⟩ := List.mem_map.1 hs
      exact hspell p hp
  obtain ⟨e', he', hresolve⟩ := exists_of_mem_of_mapM h.mapM_resolve_entries he
  obtain ⟨x, hx, hentry⟩ := List.mem_flatMap.1 he'
  obtain ⟨d, hd, rfl⟩ := List.mem_map.1 hentry
  obtain ⟨s, hs, hsuffix⟩ := Piece.exists_suffix_of_mem_entries hd
  have hmem : s ∈ (State.startup program).filter (·.isPlaced) := by
    rw [← Layout.statements_piecesFrom .packed]
    exact List.mem_flatMap.2 ⟨x.piece, Layout.piece_mem_of_mem_placeFrom hx, hs⟩
  rcases Entry.resolve_cases hresolve with ⟨rfl, -⟩ | ⟨-, -, w, -, rfl⟩
  · exact fun hnewline => hstartup s (List.mem_filter.1 hmem).1 (hsuffix.subset hnewline)
  · exact fun hnewline => absurd (Text.isBlank_of_mem_toDecimal hnewline) (by decide)

theorem Text.not_mem_intercalate {c : Char} {separator : String} (hc : c ∉ separator.toList)
    {texts : List String} (h : ∀ text ∈ texts, c ∉ text.toList) :
    c ∉ (separator.intercalate texts).toList := by
  induction texts with
  | nil => exact List.not_mem_nil
  | cons text texts ih =>
    have htext := h text List.mem_cons_self
    have ih := ih fun t ht => h t (List.mem_cons_of_mem text ht)
    by_cases hnil : texts = []
    · rw [hnil, String.intercalate_singleton]
      exact htext
    · rw [String.intercalate_cons_of_ne_nil hnil, String.toList_append, String.toList_append,
        List.mem_append, List.mem_append]
      rintro ((hmem | hmem) | hmem)
      · exact htext hmem
      · exact hc hmem
      · exact ih hmem

namespace Listing

theorem newline_not_mem_colour (c : Colour) {text : String} (h : '\n' ∉ text.toList) :
    '\n' ∉ (Style.colour c text).toList := by
  have hon : '\n' ∉ (Style.control c.parameter).toList := by cases c <;> decide
  have hoff : '\n' ∉ (Style.control "39").toList := by decide
  rw [Style.colour, String.toList_append, String.toList_append, List.mem_append, List.mem_append]
  rintro ((hmem | hmem) | hmem)
  · exact hon hmem
  · exact h hmem
  · exact hoff hmem

theorem newline_not_mem_labelRow {name : String} (h : '\n' ∉ name.toList) :
    '\n' ∉ (labelRow name).toList := by
  have hname : '\n' ∉ (":" ++ name).toList := by simpa using h
  have hfront : '\n' ∉ "       |          | ".toList := by decide
  unfold labelRow
  rw [String.toList_append, List.mem_append]
  rintro (hmem | hmem)
  · exact hfront hmem
  · exact newline_not_mem_colour .green hname hmem

theorem newline_not_mem_note {e : Entry} {note : String} (h : '\n' ∉ e.value.toList)
    (hnote : note? e = some note) : '\n' ∉ note.toList := by
  rw [note?] at hnote
  split at hnote <;> cases hnote
  · exact newline_not_mem_colour _ (by simpa using h)
  · exact newline_not_mem_colour _ (by simpa using h)
  · exact newline_not_mem_colour _ (by simpa using h)

theorem newline_not_mem_body (c : Cell Word) {entries : List Entry}
    (h : ∀ e ∈ entries, '\n' ∉ e.value.toList) : '\n' ∉ (body c entries).toList := by
  rw [body]
  split
  · rw [codeBody]
    refine Text.not_mem_intercalate (by decide) fun text htext => ?_
    obtain ⟨o, -, rfl⟩ := List.mem_map.1 htext
    refine newline_not_mem_colour .red ?_
    cases o <;> decide
  · refine Text.not_mem_intercalate (by decide) fun text htext => ?_
    obtain ⟨e, he, hnote⟩ := List.mem_filterMap.1 htext
    exact newline_not_mem_note (h e he) hnote

theorem newline_not_mem_cellRow (address : Nat) (c : Cell Word) {entries : List Entry}
    (h : ∀ e ∈ entries, '\n' ∉ e.value.toList) :
    '\n' ∉ (cellRow address c entries).toList := by
  have hhex : ∀ width n, '\n' ∉ Numeral.hex width n :=
    fun width n => Numeral.not_mem_hex (by decide)
  have hbody := newline_not_mem_body c h
  simp [cellRow, hhex, hbody]

end Listing

theorem Assembly.newline_not_mem_listing {a : Assembly} (h : ∀ e ∈ a.map, '\n' ∉ e.value.toList) :
    ∀ row ∈ a.listing, '\n' ∉ row.toList := by
  intro row hrow
  have hrule : '\n' ∉ Listing.rule.toList := by decide
  rcases List.mem_append.1 hrow with hrow | hrow
  · rcases List.mem_cons.1 hrow with rfl | hrow
    · exact hrule
    · obtain ⟨c, -, hrow⟩ := List.mem_flatMap.1 hrow
      have hentries : ∀ e ∈ a.map.filter (·.offset == c.2), '\n' ∉ e.value.toList :=
        fun e he => h e (List.mem_filter.1 he).1
      rcases List.mem_append.1 hrow with hrow | hrow
      · obtain ⟨e, he, rfl⟩ := List.mem_map.1 hrow
        exact Listing.newline_not_mem_labelRow (hentries e (List.mem_filter.1 he).1)
      · rw [List.mem_singleton.1 hrow]
        exact Listing.newline_not_mem_cellRow c.2 c.1 hentries
  · rw [List.mem_singleton.1 hrow]
    exact hrule

/-! ## Rows -/

namespace Assembly

/-- What the row of the cell at an address says about it. -/
def bodyAt (a : Assembly) (address : Nat) : List Char :=
  a.image.toList[address]?.elim [] fun c =>
    (Listing.body c (a.map.filter (·.offset == address))).toList

/-- The rows of a listing are read as what they were written for. -/
theorem mapM_read?_listing (a : Assembly) :
    (a.listing.map (·.toList)).mapM Listing.Row.read? =
      some (.rule :: (a.image.contents.zipIdx.flatMap fun c =>
        (a.map.filter fun e => e.kind == .label && e.offset == c.2).map (.label ·.value) ++
          [.cell c.2 c.1 (a.bodyAt c.2)]) ++ [.rule]) := by
  have hlabel : (Listing.Row.read? ∘ (·.toList) ∘ fun e : Entry => Listing.labelRow e.value) =
      some ∘ fun e => .label e.value := funext fun e => Listing.Row.read?_labelRow e.value
  rw [mapM_eq_some_iff, listing, Image.contents, List.zipIdx_map]
  simp only [List.map_append, List.map_cons, List.map_nil, Listing.Row.read?_rule, List.map_flatMap,
    List.flatMap_map, Listing.rowsAt, List.map_map, List.filter_filter, Listing.Row.read?_cellRow,
    hlabel]
  congr 2
  refine List.flatMap_congr fun c hc => ?_
  simp only [Prod.map_fst, Prod.map_snd, id_eq, bodyAt, List.mem_zipIdx_iff_getElem?.1 hc,
    Option.elim_some]

/-- The row of any other cell has the notes of the map at its address. -/
theorem bodyAt_of_not_mem (a : Assembly) {address : Nat} (hlt : address < a.image.size)
    (hcode : address ∉ a.image.codeAddresses) :
    a.bodyAt address =
      (" ".intercalate ((a.map.filter (·.offset == address)).filterMap Listing.note?)).toList := by
  rw [← Image.length_toList] at hlt
  have hcell := List.getElem?_eq_getElem hlt
  have hdata : (a.image.toList[address]).isCode = false := by
    rw [← Bool.not_eq_true]
    exact fun hiscode => hcode (Image.mem_codeAddresses_iff.2 ⟨_, hcell, hiscode⟩)
  rw [bodyAt, hcell, Option.elim_some, Listing.body, hdata]

end Assembly

/-- Those at an address or below it are those below it and those at it. -/
theorem length_filter_lt_succ {α : Type} (f : α → Nat) (xs : List α) (n : Nat) :
    (xs.filter (f · < n + 1)).length =
      (xs.filter (f · < n)).length + (xs.filter (f · == n)).length := by
  induction xs with
  | nil => rfl
  | cons x xs ih =>
    rcases Nat.lt_trichotomy (f x) n with hlt | heq | hgt
    · rw [List.filter_cons_of_pos (by simp; omega), List.filter_cons_of_pos (by simpa using hlt),
        List.filter_cons_of_neg (by simp; omega), List.length_cons, List.length_cons, ih]
      omega
    · rw [List.filter_cons_of_pos (by simp; omega), List.filter_cons_of_neg (by simp; omega),
        List.filter_cons_of_pos (by simpa using heq), List.length_cons, List.length_cons, ih]
      omega
    · rw [List.filter_cons_of_neg (by simp; omega), List.filter_cons_of_neg (by simp; omega),
        List.filter_cons_of_neg (by simp; omega), ih]

/-- How many rows there are if every cell has one, and one more for each element at its address. -/
theorem length_flatMap_zipIdx {α β γ : Type} (f : α → Nat) (xs : List α) {rows : β × Nat → List γ}
    (h : ∀ c, (rows c).length = (xs.filter (f · == c.2)).length + 1) (cells : List β) :
    (cells.zipIdx.flatMap rows).length =
      cells.length + (xs.filter (f · < cells.length)).length := by
  induction cells using List.reverseRecOn with
  | nil => simp
  | append_singleton cells cell ih =>
    have hcell : (rows (cell, cells.length)).length =
        (xs.filter (f · == cells.length)).length + 1 := h _
    rw [List.zipIdx_append, List.flatMap_append, List.length_append, ih, List.length_append,
      List.length_singleton, length_filter_lt_succ, List.zipIdx_singleton, List.flatMap_singleton,
      Nat.zero_add]
    omega

theorem Assembly.length_listing (a : Assembly) :
    a.listing.length = a.image.size + 2 +
      (a.map.filter fun e => e.kind == .label && e.offset < a.image.size).length := by
  have hrows : ∀ c : Cell Word × Nat,
      (Listing.rowsAt c.2 c.1 (a.map.filter (·.offset == c.2))).length =
        ((a.map.filter (·.kind == .label)).filter (·.offset == c.2)).length + 1 := by
    intro c
    rw [Listing.rowsAt, List.length_append, List.length_map, List.length_singleton,
      List.filter_filter, List.filter_filter]
    simp only [Bool.and_comm]
  have hlabels : (a.map.filter (·.kind == .label)).filter (·.offset < a.image.size) =
      a.map.filter fun e => e.kind == .label && e.offset < a.image.size := by
    rw [List.filter_filter]
    simp only [Bool.and_comm]
  rw [listing, List.length_append, List.length_cons, length_flatMap_zipIdx Entry.offset _ hrows,
    Image.length_toList, hlabels, List.length_singleton]
  omega

/-- The row of a code cell always has its mnemonics. -/
theorem Assembly.MadeFrom.readCode?_bodyAt {a : Assembly} {program : List (Line × Statement)}
    (h : a.MadeFrom program) {address : Nat} (hcode : address ∈ a.image.codeAddresses) :
    ∃ w, a.image.contents[address]? = some w ∧ Listing.readCode? (a.bodyAt address) = some w := by
  obtain ⟨w, slots, hw, hdecode, -⟩ := h.exists_slots_of_code hcode
  obtain ⟨cell, hcell, hiscode⟩ := Image.mem_codeAddresses_iff.1 hcode
  have hcontent : cell.content = w := by
    rw [Image.contents, List.getElem?_map, hcell] at hw
    exact Option.some.inj hw
  have hbody : a.bodyAt address = (Listing.codeBody slots).toList := by
    simp only [bodyAt, hcell, Option.elim_some, Listing.body, hiscode, hcontent, hdecode]
  refine ⟨w, hw, ?_⟩
  rw [hbody, Listing.readCode?_codeBody, Word.decode?_eq_some_iff.1 hdecode]

/-! ## Entries that are shown -/

theorem Text.infix_intercalate {separator text : String} {texts : List String} (h : text ∈ texts) :
    text.toList <:+: (separator.intercalate texts).toList := by
  induction texts with
  | nil => cases h
  | cons t texts ih =>
    by_cases hnil : texts = []
    · rw [hnil] at h ⊢
      obtain rfl := List.mem_singleton.1 h
      exact ⟨[], [], by rw [String.intercalate_singleton, List.nil_append, List.append_nil]⟩
    · rw [String.intercalate_cons_of_ne_nil hnil, String.toList_append, String.toList_append]
      rcases List.mem_cons.1 h with rfl | h
      · rw [List.append_assoc]
        exact (List.prefix_append _ _).isInfix
      · exact (ih h).trans (List.suffix_append _ _).isInfix

/-- An entry that is no label has a note with what it says. -/
theorem Listing.exists_note {e : Entry} (h : e.kind ≠ .label) :
    ∃ note, note? e = some note ∧ e.value.toList <:+: note.toList := by
  have hcolour (c : Colour) (text : String) : text.toList <:+: (Style.colour c text).toList := by
    rw [Style.colour, String.toList_append, String.toList_append]
    exact ⟨_, _, rfl⟩
  have hvalue (c : Colour) (front : String) :
      e.value.toList <:+: (Style.colour c (front ++ e.value)).toList := by
    refine List.IsInfix.trans ?_ (hcolour c (front ++ e.value))
    rw [String.toList_append]
    exact (List.suffix_append _ _).isInfix
  cases hkind : e.kind with
  | label => exact absurd hkind h
  | pointer => exact ⟨_, by rw [note?, hkind], hvalue .cyan _⟩
  | raw => exact ⟨_, by rw [note?, hkind], hvalue .magenta _⟩
  | literal => exact ⟨_, by rw [note?, hkind], hvalue .yellow _⟩

/-- A cell that is no code shows each entry at its address. -/
theorem Assembly.exists_note_infix_bodyAt {a : Assembly} {e : Entry} (he : e ∈ a.map)
    (hkind : e.kind ≠ .label) (hlt : e.offset < a.image.size)
    (hcode : e.offset ∉ a.image.codeAddresses) :
    ∃ note, Listing.note? e = some note ∧ e.value.toList <:+: note.toList ∧
      note.toList <:+: a.bodyAt e.offset := by
  obtain ⟨note, hnote, hvalue⟩ := Listing.exists_note hkind
  refine ⟨note, hnote, hvalue, ?_⟩
  rw [a.bodyAt_of_not_mem hlt hcode]
  have hentry : e ∈ a.map.filter (·.offset == e.offset) :=
    List.mem_filter.2 ⟨he, beq_self_eq_true e.offset⟩
  exact Text.infix_intercalate (List.mem_filterMap.2 ⟨e, hentry, hnote⟩)

/-! ## Entries that are not shown -/

namespace Assembly.MadeFrom

variable {a : Assembly} {program : List (Line × Statement)}

/-- An operand is no code. -/
theorem raw_of_not_shown (h : a.MadeFrom program) {e : Entry} (he : e ∈ a.map)
    (hkind : e.kind ≠ .label)
    (hat : ¬ (e.offset < a.image.size ∧ e.offset ∉ a.image.codeAddresses)) :
    e.kind = .raw := by
  have hnot : ¬ (e.kind = .literal ∨ e.kind = .pointer) := by
    intro htells
    obtain ⟨o, w, -, -, hcell, -⟩ := h.operand_of_mem_map he htells
    obtain ⟨hlt, hcode, -⟩ := Image.of_getElem?_data hcell
    exact hat ⟨hlt, hcode⟩
  cases hk : e.kind with
  | label => exact absurd hk hkind
  | literal => exact absurd (.inl hk) hnot
  | pointer => exact absurd (.inr hk) hnot
  | raw => rfl

/-- The cells of raw data are no code, so that only raw data without cells can be where code is. -/
theorem eq_allocate_of_raw (h : a.MadeFrom program)
    (hparse : ∀ p ∈ program, Statement.parse p.1.text = .ok p.2)
    {b : Statement × Extent} (hb : b ∈ State.initial.dataBlocks program) (hraw : b.1.isRaw)
    (hat : ¬ (b.2.start < a.image.size ∧ b.2.start ∉ a.image.codeAddresses)) :
    b.1 = .allocate 0 ∧ (b.2.start ∈ a.image.codeAddresses ∨ b.2.start = a.image.size) := by
  have hblock := hb
  rw [State.dataBlocks_eq_places] at hblock
  obtain ⟨x, hx, hxb⟩ := List.mem_filterMap.1 hblock
  obtain ⟨-, hsize, hextent⟩ := Placed.dataBlock?_eq_some_iff.1 hxb
  have hempty : b.2.size = 0 := by
    by_contra hne
    have hcovers : b.2.Covers b.2.start := ⟨Nat.le_refl _, by omega⟩
    obtain ⟨block, -, hdata⟩ := a.image.exists_hasRole_data hb hcovers
    refine hat ⟨h.lt_size_of_hasRole hparse hdata, fun hcode => ?_⟩
    have hrole : a.image.HasRole (State.initial.dataBlocks program) b.2.start .code := hcode
    cases h.role_unique hparse hdata hrole
  have hnone : x.piece.size = 0 := by
    rw [hextent] at hempty
    exact hempty
  constructor
  · rw [hnone] at hsize
    obtain ⟨s, extent⟩ := b
    cases s with
    | text content => cases hsize
    | allocate count => rw [Option.some.inj hsize]
    | _ => cases hraw
  · have hend := (Layout.bounds_of_mem_placeFrom hx).2
    have hstart : b.2.start = x.start := by rw [hextent]; rfl
    rw [Nat.zero_add, ← h.size_image, hnone, ← hstart] at hend
    by_cases hcode : b.2.start ∈ a.image.codeAddresses
    · exact .inl hcode
    · have hlt : ¬ b.2.start < a.image.size := fun hlt => hat ⟨hlt, hcode⟩
      exact .inr (by omega)

/-- Raw data is laid by the statements with raw data, in their order. -/
theorem map_fst_filter_dataBlocks (program : List (Line × Statement)) :
    ((State.initial.dataBlocks program).filter (·.1.isRaw)).map (·.1) =
      (program.map (·.2)).filter (·.isRaw) := by
  have hfilter : ((State.initial.dataBlocks program).filter (·.1.isRaw)).map (·.1) =
      ((State.initial.dataBlocks program).map (·.1)).filter (·.isRaw) := by
    rw [List.filter_map]
    rfl
  rw [hfilter, State.map_fst_dataBlocks, List.filter_filter]
  refine List.filter_congr fun s _ => ?_
  cases s <;> rfl

end Assembly.MadeFrom

/-- The listing shows the whole assembly. It has a rule, then the rows of each address in order, and
another rule; at an address are the labels in the order of the map and then one cell, with its
value. The mnemonics of a code cell give its value once more. Any other cell shows what the map says
about it, in the order of the map. So everything that the map says is in the row of its offset,
except that it says something about raw data without cells where there is code, or behind the last
cell. -/
theorem listing_faithful {bytes : List UInt8} {lines : List Line} {a : Assembly}
    (hload : Source.load bytes = .ok lines) (h : assemble lines = .ok a) :
    ∃ (program : List (Line × Statement)) (rows : List (List Char)) (body : Nat → List Char),
      Source.read lines = .ok program ∧
      let size := a.image.size
      let code := a.image.codeAddresses
      let raw := (program.map (·.2)).filter (·.isRaw)
      Text.splitOn '\n' (printRows a.listing).toList = rows ++ [[]] ∧
      rows.mapM Listing.Row.read? =
        some (.rule :: (a.image.contents.zipIdx.flatMap fun c =>
          (a.map.filter fun e => e.kind == .label && e.offset == c.2).map (.label ·.value) ++
            [.cell c.2 c.1 (body c.2)]) ++ [.rule]) ∧
      rows.length =
        size + 2 + (a.map.filter fun e => e.kind == .label && e.offset < size).length ∧
      (∀ c ∈ code, ∃ w, a.image.contents[c]? = some w ∧ Listing.readCode? (body c) = some w) ∧
      (∀ c < size, c ∉ code → body c =
        (" ".intercalate ((a.map.filter (·.offset == c)).filterMap Listing.note?)).toList) ∧
      (∀ e ∈ a.map, e.kind ≠ .label →
        (e.offset < size ∧ e.offset ∉ code ∧ ∃ note, Listing.note? e = some note ∧
          e.value.toList <:+: note.toList ∧ note.toList <:+: body e.offset) ∨
        e.kind = .raw ∧ (e.offset ∈ code ∨ e.offset = size)) ∧
      (a.map.filter (·.kind == .raw)).map (·.value) = raw.map (·.rawText) ∧
      ∀ (k : Nat) (e : Entry), (a.map.filter (·.kind == .raw))[k]? = some e →
        e.offset ∈ code ∨ e.offset = size →
        raw[k]? = some (.allocate 0) := by
  obtain ⟨program, hread, hmade⟩ := Assembly.madeFrom_of_assemble h
  obtain ⟨rfl, hparse⟩ := Source.of_read_eq_ok hread
  have hvalues : ∀ e ∈ a.map, '\n' ∉ e.value.toList := by
    intro e he
    refine hmade.newline_not_mem_value (fun p hp => ?_) he
    exact Statement.newline_not_mem_spell (hparse p hp)
      (Source.of_mem_load hload (List.mem_map_of_mem hp)).2.2
  refine ⟨program, a.listing.map (·.toList), a.bodyAt, hread,
    splitOn_printRows (Assembly.newline_not_mem_listing hvalues), a.mapM_read?_listing, ?_,
    fun c hc => hmade.readCode?_bodyAt hc, fun c => a.bodyAt_of_not_mem, ?_, ?_, ?_⟩
  · rw [List.length_map, a.length_listing]
  · intro e he hkind
    by_cases hat : e.offset < a.image.size ∧ e.offset ∉ a.image.codeAddresses
    · exact .inl ⟨hat.1, hat.2, Assembly.exists_note_infix_bodyAt he hkind hat.1 hat.2⟩
    · have hraw := hmade.raw_of_not_shown he hkind hat
      have hmem : e ∈ a.map.filter (·.kind == .raw) := List.mem_filter.2 ⟨he, beq_iff_eq.2 hraw⟩
      rw [hmade.raw_map] at hmem
      obtain ⟨b, hb, rfl⟩ := List.mem_map.1 hmem
      obtain ⟨hblock, hisraw⟩ := List.mem_filter.1 hb
      exact .inr ⟨hraw, (hmade.eq_allocate_of_raw hparse hblock hisraw hat).2⟩
  · rw [hmade.raw_map, List.map_map, ← Assembly.MadeFrom.map_fst_filter_dataBlocks, List.map_map]
    rfl
  · intro k e hk hat
    rw [hmade.raw_map, List.getElem?_map, Option.map_eq_some_iff] at hk
    obtain ⟨b, hb, rfl⟩ := hk
    obtain ⟨hblock, hisraw⟩ := List.mem_filter.1 (List.mem_of_getElem? hb)
    have hnot : ¬ (b.2.start < a.image.size ∧ b.2.start ∉ a.image.codeAddresses) :=
      fun hshown => hat.elim hshown.2 (Nat.ne_of_lt hshown.1)
    have hempty := (hmade.eq_allocate_of_raw hparse hblock hisraw hnot).1
    rw [← Assembly.MadeFrom.map_fst_filter_dataBlocks, List.getElem?_map, hb, ← hempty]
    rfl

/-- Two allocations of no cells, one in front of code and one at the end of the image, are not
shown, but all else is. -/
theorem listing_faithful_empty_allocations :
    ∃ (lines : List Line) (a : Assembly) (program : List (Line × Statement))
      (rows : List (List Char)) (body : Nat → List Char),
      Source.load (Utf8.encode ".a 0\n:main\nret\n:x\n.d -7\n.a 0") = .ok lines ∧
      assemble lines = .ok a ∧ Source.read lines = .ok program ∧
      a.map = [⟨.pointer, "2", 1⟩, ⟨.raw, "0", 2⟩, ⟨.label, "main", 2⟩, ⟨.label, "x", 3⟩,
        ⟨.literal, "-7", 3⟩, ⟨.raw, "0", 4⟩] ∧
      a.image.codeAddresses = [0, 2] ∧ a.image.size = 4 ∧
      Text.splitOn '\n' (printRows a.listing).toList = rows ++ [[]] ∧ rows.length = 8 ∧
      (∃ w, a.image.contents[2]? = some w ∧ Listing.readCode? (body 2) = some w) ∧
      body 3 = (" ".intercalate
        ([⟨.label, "x", 3⟩, ⟨.literal, "-7", 3⟩].filterMap Listing.note?)).toList ∧
      let raw := (program.map (·.2)).filter (·.isRaw)
      raw[0]? = some (.allocate 0) ∧ raw[1]? = some (.allocate 0) := by
  have hload : Source.load (Utf8.encode ".a 0\n:main\nret\n:x\n.d -7\n.a 0") =
      .ok [⟨1, ".a 0"⟩, ⟨2, ":main"⟩, ⟨3, "ret"⟩, ⟨4, ":x"⟩, ⟨5, ".d -7"⟩, ⟨6, ".a 0"⟩] := rfl
  obtain ⟨a, ha, hmap, hcode, hsize⟩ : ∃ a, assemble [⟨1, ".a 0"⟩, ⟨2, ":main"⟩, ⟨3, "ret"⟩,
      ⟨4, ":x"⟩, ⟨5, ".d -7"⟩, ⟨6, ".a 0"⟩] = .ok a ∧
      a.map = [⟨.pointer, "2", 1⟩, ⟨.raw, "0", 2⟩, ⟨.label, "main", 2⟩, ⟨.label, "x", 3⟩,
        ⟨.literal, "-7", 3⟩, ⟨.raw, "0", 4⟩] ∧
      a.image.codeAddresses = [0, 2] ∧ a.image.size = 4 := ⟨_, rfl, by decide, by decide, by decide⟩
  obtain ⟨program, rows, body, hread, hrows, -, hlength, hcells, hnotes, -, -, hempty⟩ :=
    listing_faithful hload ha
  rw [hcode] at hcells hnotes hempty
  rw [hsize] at hlength hnotes hempty
  rw [hmap] at hlength hnotes hempty
  refine ⟨_, a, program, rows, body, hload, ha, hread, hmap, hcode, hsize, hrows, hlength,
    hcells 2 (by decide), hnotes 3 (by decide) (by decide),
    hempty 0 ⟨.raw, "0", 2⟩ rfl (.inl (by decide)), hempty 1 ⟨.raw, "0", 4⟩ rfl (.inr rfl)⟩

end PackedStack
