import Mathlib.Data.List.Forall2
import PackedStack.Proofs.Assembly.Disassembly
import PackedStack.Proofs.Assembly.Outcome
import PackedStack.Proofs.Assembly.Places
import PackedStack.Proofs.Text.Words

/-!
# Relocation

Cells of zero that are put in between two parts of a source move what the second part lays and leave
the first part where it is. In the layout they are one more piece (`State.exists_pieces_insert`), so
that a label moves exactly if it is first defined in the second part (`State.moved_labels_run`).
Resolving by labels that have moved gives every operand the old word and the distance that its label
has moved (`Operand.resolve_of_moved`), and fails where it failed before. From these follows how the
two assemblies compare (`assemble_insert_zeros`).
-/

namespace PackedStack

open Layout (Piece)

/-! ## Labels that move -/

/-- The distance that a label moves when some cells are put in between two parts of a source. Only
a label that is first defined in the second part moves. -/
def Source.displacement (p s : List Line) (count : Nat) (name : String) : Nat :=
  if name ∈ labelNames s ∧ name ∉ labelNames p then count else 0

/-- The label that an operand names, if it is no number. -/
def Operand.labelName? : Operand → Option String
  | value _ => none
  | token t => if (Word.parse? t).isNone then some (Labels.unmarked t) else none

/-- The cell that came from the given operand, when labels move by the given distances. -/
def Cell.relocate (move : String → Nat) (origin : Cell Operand) (c : Cell Word) : Cell Word :=
  ⟨c.content + BitVec.ofNat 32 (origin.content.labelName?.elim 0 move), c.isCode⟩

/-- The cells with some cells of zero put in at an address. -/
def Cell.insertZeros (here count : Nat) (cells : List (Cell Word)) : List (Cell Word) :=
  cells.take here ++ (List.replicate count (.data 0) ++ cells.drop here)

/-- Labels with the same names, each with its offset moved by a distance of its own. -/
def Labels.Moved (move : String → Nat) (labels labels' : Labels) : Prop :=
  ∀ name, labels'.lookup name = (labels.lookup name).map (· + move name)

section

variable {move : String → Nat} {labels labels' : Labels} (h : Labels.Moved move labels labels')

include h

theorem Operand.failure?_resolve_of_moved (o : Operand) :
    failure? (o.resolve labels') = failure? (o.resolve labels) := by
  cases o with
  | value w => rfl
  | token t => simp only [Operand.resolve, Labels.failure?_resolve, h (Labels.unmarked t),
      Option.isNone_map]

/-- An operand resolves to the word that it stood for, moved as far as its label. -/
theorem Operand.resolve_of_moved {o : Operand} {w : Word} (hw : o.resolve labels = .ok w) :
    o.resolve labels' = .ok (w + BitVec.ofNat 32 (o.labelName?.elim 0 move)) := by
  cases o with
  | value w' =>
    cases hw
    simp [Operand.resolve, Operand.labelName?]
  | token t =>
    rcases Labels.resolve_cases hw with hnumber | ⟨hnone, offset, hlookup, rfl⟩
    · rw [Operand.resolve, Labels.resolve_of_parse?_eq_some labels' hnumber]
      simp [Operand.labelName?, hnumber]
    · have hmoved := h (Labels.unmarked t)
      rw [hlookup, Option.map_some] at hmoved
      rw [Operand.resolve, Labels.resolve_of_lookup_eq_some labels' hnone hmoved]
      simp [Operand.labelName?, hnone, Word.ofAddress, BitVec.ofNat_add]

theorem Cell.valueIn_of_moved {c : Cell Operand}
    (hc : c.content.resolve labels = .ok (c.content.valueIn labels)) :
    c.valueIn labels' = c.relocate move (c.valueIn labels) := by
  rw [Cell.valueIn, Operand.valueIn_of_resolve (Operand.resolve_of_moved h hc)]
  rfl

end

/-! ## Entries that move -/

namespace Entry

/-- The second entry tells of the same thing as the first, at an address that is higher by the given
distance. A pointer may show another address. -/
def MovedBy (distance : Nat) (e e' : Entry) : Prop :=
  e'.kind = e.kind ∧ e'.offset = e.offset + distance ∧ (e.kind ≠ .pointer → e'.value = e.value)

theorem map_shift_zero (entries : List Entry) : entries.map (·.shift 0) = entries := by
  simp [shift]

theorem labelOffset?_map_shift (name : String) (base : Nat) (entries : List Entry) :
    labelOffset? name (entries.map (·.shift base)) =
      (labelOffset? name entries).map (· + base) := by
  rw [labelOffset?, List.find?_map, labelOffset?, Option.map_map, Option.map_map]
  congr 1
  funext e
  exact Nat.add_comm base e.offset

theorem movedBy_of_resolve {labels labels' : Labels} {distance : Nat} {d e e' : Entry}
    (h : d.resolve labels = .ok e) (h' : (d.shift distance).resolve labels' = .ok e') :
    MovedBy distance e e' := by
  rcases resolve_cases h with ⟨rfl, hunmarked⟩ | ⟨hlit, hmarked, w, -, rfl⟩
  · rcases resolve_cases h' with ⟨rfl, -⟩ | ⟨hlit, hmarked, -⟩
    · exact ⟨rfl, Nat.add_comm distance e.offset, fun _ => rfl⟩
    · exact absurd hmarked (hunmarked hlit)
  · rcases resolve_cases h' with ⟨-, hunmarked⟩ | ⟨-, -, w', -, rfl⟩
    · exact absurd hmarked (hunmarked hlit)
    · exact ⟨rfl, Nat.add_comm distance d.offset, fun hpointer => absurd rfl hpointer⟩

/-- Entries that are laid a distance apart are resolved that distance apart. -/
theorem forall₂_movedBy {labels labels' : Labels} {distance : Nat} {ds es es' : List Entry}
    (h : ds.mapM (Entry.resolve labels) = .ok es)
    (h' : (ds.map (·.shift distance)).mapM (Entry.resolve labels') = .ok es') :
    List.Forall₂ (MovedBy distance) es es' := by
  rw [mapM_eq_ok_iff] at h h'
  induction ds generalizing es es' with
  | nil =>
    obtain rfl := List.map_eq_nil_iff.1 h.symm
    obtain rfl := List.map_eq_nil_iff.1 h'.symm
    exact .nil
  | cons d ds ih =>
    obtain ⟨e, es, rfl, he, hes⟩ := List.map_eq_cons_iff.1 h.symm
    obtain ⟨e', es', rfl, he', hes'⟩ := List.map_eq_cons_iff.1 h'.symm
    exact .cons (movedBy_of_resolve he.symm he'.symm) (ih hes.symm hes'.symm)

end Entry

/-! ## One more piece -/

namespace Layout

theorem entriesFrom_add (base distance : Nat) (bs : List Block) :
    entriesFrom (base + distance) bs = (entriesFrom base bs).map (·.shift distance) := by
  induction bs generalizing base with
  | nil => rfl
  | cons b bs ih =>
    have hentry : ∀ e : Entry, e.shift (base + distance) = (e.shift base).shift distance := by
      intro e
      simp only [Entry.shift]
      congr 1
      omega
    rw [entriesFrom, entriesFrom, Nat.add_right_comm, ih, List.map_append, List.map_map]
    congr 1
    exact List.map_congr_left fun e _ => hentry e

theorem codeAddressesFrom_add {α : Type} (base distance : Nat) (cells : List (Cell α)) :
    codeAddressesFrom (base + distance) cells =
      (codeAddressesFrom base cells).map (· + distance) := by
  induction cells generalizing base with
  | nil => rfl
  | cons c cells ih =>
    rw [← List.singleton_append, codeAddressesFrom_append, codeAddressesFrom_append,
      List.map_append, List.length_singleton, Nat.add_right_comm, ih]
    cases hc : c.isCode <;> simp [codeAddressesFrom, hc]

/-- Cells of zero between two rows of pieces. -/
theorem cells_insert (ps qs : List Piece) (count : Nat) :
    cells ((ps ++ .other (.allocate count) :: qs).map Piece.block) =
      cells (ps.map Piece.block) ++
        (List.replicate count (.data (.value 0)) ++ cells (qs.map Piece.block)) := by
  rw [List.map_append, List.map_cons, cells_append, cells_cons]
  rfl

theorem entriesFrom_insert (ps qs : List Piece) (count : Nat) :
    entriesFrom 0 ((ps ++ .other (.allocate count) :: qs).map Piece.block) =
      entriesFrom 0 (ps.map Piece.block) ++
        (⟨.raw, String.ofList (Numeral.decimal count), span ps⟩ ::
          (entriesFrom (span ps) (qs.map Piece.block)).map (·.shift count)) := by
  have hcount : (Piece.other (.allocate count)).block.cells.length = count := List.length_replicate
  rw [List.map_append, List.map_cons, entriesFrom_append, Nat.zero_add, ← span, entriesFrom, hcount,
    entriesFrom_add]
  rfl

end Layout

namespace State

variable {rest : List (Line × Statement)} (hrest : Layout.Detached (rest.map (·.2)))
  (program : List (Line × Statement))

include hrest

/-- Cells of zero in front of a part that joins no run are one more piece, and change no other. -/
theorem exists_pieces_insert (line : Line) (count : Nat) :
    ∃ qs,
      Layout.piecesFrom .packed (startup (program ++ rest)) =
        Layout.piecesFrom .packed (startup program) ++ qs ∧
      Layout.piecesFrom .packed (startup (program ++ (line, .allocate count) :: rest)) =
        Layout.piecesFrom .packed (startup program) ++ .other (.allocate count) :: qs := by
  have hdivides : (Statement.allocate count).divides := rfl
  refine ⟨_, ?_, piecesFrom_startup_append_cons hdivides line program rest⟩
  rw [startup_append, Layout.piecesFrom_append hrest]
  rfl

/-- A label of the first part stays where it is, and any other label of the second part moves. -/
theorem exists_lookup_insert (line : Line) (count : Nat) (name : String) :
    ∃ later : Option Nat,
      (initial.run (program ++ rest)).labels.lookup name =
        ((initial.run program).labels.lookup name).or later ∧
      (initial.run (program ++ (line, .allocate count) :: rest)).labels.lookup name =
        ((initial.run program).labels.lookup name).or (later.map (· + count)) := by
  obtain ⟨qs, hboth, hinsert⟩ := exists_pieces_insert hrest program line count
  have hprogram := lookup_run_eq program name
  rw [Layout.blocks_eq_map_pieces] at hprogram
  refine ⟨Entry.labelOffset? name (Layout.entriesFrom
    (Layout.span (Layout.piecesFrom .packed (startup program))) (qs.map Piece.block)), ?_, ?_⟩
  · rw [lookup_run_eq, Layout.blocks_eq_map_pieces, hboth, List.map_append,
      Layout.entriesFrom_append, Nat.zero_add, ← Layout.span, Entry.labelOffset?_append, ← hprogram]
  · rw [lookup_run_eq, Layout.blocks_eq_map_pieces, hinsert, Layout.entriesFrom_insert,
      Entry.labelOffset?_append, ← hprogram, ← Entry.labelOffset?_map_shift]
    rfl

/-- A label moves exactly if it is first defined behind the cells that are put in. -/
theorem moved_labels_run {program : List (Line × Statement)}
    (hparse : ∀ x ∈ program ++ rest, Statement.parse x.1.text = .ok x.2)
    (line : Line) (count : Nat) :
    Labels.Moved (Source.displacement (program.map (·.1)) (rest.map (·.1)) count)
      (initial.run (program ++ rest)).labels
      (initial.run (program ++ (line, .allocate count) :: rest)).labels := by
  intro name
  obtain ⟨later, hboth, hinsert⟩ := exists_lookup_insert hrest program line count name
  have hfirst := Source.isSome_lookup_run
    (fun x hx => hparse x (List.mem_append_left rest hx)) name
  have hall := Source.isSome_lookup_run hparse name
  rw [List.map_append, Source.labelNames, List.filterMap_append, List.mem_append,
    ← Source.labelNames, ← Source.labelNames, ← hfirst, hboth] at hall
  simp only [hboth, hinsert, Source.displacement, ← hfirst]
  cases hlookup : (initial.run program).labels.lookup name with
  | some offset => simp
  | none =>
    cases later with
    | none => rfl
    | some offset =>
      have hlater : name ∈ Source.labelNames (rest.map (·.1)) := by simpa [hlookup] using hall
      simp [hlater]

end State

/-! ## The source -/

/-- A line that asks for a number of cells that hold zero. -/
def Line.allocate (number count : Nat) : Line :=
  ⟨number, ".allocate " ++ String.ofList (Numeral.decimal count)⟩

/-- A number of cells that fits a word as a positive number is read as it is written. -/
theorem Statement.parse_allocate {count : Nat} (h : count < 0x80000000) (number : Nat) :
    parse (Line.allocate number count).text = .ok (.allocate count) := by
  have htext : (Line.allocate number count).text.toList =
      '.' :: 'a' :: "llocate".toList ++ ([' '] ++ (Numeral.decimal count ++ [])) := by
    simp [Line.allocate]
  refine parse_count htext h ?_
  rw [htext]
  exact Text.afterFirstWord_append (by decide) (by decide) (by decide)
    (Text.trimmed_decimal count) (by decide)

/-! ## The assembly -/

/-- How two assemblies compare of which the second has some cells of zero put in between the two
parts of its source. -/
structure Assembly.ApartBy (p s : List Line) (program rest : List (Line × Statement)) (count : Nat)
    (a a' : Assembly) : Prop where
  /-- The zeros are behind the cells of the first part, and a cell that comes from a label moves as
  its label does. -/
  image : a'.image.toList = Cell.insertZeros (State.initial.run program).draft.flush.here count
    (List.zipWith (Cell.relocate (Source.displacement p s count))
      (State.initial.run (program ++ rest)).draft.flush.image.toList a.image.toList)
  labels : Labels.Moved (Source.displacement p s count) a.labels a'.labels
  /-- The code of the first part stays where it is, and that of the second part moves. -/
  code : ∃ later,
    a.image.codeAddresses = (State.initial.run program).draft.flush.image.codeAddresses ++ later ∧
    a'.image.codeAddresses =
      (State.initial.run program).draft.flush.image.codeAddresses ++ later.map (· + count)
  /-- So do the entries of the two parts, with an entry for the zeros between them. -/
  map : ∃ own later own' later',
    a.map = own ++ later ∧
    a'.map = own' ++ ⟨.raw, String.ofList (Numeral.decimal count),
      (State.initial.run program).draft.flush.here⟩ :: later' ∧
    own.length = (State.initial.run program).draft.flush.map.size ∧
    List.Forall₂ (Entry.MovedBy 0) own own' ∧ List.Forall₂ (Entry.MovedBy count) later later'

namespace State

theorem here_flush_run (program : List (Line × Statement)) :
    (initial.run program).draft.flush.here =
      Layout.span (Layout.piecesFrom .packed (startup program)) := by
  rw [(lays_flush_run program).here_eq]
  exact Nat.zero_add _

theorem codeAddresses_flush_run (program : List (Line × Statement)) :
    (initial.run program).draft.flush.image.codeAddresses = Layout.codeAddressesFrom 0
      (Layout.cells ((Layout.piecesFrom .packed (startup program)).map Piece.block)) := by
  rw [← Layout.blocks_eq_map_pieces, ← toList_image_flush_run]
  rfl

end State

namespace Assembly.MadeFrom

variable {a a' : Assembly} {program rest : List (Line × Statement)} {line : Line} {count : Nat}
  (h : a.MadeFrom (program ++ rest))
  (h' : a'.MadeFrom (program ++ (line, .allocate count) :: rest))
  (hrest : Layout.Detached (rest.map (·.2)))

include h h' hrest

theorem image_insert {move : String → Nat} (hmoved : Labels.Moved move a.labels a'.labels) :
    a'.image.toList = Cell.insertZeros (State.initial.run program).draft.flush.here count
      (List.zipWith (Cell.relocate move)
        (State.initial.run (program ++ rest)).draft.flush.image.toList a.image.toList) := by
  obtain ⟨qs, hboth, hinsert⟩ := State.exists_pieces_insert hrest program line count
  have hmovedCells : List.zipWith (Cell.relocate move)
      (State.initial.run (program ++ rest)).draft.flush.image.toList a.image.toList =
        (Layout.cells (Layout.blocks (State.startup (program ++ rest)))).map
          (Cell.valueIn a'.labels) := by
    rw [State.toList_image_flush_run, h.image, List.zipWith_map_right, List.zipWith_self]
    exact List.map_congr_left fun c hc => (Cell.valueIn_of_moved hmoved (h.resolves c hc)).symm
  have hhere : (State.initial.run program).draft.flush.here =
      ((Layout.cells ((Layout.piecesFrom .packed (State.startup program)).map Piece.block)).map
        (Cell.valueIn a'.labels)).length := by
    rw [List.length_map]
    exact State.here_flush_run program
  rw [hmovedCells, Layout.blocks_eq_map_pieces, hboth, List.map_append, Layout.cells_append,
    List.map_append, hhere, Cell.insertZeros, List.take_left, List.drop_left, h'.image,
    Layout.blocks_eq_map_pieces, hinsert, Layout.cells_insert, List.map_append, List.map_append,
    List.map_replicate]
  rfl

theorem code_insert : ∃ later,
    a.image.codeAddresses = (State.initial.run program).draft.flush.image.codeAddresses ++ later ∧
    a'.image.codeAddresses =
      (State.initial.run program).draft.flush.image.codeAddresses ++ later.map (· + count) := by
  obtain ⟨qs, hboth, hinsert⟩ := State.exists_pieces_insert hrest program line count
  have hzeros : ∀ base, Layout.codeAddressesFrom base
      (List.replicate count (Cell.data (Operand.value 0))) = [] := by
    intro base
    rw [← List.map_replicate]
    exact Layout.Piece.codeAddressesFrom_map_data base _
  rw [h.codeAddresses_eq, h'.codeAddresses_eq, State.codeAddresses_flush_run, hboth, hinsert,
    Layout.cells_insert, List.map_append, Layout.cells_append]
  refine ⟨_, Layout.codeAddressesFrom_append 0 _ _, ?_⟩
  rw [Layout.codeAddressesFrom_append, Layout.codeAddressesFrom_append, hzeros, List.nil_append,
    List.length_replicate, Layout.codeAddressesFrom_add]

theorem map_insert : ∃ own later own' later',
    a.map = own ++ later ∧
    a'.map = own' ++ ⟨.raw, String.ofList (Numeral.decimal count),
      (State.initial.run program).draft.flush.here⟩ :: later' ∧
    own.length = (State.initial.run program).draft.flush.map.size ∧
    List.Forall₂ (Entry.MovedBy 0) own own' ∧ List.Forall₂ (Entry.MovedBy count) later later' := by
  obtain ⟨qs, hboth, hinsert⟩ := State.exists_pieces_insert hrest program line count
  have hmap := h.map
  have hmap' := h'.map
  rw [Layout.blocks_eq_map_pieces, hboth, List.map_append, Layout.entriesFrom_append, Nat.zero_add,
    ← Layout.span] at hmap
  rw [Layout.blocks_eq_map_pieces, hinsert, Layout.entriesFrom_insert] at hmap'
  obtain ⟨own, later, hsplit, hown, hlater⟩ := exists_of_mapM_append hmap
  obtain ⟨own', behind, hsplit', hown', hbehind⟩ := exists_of_mapM_append hmap'
  rw [List.mapM_cons] at hbehind
  obtain ⟨zeros, hzeros, hbehind⟩ := bind_eq_ok_iff.1 hbehind
  obtain ⟨later', hlater', hbehind⟩ := bind_eq_ok_iff.1 hbehind
  cases hzeros
  cases hbehind
  refine ⟨own, later, own', later', hsplit, ?_, ?_, ?_, Entry.forall₂_movedBy hlater hlater'⟩
  · rw [hsplit', State.here_flush_run]
  · have hlength := congrArg List.length (mapM_eq_ok_iff.1 hown)
    rw [List.length_map, List.length_map, ← Layout.blocks_eq_map_pieces,
      ← State.toList_map_flush_run, Array.length_toList] at hlength
    exact hlength.symm
  · rw [← Entry.map_shift_zero (Layout.entriesFrom 0 _)] at hown'
    exact Entry.forall₂_movedBy hown hown'

end Assembly.MadeFrom

/-- The second pass fails as it does without the zeros. -/
theorem State.failure?_finish_insert {program rest : List (Line × Statement)} {line : Line}
    {count : Nat} {move : String → Nat}
    (hmoved : Labels.Moved move (initial.run (program ++ rest)).labels
      (initial.run (program ++ (line, .allocate count) :: rest)).labels) :
    failure? (initial.run (program ++ (line, .allocate count) :: rest)).finish =
      failure? (initial.run (program ++ rest)).finish := by
  have hoperands : ((program ++ (line, .allocate count) :: rest).map (·.2)).flatMap (·.operands) =
      ((program ++ rest).map (·.2)).flatMap (·.operands) := by
    simp [Statement.operands]
  rw [failure?_finish_run, failure?_finish_run, hoperands, hmoved, Option.isSome_map]
  simp only [Operand.failure?_resolve_of_moved hmoved]

/-- Relocation. When some cells of zero are put in between two parts of a source, of which the
second joins no run of the first, the source fails as before or is assembled as before. In the image
the zeros are behind the cells of the first part, and exactly those cells change whose value is that
of a label first defined in the second part, the entry cell included: they grow by the number of
zeros. Labels, code and entries of the map move by that number if they come from the second part,
and the map has one more entry, for the zeros. -/
theorem assemble_insert_zeros {p s : List Line} {program rest : List (Line × Statement)}
    (hp : Source.read p = .ok program) (hs : Source.read s = .ok rest)
    (hrest : Layout.Detached (rest.map (·.2))) (number : Nat) {count : Nat}
    (hcount : count < 0x80000000) :
    failure? (assemble (p ++ Line.allocate number count :: s)) = failure? (assemble (p ++ s)) ∧
      ∀ a, assemble (p ++ s) = .ok a → ∃ a',
        assemble (p ++ Line.allocate number count :: s) = .ok a' ∧
          Assembly.ApartBy p s program rest count a a' := by
  have hread := Source.read_append hp hs
  have hgap := Statement.parse_allocate hcount number
  have hread' := Source.read_append hp (Source.read_cons hgap hs)
  obtain ⟨-, hparse⟩ := Source.of_read_eq_ok hread
  obtain ⟨rfl, -⟩ := Source.of_read_eq_ok hp
  obtain ⟨rfl, -⟩ := Source.of_read_eq_ok hs
  have hmoved := State.moved_labels_run hrest hparse (Line.allocate number count) count
  have hfailure : failure? (assemble (program.map (·.1) ++
      Line.allocate number count :: rest.map (·.1))) =
        failure? (assemble (program.map (·.1) ++ rest.map (·.1))) := by
    rw [assemble_of_read hread, assemble_of_read hread', failure?_mapError, failure?_mapError,
      State.failure?_finish_insert hmoved]
  refine ⟨hfailure, fun a ha => ?_⟩
  obtain ⟨a', ha'⟩ : ∃ a', assemble (program.map (·.1) ++
      Line.allocate number count :: rest.map (·.1)) = .ok a' := by
    rw [← failure?_eq_none_iff, hfailure, ha]
    rfl
  have hmade := Assembly.madeFrom_of_read ha hread
  have hmade' := Assembly.madeFrom_of_read ha' hread'
  rw [← hmade.labels, ← hmade'.labels] at hmoved
  exact ⟨a', ha', hmade.image_insert hmade' hrest hmoved, hmoved,
    hmade.code_insert hmade' hrest, hmade.map_insert hmade' hrest⟩

/-- Zeros between the uses of two labels and the second part of the source, which defines the one
and defines the other again. -/
theorem assemble_insert_zeros_both_ways :
    ∃ program rest a a',
      Source.read [⟨1, ":low"⟩, ⟨2, ".data &low"⟩, ⟨3, "lit &main"⟩] = .ok program ∧
      Source.read [⟨5, ":main"⟩, ⟨6, "lit &low"⟩, ⟨7, ":low"⟩, ⟨8, "ret"⟩] = .ok rest ∧
      assemble ([⟨1, ":low"⟩, ⟨2, ".data &low"⟩, ⟨3, "lit &main"⟩] ++
        [⟨5, ":main"⟩, ⟨6, "lit &low"⟩, ⟨7, ":low"⟩, ⟨8, "ret"⟩]) = .ok a ∧
      assemble ([⟨1, ":low"⟩, ⟨2, ".data &low"⟩, ⟨3, "lit &main"⟩] ++
        .allocate 4 3 :: [⟨5, ":main"⟩, ⟨6, "lit &low"⟩, ⟨7, ":low"⟩, ⟨8, "ret"⟩]) = .ok a' ∧
      Assembly.ApartBy [⟨1, ":low"⟩, ⟨2, ".data &low"⟩, ⟨3, "lit &main"⟩]
        [⟨5, ":main"⟩, ⟨6, "lit &low"⟩, ⟨7, ":low"⟩, ⟨8, "ret"⟩] program rest 3 a a' := by
  obtain ⟨program, hp⟩ : ∃ program,
    Source.read [⟨1, ":low"⟩, ⟨2, ".data &low"⟩, ⟨3, "lit &main"⟩] = .ok program := ⟨_, rfl⟩
  have hs : Source.read [⟨5, ":main"⟩, ⟨6, "lit &low"⟩, ⟨7, ":low"⟩, ⟨8, "ret"⟩] =
    .ok [(⟨5, ":main"⟩, .label "main"),
      (⟨6, "lit &low"⟩, .instruction ⟨.lit, some (.token "&low")⟩),
      (⟨7, ":low"⟩, .label "low"), (⟨8, "ret"⟩, .instruction ⟨.ret, none⟩)] := rfl
  obtain ⟨a, ha⟩ : ∃ a, assemble ([⟨1, ":low"⟩, ⟨2, ".data &low"⟩, ⟨3, "lit &main"⟩] ++
    [⟨5, ":main"⟩, ⟨6, "lit &low"⟩, ⟨7, ":low"⟩, ⟨8, "ret"⟩]) = .ok a := ⟨_, rfl⟩
  have hrest : Layout.Detached [.label "main", .instruction ⟨.lit, some (.token "&low")⟩,
      .label "low", .instruction ⟨.ret, none⟩] := by
    intro st hst
    cases hst
    rfl
  have hcount : 3 < 0x80000000 := by decide
  obtain ⟨a', ha', hapart⟩ := (assemble_insert_zeros hp hs hrest 4 hcount).2 a ha
  exact ⟨program, _, a, a', hp, hs, ha, ha', hapart⟩

end PackedStack
