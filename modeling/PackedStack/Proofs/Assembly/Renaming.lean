import Mathlib.Logic.Function.Basic
import PackedStack.Proofs.Assembly.Map
import PackedStack.Proofs.Assembly.Outcome
import PackedStack.Proofs.Source.Renaming

/-!
# Renaming the labels of a program

The names of labels do not matter to an assembly. Each part of what the first pass knows can be
renamed, and carrying out a renamed statement renames the state (`State.execute_rename`), so that a
renamed program leads to the renamed state (`State.run_rename`). A renamed token resolves by renamed
labels as before (`Labels.resolve_rename`), and so do the image (`Image.resolve_rename`) and the map
(`Entry.resolve_rename`). A renamed source is therefore assembled as before, up to the names
(`assemble_rename`).
-/

namespace PackedStack

variable (r : String → String)

/-! ## What the first pass knows -/

def Cell.rename (c : Cell Operand) : Cell Operand := ⟨c.content.rename r, c.isCode⟩

def Image.rename (image : Image Operand) : Image Operand := ⟨image.cells.map (Cell.rename r)⟩

/-- The entry of a label under its new name, and the entry of a literal with the name changed that
is marked in it. -/
def Entry.rename (e : Entry) : Entry :=
  match e.kind with
  | .label => { e with value := r e.value }
  | .literal => { e with value := Labels.renameToken r e.value }
  | _ => e

def Block.rename (b : Block) : Block where
  cells := b.cells.map (Cell.rename r)
  entries := b.entries.map (Entry.rename r)

def Queue.rename (q : Queue) : Queue := { q with literals := q.literals.map (Operand.rename r) }

def Draft.rename (d : Draft) : Draft where
  image := d.image.rename r
  map := d.map.map (Entry.rename r)
  queue := d.queue.rename r

def Definition.rename (d : Definition) : Definition := { d with line := d.line.rename r }

def Labels.rename (labels : Labels) : Labels :=
  ⟨labels.entries.map (Prod.map r (Definition.rename r))⟩

def Redefinition.rename (w : Redefinition) : Redefinition where
  name := r w.name
  line := w.line.rename r
  first := w.first.rename r

def State.rename (s : State) : State where
  draft := s.draft.rename r
  labels := s.labels.rename r
  entry := s.entry
  output := s.output
  warnings := s.warnings.map (Redefinition.rename r)

/-! ## Blocks -/

theorem Image.toList_rename (image : Image Operand) :
    (image.rename r).toList = image.toList.map (Cell.rename r) := by
  simp [toList, rename]

theorem Entry.shift_rename (base : Nat) (e : Entry) :
    (e.rename r).shift base = (e.shift base).rename r := by
  obtain ⟨kind, value, offset⟩ := e
  cases kind <;> rfl

namespace Block

theorem group_rename (opcodes : List Opcode) (literals : List Operand) :
    group opcodes (literals.map (Operand.rename r)) = (group opcodes literals).rename r := by
  simp [group, rename, Cell.rename, Cell.code, Cell.data, List.zipIdx_map, Operand.text_rename,
    Entry.rename]

theorem single_rename (i : Instruction Operand) :
    single (i.map (Operand.rename r)) = (single i).rename r := by
  obtain ⟨opcode, operand⟩ := i
  cases operand <;> rfl

theorem data_rename (o : Operand) : data (o.rename r) = (data o).rename r := by
  simp [data, rename, Cell.rename, Cell.data, Entry.rename, Operand.text_rename]

theorem text_rename (content : String) : (text content).rename r = text content := by
  simp [text, rename, Cell.rename, Cell.data, Entry.rename]

theorem zeros_rename (count : Nat) : (zeros count).rename r = zeros count := by
  simp [zeros, rename, Cell.rename, Cell.data, Entry.rename]

end Block

/-! ## Drafts -/

namespace Queue

theorem flush_rename (q : Queue) :
    (q.rename r).flush = Prod.map (Queue.rename r) (Block.rename r) q.flush := by
  have hopcodes : (q.rename r).opcodes = q.opcodes := rfl
  rw [flush, flush, hopcodes]
  split
  · rfl
  · exact Prod.ext rfl (Block.group_rename r q.opcodes q.literals)

theorem feed_rename (q : Queue) (i : Instruction Operand) :
    (q.rename r).feed (i.map (Operand.rename r)) =
      Prod.map (Queue.rename r) (Block.rename r) (q.feed i) := by
  obtain ⟨packing, opcodes, literals⟩ := q
  cases packing with
  | unpacked => exact Prod.ext rfl (Block.single_rename r i)
  | packed =>
    have hqueue : (⟨.packed, opcodes ++ [i.opcode], literals.map (Operand.rename r) ++
        (i.operand.map (Operand.rename r)).toList⟩ : Queue) =
          Queue.rename r ⟨.packed, opcodes ++ [i.opcode], literals ++ i.operand.toList⟩ := by
      simp [rename, Option.toList_map]
    simp only [feed, rename, Instruction.map, hqueue]
    split
    · exact flush_rename r ⟨.packed, opcodes ++ [i.opcode], literals ++ i.operand.toList⟩
    · rfl

theorem setPacking_rename (q : Queue) (mode : Packing) :
    (q.rename r).setPacking mode =
      Prod.map (Queue.rename r) (Block.rename r) (q.setPacking mode) := by
  rw [setPacking, flush_rename]
  rfl

end Queue

namespace Draft

theorem here_rename (d : Draft) : (d.rename r).here = d.here := by
  simp [here, rename, Image.rename, Image.size]

theorem lay_rename (d : Draft) (b : Block) :
    (d.rename r).lay (b.rename r) = (d.lay b).rename r := by
  have himage : (d.rename r).image.append (b.rename r).cells =
      (d.image.append b.cells).rename r := by
    refine congrArg Image.mk (Array.toList_inj.1 ?_)
    simp [rename, Image.rename, Image.append, Block.rename]
  have hmap : (d.rename r).map ++ (b.rename r).entries.map (·.shift d.here) =
      (d.map ++ b.entries.map (·.shift d.here)).map (Entry.rename r) := by
    refine Array.toList_inj.1 ?_
    simp [rename, Block.rename, Entry.shift_rename]
  simp only [lay, here_rename, himage, hmap]
  rfl

theorem advance_rename (d : Draft) (step : Queue × Block) :
    (d.rename r).advance (Prod.map (Queue.rename r) (Block.rename r) step) =
      (d.advance step).rename r := by
  rw [advance, Prod.map_snd, lay_rename]
  rfl

theorem flush_rename (d : Draft) : (d.rename r).flush = d.flush.rename r := by
  rw [flush, flush, ← advance_rename, ← Queue.flush_rename]
  rfl

theorem place_rename (d : Draft) (b : Block) :
    (d.rename r).place (b.rename r) = (d.place b).rename r := by
  rw [place, flush_rename, lay_rename]
  rfl

/-- Carrying out a renamed statement renames the draft. -/
theorem carry_rename (d : Draft) (s : Statement) :
    (d.rename r).carry (s.rename r) = (d.carry s).rename r := by
  cases s with
  | label name => exact place_rename r d (.label name)
  | instruction i =>
    show (d.rename r).advance ((d.queue.rename r).feed (i.map (Operand.rename r))) = _
    rw [Queue.feed_rename, advance_rename]
    rfl
  | output path => rfl
  | data operand =>
    show (d.rename r).place (.data (operand.rename r)) = _
    rw [Block.data_rename, place_rename]
    rfl
  | packing mode =>
    show (d.rename r).advance ((d.queue.rename r).setPacking mode) = _
    rw [Queue.setPacking_rename, advance_rename]
    rfl
  | text content =>
    show (d.rename r).place (.text content) = _
    rw [← Block.text_rename r content, place_rename]
    rfl
  | allocate count =>
    show (d.rename r).place (.zeros count) = _
    rw [← Block.zeros_rename r count, place_rename]
    rfl

theorem foldl_carry_rename (d : Draft) (program : List Statement) :
    (program.map (Statement.rename r)).foldl carry (d.rename r) =
      (program.foldl carry d).rename r := by
  induction program generalizing d with
  | nil => rfl
  | cons s program ih => rw [List.map_cons, List.foldl_cons, carry_rename, ih, List.foldl_cons]

end Draft

/-! ## Labels -/

section

variable {r} (hinj : Function.Injective r)

include hinj

namespace Labels

/-- A label is found under its new name. -/
theorem find?_rename (labels : Labels) (name : String) :
    (labels.rename r).find? (r name) = (labels.find? name).map (Definition.rename r) :=
  lookup_map_of_injective hinj (Definition.rename r) labels.entries name

theorem lookup_rename (labels : Labels) (name : String) :
    (labels.rename r).lookup (r name) = labels.lookup name := by
  rw [lookup, find?_rename hinj, Option.map_map]
  rfl

theorem define_rename (labels : Labels) (name : String) (definition : Definition) :
    (labels.rename r).define (r name) (definition.rename r) =
      (labels.define name definition).rename r := by
  rw [define, define, find?_rename hinj]
  cases labels.find? name with
  | some first => rfl
  | none => simp [rename]

end Labels

/-! ## The first pass -/

namespace State

theorem defineLabel_rename (s : State) (name : String) (line : Line) :
    (s.rename r).defineLabel (r name) (line.rename r) = (s.defineLabel name line).rename r := by
  have hflush : (s.rename r).draft.flush = s.draft.flush.rename r := Draft.flush_rename r s.draft
  have hdraft : (s.draft.flush.rename r).lay (.label (r name)) =
      (s.draft.flush.lay (.label name)).rename r := Draft.lay_rename r s.draft.flush (.label name)
  have hlabels : (s.rename r).labels.define (r name) ⟨s.draft.flush.here, line.rename r⟩ =
      (s.labels.define name ⟨s.draft.flush.here, line⟩).rename r :=
    Labels.define_rename hinj s.labels name ⟨s.draft.flush.here, line⟩
  have hfind : (s.rename r).labels.find? (r name) =
      (s.labels.find? name).map (Definition.rename r) := Labels.find?_rename hinj s.labels name
  simp only [defineLabel, hflush, Draft.here_rename, hdraft, hlabels, hfind]
  cases s.labels.find? name <;> simp [rename, Redefinition.rename]

/-- Carrying out a renamed statement on its renamed line renames the state. -/
theorem execute_rename (s : State) (line : Line) (st : Statement) :
    (s.rename r).execute (line.rename r) (st.rename r) = (s.execute line st).rename r := by
  have hdraft := Draft.carry_rename r s.draft st
  cases st with
  | label name => exact defineLabel_rename hinj s name line
  | output path => rfl
  | _ => exact congrArg (fun d => { s.rename r with draft := d }) hdraft

/-- A renamed program leads to the renamed state. -/
theorem run_rename (s : State) (program : List (Line × Statement)) :
    (s.rename r).run (program.map (Prod.map (Line.rename r) (Statement.rename r))) =
      (s.run program).rename r := by
  induction program generalizing s with
  | nil => rfl
  | cons p program ih =>
    rw [List.map_cons, run, List.foldl_cons, ← run, Prod.map_fst, Prod.map_snd,
      execute_rename hinj, ih]
    rfl

end State

/-! ## The second pass -/

namespace Labels

/-- A marked token resolves under its new name as before. -/
theorem resolve_rename (labels : Labels) {token : String} (h : token.toList.head? = some '&') :
    (labels.rename r).resolve (renameToken r token) =
      mapBoth id (Cause.rename r) (labels.resolve token) := by
  have htoken := Word.parse?_of_marked h
  have hrenamed := Word.parse?_of_marked (head?_renameToken_of_marked (r := r) h)
  rw [resolve, resolve, htoken, hrenamed, unmarked_renameToken h]
  simp only [lookup_rename hinj]
  cases labels.lookup (unmarked token) <;> rfl

end Labels

theorem Operand.resolve_rename (labels : Labels) {o : Operand}
    (h : ∀ t, o = .token t → Word.parse? t = none → t.toList.head? = some '&') :
    (o.rename r).resolve (labels.rename r) = mapBoth id (Cause.rename r) (o.resolve labels) := by
  cases o with
  | value w => rfl
  | token t =>
    by_cases hmarked : t.toList.head? = some '&'
    · exact Labels.resolve_rename hinj labels hmarked
    · obtain ⟨w, hw⟩ := Option.ne_none_iff_exists'.1 fun hnone => hmarked (h t rfl hnone)
      rw [rename, Labels.renameToken_of_not_marked hmarked]
      rw [Operand.resolve, Operand.resolve, Labels.resolve_of_parse?_eq_some _ hw,
        Labels.resolve_of_parse?_eq_some _ hw]
      rfl

/-- An image in which every name is marked resolves as before. -/
theorem Image.resolve_rename (labels : Labels) {image : Image Operand}
    (h : ∀ c ∈ image.toList, ∀ t, c.content = .token t → Word.parse? t = none →
      t.toList.head? = some '&') :
    (image.rename r).resolve (labels.rename r) =
      mapBoth id (Cause.rename r) (image.resolve labels) := by
  have hcells : (image.toList.map (Cell.rename r)).mapM (Cell.resolve (labels.rename r)) =
      mapBoth (List.map id) (Cause.rename r) (image.toList.mapM (Cell.resolve labels)) := by
    refine mapM_map_eq_mapBoth fun c hc => ?_
    rw [Cell.resolve, Cell.resolve, Cell.rename, Operand.resolve_rename hinj labels (h c hc)]
    cases c.content.resolve labels <;> rfl
  rw [resolve, resolve, toList_rename, hcells, List.map_id_fun]
  cases image.toList.mapM (Cell.resolve labels) <;> rfl

theorem Entry.resolve_rename (labels : Labels) (e : Entry) :
    (e.rename r).resolve (labels.rename r) =
      mapBoth (Entry.rename r) (Cause.rename r) (e.resolve labels) := by
  obtain ⟨kind, value, offset⟩ := e
  cases kind with
  | literal =>
    have hrename : Entry.rename r ⟨.literal, value, offset⟩ =
        ⟨.literal, Labels.renameToken r value, offset⟩ := rfl
    by_cases hmarked : value.toList.head? = some '&'
    · have hrenamed := Labels.head?_renameToken_of_marked (r := r) hmarked
      simp only [hrename, resolve, isMarked, hmarked, hrenamed, beq_self_eq_true, Bool.and_self,
        if_true, Labels.resolve_rename hinj labels hmarked]
      cases labels.resolve value <;> rfl
    · rw [hrename, Labels.renameToken_of_not_marked hmarked]
      simp [resolve, isMarked, hmarked, mapBoth, hrename, Labels.renameToken_of_not_marked hmarked]
  | _ => rfl

end

/-! ## Both passes -/

/-- The assembly with its labels renamed, in the table, in the map and in the warnings. -/
def Assembly.rename (a : Assembly) : Assembly where
  image := a.image
  map := a.map.map (Entry.rename r)
  labels := a.labels.rename r
  output := a.output
  warnings := a.warnings.map (Redefinition.rename r)

section

variable {r} (hinj : Function.Injective r) (hmain : r State.entryLabel = State.entryLabel)

include hmain

namespace State

theorem renameToken_entry : Labels.renameToken r ("&" ++ entryLabel) = "&" ++ entryLabel := by
  have hname : Labels.unmarked ("&" ++ entryLabel) = entryLabel := by decide
  rw [Labels.renameToken_of_marked (by decide), hname, hmain]

/-- The first pass starts with no name but `main`. -/
theorem rename_initial : initial.rename r = initial := by
  have hbootstrap : (bootstrap.map Statement.instruction).map (Statement.rename r) =
      bootstrap.map Statement.instruction := by
    simp [bootstrap, Statement.rename, Instruction.map, Operand.rename, renameToken_entry hmain]
  have hempty : Draft.empty.rename r = .empty := by
    simp [Draft.rename, Draft.empty, Image.rename, Image.empty, Queue.rename, Queue.initial]
  have hdraft : initial.draft.rename r = initial.draft := by
    have hfold := Draft.foldl_carry_rename r .empty (bootstrap.map .instruction)
    rw [hbootstrap, hempty] at hfold
    exact hfold.symm
  rw [rename, hdraft]
  simp [initial, Labels.rename, Labels.empty]

include hinj

/-- The second pass over a renamed state ends as before, up to the names. -/
theorem finish_rename {s : State}
    (hcell : s.draft.flush.image.toList[s.entry]? = some (.data (.token ("&" ++ entryLabel))))
    (h : ∀ c ∈ s.draft.flush.image.toList, ∀ t, c.content = .token t → Word.parse? t = none →
      t.toList.head? = some '&') :
    (s.rename r).finish = mapBoth (Assembly.rename r) (Cause.rename r) s.finish := by
  have hflush : (s.rename r).draft.flush = s.draft.flush.rename r := Draft.flush_rename r s.draft
  have hcell' : (s.rename r).draft.flush.image.toList[s.entry]? =
      some (.data (.token ("&" ++ entryLabel))) := by
    rw [hflush, Draft.rename, Image.toList_rename, List.getElem?_map, hcell]
    simp [Cell.rename, Cell.data, Operand.rename, renameToken_entry hmain]
  have hlookup : (s.rename r).labels.lookup entryLabel = s.labels.lookup entryLabel := by
    have hname := Labels.lookup_rename hinj s.labels entryLabel
    rwa [hmain] at hname
  have himage : (s.draft.flush.rename r).image.resolve (s.rename r).labels =
      mapBoth id (Cause.rename r) (s.draft.flush.image.resolve s.labels) :=
    Image.resolve_rename hinj s.labels h
  have hmap : (s.draft.flush.rename r).map.toList.mapM (Entry.resolve (s.rename r).labels) =
      mapBoth (List.map (Entry.rename r)) (Cause.rename r)
        (s.draft.flush.map.toList.mapM (Entry.resolve s.labels)) := by
    rw [Draft.rename, Array.toList_map]
    exact mapM_map_eq_mapBoth fun e _ => Entry.resolve_rename hinj s.labels e
  have hwarnings : (s.rename r).warnings.toList =
      s.warnings.toList.map (Redefinition.rename r) := Array.toList_map
  rw [finish_eq hcell', finish_eq hcell, hlookup, hflush, himage, hmap, hwarnings]
  cases s.labels.lookup entryLabel with
  | none => rfl
  | some offset =>
    cases s.draft.flush.image.resolve s.labels with
    | error cause => rfl
    | ok image => cases s.draft.flush.map.toList.mapM (Entry.resolve s.labels) <;> rfl

end State

include hinj

/-- A renamed source is assembled as before, up to the names. -/
theorem assemble_rename (hr : ∀ name, ∀ c ∈ (r name).toList.getLast?, Text.isBlank c = false)
    {lines : List Line} (hmarked : ∀ text ∈ Source.operandTexts lines, Word.parse? text = none →
      text.toList.head? = some '&') :
    assemble (lines.map (Line.rename r)) =
      mapBoth (Assembly.rename r) (Error.rename r) (assemble lines) := by
  rw [assemble_eq, assemble_eq, Source.read_rename hr]
  cases hread : Source.read lines with
  | error e => rfl
  | ok program =>
    obtain ⟨rfl, hparse⟩ := Source.of_read_eq_ok hread
    have htokens : ∀ c ∈ (State.initial.run program).draft.flush.image.toList, ∀ t,
        c.content = .token t → Word.parse? t = none → t.toList.head? = some '&' := by
      intro c hc t ht hnone
      rw [State.toList_image_flush_run] at hc
      rcases List.mem_cons.1 (Source.mem_operandTexts_of_token hparse hc ht) with rfl | htext
      · decide
      · exact hmarked t htext hnone
    have hrun := State.run_rename hinj State.initial program
    rw [State.rename_initial hmain] at hrun
    show (State.initial.run (program.map _)).finish.mapError Error.ofCause =
      mapBoth _ _ ((State.initial.run program).finish.mapError Error.ofCause)
    rw [hrun, State.finish_rename hinj hmain (State.getElem?_entry_run program) htokens]
    cases (State.initial.run program).finish <;> rfl

end

/-- The second pass leaves no mark in the map, so that only labels are renamed there. -/
theorem Assembly.MadeFrom.map_rename {a : Assembly} {program : List (Line × Statement)}
    (h : a.MadeFrom program) :
    a.map.map (Entry.rename r) =
      a.map.map fun e => if e.kind = .label then { e with value := r e.value } else e := by
  refine List.map_congr_left fun e he => ?_
  obtain ⟨d, -, hd⟩ := exists_of_mem_of_mapM h.map he
  have hliteral : e.kind = .literal → e.value.toList.head? ≠ some '&' := by
    rcases Entry.resolve_cases hd with ⟨rfl, hunmarked⟩ | ⟨-, -, w, -, rfl⟩
    · exact hunmarked
    · intro hkind
      cases hkind
  obtain ⟨kind, value, offset⟩ := e
  cases kind with
  | literal =>
    have hvalue := Labels.renameToken_of_not_marked (r := r) (hliteral rfl)
    simp [Entry.rename, hvalue]
  | _ => rfl

/-- The names of labels do not matter. When the labels of a source get other names, each its own and
`main` its old one, the source fails as before, with the new name if a label is not defined, or is
assembled as before: image, code and the name for the image file are the same, each label has its
offset under its new name, and the map and the warnings differ in the names of labels only. Uses of
labels have to be marked, and a new name must not end in a blank character. -/
theorem label_names_immaterial {r : String → String} (hinj : Function.Injective r)
    (hmain : r State.entryLabel = State.entryLabel)
    (hr : ∀ name, ∀ c ∈ (r name).toList.getLast?, Text.isBlank c = false) {lines : List Line}
    (hmarked : ∀ text ∈ Source.operandTexts lines, Word.parse? text = none →
      text.toList.head? = some '&') :
    failure? (assemble (lines.map (Line.rename r))) =
        (failure? (assemble lines)).map (Error.rename r) ∧
      ∀ a, assemble lines = .ok a → ∃ a', assemble (lines.map (Line.rename r)) = .ok a' ∧
        a'.image = a.image ∧ a'.output = a.output ∧
        a'.map = a.map.map (fun e => if e.kind = .label then { e with value := r e.value } else e) ∧
        (∀ name, a'.labels.lookup (r name) = a.labels.lookup name) ∧
        a'.warnings.map (fun w => (w.name, w.line.number, w.first.line.number, w.first.offset)) =
          a.warnings.map fun w =>
            (r w.name, w.line.number, w.first.line.number, w.first.offset) := by
  have hassemble := assemble_rename hinj hmain hr hmarked
  refine ⟨?_, fun a ha => ⟨a.rename r, ?_, rfl, rfl, ?_, ?_, ?_⟩⟩
  · rw [hassemble, failure?_mapBoth]
  · rw [hassemble, ha]
    rfl
  · obtain ⟨program, -, hmade⟩ := Assembly.madeFrom_of_assemble ha
    exact hmade.map_rename r
  · exact Labels.lookup_rename hinj a.labels
  · simp [Assembly.rename, Redefinition.rename, Definition.rename, Line.number_rename]

/-- New names for a label that looks like a number, is defined twice and is used before, and for one
with a blank character in its name. -/
theorem label_names_immaterial_exclaimed :
    ∃ a a',
      assemble [⟨1, ":main"⟩, ⟨2, "lit &7"⟩, ⟨3, ":7"⟩, ⟨4, ":7"⟩, ⟨5, ".data  &a b "⟩,
        ⟨6, ":a b"⟩] = .ok a ∧
      assemble [⟨1, ":main"⟩, ⟨2, "lit &7!"⟩, ⟨3, ":7!"⟩, ⟨4, ":7!"⟩, ⟨5, ".data  &a b! "⟩,
        ⟨6, ":a b!"⟩] = .ok a' ∧
      a'.image = a.image ∧ a'.labels.lookup "7!" = a.labels.lookup "7" := by
  have hne : ∀ name : String, "main" ≠ name ++ "!" := by
    intro name h
    have hlast := congrArg (fun text : String => text.toList.getLast?) h
    simp at hlast
  have hinj : Function.Injective fun name => if name = "main" then name else name ++ "!" := by
    intro m n h
    by_cases hm : m = "main" <;> by_cases hn : n = "main" <;>
      simp only [hm, hn, if_true, if_false] at h
    · rw [hm, hn]
    · exact absurd h (hne n)
    · exact absurd h.symm (hne m)
    · exact (String.append_left_inj "!").1 h
  have hr : ∀ name : String, ∀ c ∈ (if name = "main" then name else name ++ "!").toList.getLast?,
      Text.isBlank c = false := by
    intro name c hc
    split at hc
    · rename_i hname
      subst hname
      obtain rfl : 'n' = c := Option.some.inj hc
      decide
    · obtain rfl : '!' = c := by simpa using hc
      decide
  obtain ⟨a, ha⟩ : ∃ a, assemble [⟨1, ":main"⟩, ⟨2, "lit &7"⟩, ⟨3, ":7"⟩, ⟨4, ":7"⟩,
    ⟨5, ".data  &a b "⟩, ⟨6, ":a b"⟩] = .ok a := ⟨_, rfl⟩
  obtain ⟨a', ha', himage, -, -, hlookup, -⟩ :=
    (label_names_immaterial hinj (by decide) hr (by decide)).2 a ha
  exact ⟨a, a', ha, ha', himage, hlookup "7"⟩

end PackedStack
