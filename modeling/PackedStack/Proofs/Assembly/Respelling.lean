import PackedStack.Proofs.Assembly.Outcome
import PackedStack.Proofs.Source.Load
import PackedStack.Proofs.Source.Spelling

/-!
# Spelling a source anew

An assembly tells of lines only to point at them. If other lines stand in place of those that a
state knows, then carrying out a statement on another line gives the same state with other lines in
it (`State.execute_mapLines`), and so does a whole program (`State.run_mapLines`). The second pass
does not look at lines at all (`State.finish_mapLines`). So what is assembled depends on statements
only (`State.finish_run_of_statements`), and a source can be spelled anew, with each statement in
its shortest spelling on a line of its own (`Source.read_spelled`).
-/

namespace PackedStack

section

variable (f : Line → Line)

/-! ## Other lines -/

def Definition.mapLine (d : Definition) : Definition := { d with line := f d.line }

def Labels.mapLines (labels : Labels) : Labels :=
  ⟨labels.entries.map (Prod.map id (Definition.mapLine f))⟩

def Redefinition.mapLines (w : Redefinition) : Redefinition where
  name := w.name
  line := f w.line
  first := w.first.mapLine f

/-- The state that the first pass has if other lines stand where those stand that it has read. -/
def State.mapLines (s : State) : State :=
  { s with labels := s.labels.mapLines f, warnings := s.warnings.map (Redefinition.mapLines f) }

def Assembly.mapLines (a : Assembly) : Assembly :=
  { a with labels := a.labels.mapLines f, warnings := a.warnings.map (Redefinition.mapLines f) }

namespace Labels

theorem find?_mapLines (labels : Labels) (name : String) :
    (labels.mapLines f).find? name = (labels.find? name).map (Definition.mapLine f) :=
  lookup_map_of_injective Function.injective_id (Definition.mapLine f) labels.entries name

theorem lookup_mapLines (labels : Labels) (name : String) :
    (labels.mapLines f).lookup name = labels.lookup name := by
  rw [lookup, find?_mapLines, Option.map_map]
  rfl

theorem define_mapLines (labels : Labels) (name : String) (definition : Definition) :
    (labels.mapLines f).define name (definition.mapLine f) =
      (labels.define name definition).mapLines f := by
  rw [define, define, find?_mapLines]
  cases labels.find? name with
  | some first => rfl
  | none => simp [mapLines]

theorem resolve_mapLines (labels : Labels) : (labels.mapLines f).resolve = labels.resolve := by
  funext token
  rw [resolve, resolve]
  simp only [lookup_mapLines]

end Labels

/-! ## The first pass -/

namespace State

theorem mapLines_initial : initial.mapLines f = initial := by
  simp [mapLines, initial, Labels.mapLines, Labels.empty]

theorem defineLabel_mapLines (s : State) (name : String) (line : Line) :
    (s.mapLines f).defineLabel name (f line) = (s.defineLabel name line).mapLines f := by
  have hlabels : (s.mapLines f).labels.define name ⟨s.draft.flush.here, f line⟩ =
      (s.labels.define name ⟨s.draft.flush.here, line⟩).mapLines f :=
    Labels.define_mapLines f s.labels name ⟨s.draft.flush.here, line⟩
  have hfind : (s.mapLines f).labels.find? name =
      (s.labels.find? name).map (Definition.mapLine f) := Labels.find?_mapLines f s.labels name
  have hdraft : (s.mapLines f).draft = s.draft := rfl
  simp only [defineLabel, hdraft, hlabels, hfind]
  cases s.labels.find? name <;> simp [mapLines, Redefinition.mapLines]

/-- Of all statements only a label keeps the line that it stands on. -/
theorem execute_mapLines (s : State) (line : Line) (st : Statement) :
    (s.mapLines f).execute (f line) st = (s.execute line st).mapLines f := by
  cases st with
  | label name => exact defineLabel_mapLines f s name line
  | _ => rfl

theorem run_mapLines (s : State) (program : List (Line × Statement)) :
    (s.mapLines f).run (program.map (Prod.map f id)) = (s.run program).mapLines f := by
  induction program generalizing s with
  | nil => rfl
  | cons p program ih =>
    rw [List.map_cons, run, List.foldl_cons, ← run, Prod.map_fst, Prod.map_snd, id,
      execute_mapLines, ih]
    rfl

end State

/-! ## The second pass -/

section

variable {labels labels' : Labels} (h : labels'.resolve = labels.resolve)

include h

theorem Image.resolve_congr (image : Image Operand) :
    image.resolve labels' = image.resolve labels := by
  have hoperand : Operand.resolve labels' = Operand.resolve labels := by
    funext o
    cases o with
    | value w => rfl
    | token t => exact congrFun h t
  have hcell : Cell.resolve labels' = Cell.resolve labels := by
    funext c
    rw [Cell.resolve, Cell.resolve, hoperand]
  rw [resolve, resolve, hcell]

theorem Entry.resolveAll_congr (es : List Entry) :
    resolveAll labels' es = resolveAll labels es := by
  have hentry : Entry.resolve labels' = Entry.resolve labels := by
    funext e
    rw [Entry.resolve, Entry.resolve, h]
  induction es with
  | nil => rfl
  | cons e es ih => rw [resolveAll, resolveAll, hentry, ih]

end

/-- The second pass hands lines on and does not look at them. -/
theorem State.finish_mapLines (s : State) :
    (s.mapLines f).finish = s.finish.map (Assembly.mapLines f) := by
  have hresolve := Labels.resolve_mapLines f s.labels
  have hlookup := Labels.lookup_mapLines f s.labels entryLabel
  have hlabels : (s.mapLines f).labels = s.labels.mapLines f := rfl
  have hdraft : (s.mapLines f).draft = s.draft := rfl
  have hentry : (s.mapLines f).entry = s.entry := rfl
  have hwarnings : (s.mapLines f).warnings.toList =
      s.warnings.toList.map (Redefinition.mapLines f) := Array.toList_map ..
  rw [finish, finish, hlabels, hlookup, hdraft, hentry]
  cases s.labels.lookup entryLabel with
  | none => rfl
  | some offset =>
    cases hpatch : s.draft.flush.image.patch? s.entry (.value (Word.ofAddress offset)) with
    | none =>
      simp only [hpatch]
      rfl
    | some image =>
      simp only [hpatch, Image.resolve_congr hresolve, Entry.resolveAll_congr hresolve]
      cases image.resolve s.labels with
      | error cause => rfl
      | ok image' =>
        obtain ⟨map, failure⟩ := Entry.resolveAll s.labels s.draft.flush.map.toList
        cases failure with
        | some cause => rfl
        | none =>
          show Except.ok (⟨image', map, _, _, (s.mapLines f).warnings.toList⟩ : Assembly) = _
          rw [hwarnings]
          rfl

end

/-! ## Sources with the same statements -/

/-- Programs with the same statements differ in their lines only, also once they are assembled. -/
theorem State.finish_run_of_statements {program program' : List (Line × Statement)}
    (h : program'.map (·.2) = program.map (·.2)) (line : Line) :
    (initial.run program').finish.map (Assembly.mapLines fun _ => line) =
      (initial.run program).finish.map (Assembly.mapLines fun _ => line) := by
  have hstatements : ∀ program : List (Line × Statement),
      (initial.run program).finish.map (Assembly.mapLines fun _ => line) =
        (initial.run ((program.map (·.2)).map fun s => (line, s))).finish := by
    intro program
    rw [← finish_mapLines, ← run_mapLines, mapLines_initial, List.map_map]
    rfl
  rw [hstatements, hstatements, h]

/-- Two assemblies with the same content, which point at other lines in their warnings. -/
structure Assembly.SameButLines (a a' : Assembly) : Prop where
  image : a'.image = a.image
  map : a'.map = a.map
  output : a'.output = a.output
  lookup : ∀ name, a'.labels.lookup name = a.labels.lookup name
  warnings : a'.warnings.map (fun w => (w.name, w.first.offset)) =
    a.warnings.map fun w => (w.name, w.first.offset)

theorem Assembly.sameButLines_of_mapLines {f : Line → Line} {a a' : Assembly}
    (h : a'.mapLines f = a.mapLines f) : a.SameButLines a' where
  image := congrArg (·.image) h
  map := congrArg (·.map) h
  output := congrArg (·.output) h
  lookup name := by
    have hlabels : a'.labels.mapLines f = a.labels.mapLines f := congrArg (·.labels) h
    rw [← Labels.lookup_mapLines f, hlabels, Labels.lookup_mapLines]
  warnings := by
    have hwarnings : a'.warnings.map (Redefinition.mapLines f) =
        a.warnings.map (Redefinition.mapLines f) := congrArg (·.warnings) h
    have hpairs := congrArg (List.map fun w => (w.name, w.first.offset)) hwarnings
    rwa [List.map_map, List.map_map] at hpairs

theorem assemble_of_statements {lines lines' : List Line}
    {program program' : List (Line × Statement)}
    (hread : Source.read lines = .ok program) (hread' : Source.read lines' = .ok program')
    (h : program'.map (·.2) = program.map (·.2)) :
    failure? (assemble lines') = failure? (assemble lines) ∧
      ∀ a a', assemble lines = .ok a → assemble lines' = .ok a' → a.SameButLines a' := by
  have hfinish := State.finish_run_of_statements h ⟨0, ""⟩
  rw [assemble_of_read hread, assemble_of_read hread']
  refine ⟨?_, fun a a' ha ha' => ?_⟩
  · rw [failure?_mapError, failure?_mapError, ← failure?_map, hfinish, failure?_map]
  · rw [mapError_eq_ok_iff] at ha ha'
    rw [ha, ha'] at hfinish
    exact Assembly.sameButLines_of_mapLines (Except.ok.inj hfinish)

/-! ## Spelled sources -/

/-- Statements that are spelled one on each line are read as they are. -/
theorem Source.read_spelled {statements : List Statement} (h : ∀ s ∈ statements, s.Spellable) :
    ∃ lines program, load (Utf8.encode (printRows (statements.map (·.spell)))) = .ok lines ∧
      read lines = .ok program ∧ program.map (·.2) = statements := by
  let program : List (Line × Statement) := (statements.zipIdx 1).map fun s =>
    (⟨s.2, String.ofList (Text.trim s.1.spell.toList)⟩, s.1)
  have hload : load (Utf8.encode (printRows (statements.map (·.spell)))) =
      .ok (program.map (·.1)) := by
    rw [load_printRows, numbered_eq_map, List.zipIdx_map, List.map_map, List.map_map]
    · rfl
    · intro text htext
      obtain ⟨s, hs, rfl⟩ := List.mem_map.1 htext
      exact (h s hs).trim_ne_nil
    · intro text htext
      obtain ⟨s, hs, rfl⟩ := List.mem_map.1 htext
      exact ⟨(h s hs).newline_not_mem, (h s hs).getLast?_ne⟩
  refine ⟨program.map (·.1), program, hload, read_of_parse fun p hp => ?_, ?_⟩
  · obtain ⟨s, hs, rfl⟩ := List.mem_map.1 hp
    exact (h s.1 (List.fst_mem_of_mem_zipIdx hs)).parse_trim
  · rw [List.map_map]
    exact List.zipIdx_map_fst 1 statements

/-- What is assembled depends on the statements of a source only. Another source with the same
statements fails as it does, at no line, or gives the same assembly, up to the lines that warnings
point at. Such a source is the one that has each statement in its shortest spelling on a line of its
own, as the spelling of a statement is read as the statement. -/
theorem assemble_depends_on_statements {bytes : List UInt8} {lines : List Line}
    {program : List (Line × Statement)} (hload : Source.load bytes = .ok lines)
    (hread : Source.read lines = .ok program) :
    (∀ lines' program', Source.read lines' = .ok program' →
      program'.map (·.2) = program.map (·.2) →
        failure? (assemble lines') = failure? (assemble lines) ∧
        ∀ a a', assemble lines = .ok a → assemble lines' = .ok a' → a.SameButLines a') ∧
    (∀ e, failure? (assemble lines) = some e → e.line? = none) ∧
    (∃ lines' program',
      Source.load (Utf8.encode (printRows (program.map (·.2.spell)))) = .ok lines' ∧
      Source.read lines' = .ok program' ∧ program'.map (·.2) = program.map (·.2)) ∧
    ∀ text s, Statement.parse text = .ok s → Statement.parse s.spell = .ok s := by
  obtain ⟨rfl, hparse⟩ := Source.of_read_eq_ok hread
  refine ⟨fun lines' program' hread' h => assemble_of_statements hread hread' h, fun e he => ?_, ?_,
    fun text s => Statement.parse_spell⟩
  · rw [assemble_of_read hread, failure?_mapError] at he
    obtain ⟨cause, -, rfl⟩ := Option.map_eq_some_iff.1 he
    rfl
  · have hspellable : ∀ s ∈ program.map (·.2), s.Spellable := by
      intro s hs
      obtain ⟨p, hp, rfl⟩ := List.mem_map.1 hs
      obtain ⟨-, htrimmed, hnewline⟩ := Source.of_mem_load hload (List.mem_map_of_mem hp)
      exact Statement.spellable_of_parse (hparse p hp) htrimmed hnewline
    have hspelled := Source.read_spelled hspellable
    rwa [List.map_map] at hspelled

/-- A source with all that does not matter in it, and its statements spelled anew: the warning about
`x` points at other lines, and all else is the same. -/
theorem assemble_depends_on_statements_redefined :
    ∃ lines program a a',
      Source.load (Utf8.encode "\n :main\r\nlit 0x10\nreturn now\n:x\n.string\n\n:x") = .ok lines ∧
      Source.read lines = .ok program ∧
      printRows (program.map (·.2.spell)) = ":main\nli 16\nre\n:x\n.s \n:x\n" ∧
      assemble lines = .ok a ∧
      assemble [⟨1, ":main"⟩, ⟨2, "li 16"⟩, ⟨3, "re"⟩, ⟨4, ":x"⟩, ⟨5, ".s"⟩, ⟨6, ":x"⟩] = .ok a' ∧
      a.warnings = [⟨"x", ⟨8, ":x"⟩, ⟨4, ⟨5, ":x"⟩⟩⟩] ∧
      a'.warnings = [⟨"x", ⟨6, ":x"⟩, ⟨4, ⟨4, ":x"⟩⟩⟩] ∧ a.SameButLines a' := by
  have hload : Source.load (Utf8.encode
      "\n :main\r\nlit 0x10\nreturn now\n:x\n.string\n\n:x") = .ok [⟨2, ":main"⟩, ⟨3, "lit 0x10"⟩,
        ⟨4, "return now"⟩, ⟨5, ":x"⟩, ⟨6, ".string"⟩, ⟨8, ":x"⟩] := rfl
  have hread : Source.read [⟨2, ":main"⟩, ⟨3, "lit 0x10"⟩, ⟨4, "return now"⟩, ⟨5, ":x"⟩,
      ⟨6, ".string"⟩, ⟨8, ":x"⟩] = .ok [(⟨2, ":main"⟩, .label "main"),
        (⟨3, "lit 0x10"⟩, .instruction ⟨.lit, some (.value 16)⟩),
        (⟨4, "return now"⟩, .instruction ⟨.ret, none⟩), (⟨5, ":x"⟩, .label "x"),
        (⟨6, ".string"⟩, .text ""), (⟨8, ":x"⟩, .label "x")] := rfl
  have hread' : Source.read [⟨1, ":main"⟩, ⟨2, "li 16"⟩, ⟨3, "re"⟩, ⟨4, ":x"⟩, ⟨5, ".s"⟩,
      ⟨6, ":x"⟩] = .ok [(⟨1, ":main"⟩, .label "main"),
        (⟨2, "li 16"⟩, .instruction ⟨.lit, some (.value 16)⟩),
        (⟨3, "re"⟩, .instruction ⟨.ret, none⟩), (⟨4, ":x"⟩, .label "x"),
        (⟨5, ".s"⟩, .text ""), (⟨6, ":x"⟩, .label "x")] := rfl
  obtain ⟨a, ha, hwarnings⟩ : ∃ a, assemble [⟨2, ":main"⟩, ⟨3, "lit 0x10"⟩, ⟨4, "return now"⟩,
      ⟨5, ":x"⟩, ⟨6, ".string"⟩, ⟨8, ":x"⟩] = .ok a ∧
      a.warnings = [⟨"x", ⟨8, ":x"⟩, ⟨4, ⟨5, ":x"⟩⟩⟩] := ⟨_, rfl, by decide⟩
  obtain ⟨a', ha', hwarnings'⟩ : ∃ a', assemble [⟨1, ":main"⟩, ⟨2, "li 16"⟩, ⟨3, "re"⟩,
      ⟨4, ":x"⟩, ⟨5, ".s"⟩, ⟨6, ":x"⟩] = .ok a' ∧
      a'.warnings = [⟨"x", ⟨6, ":x"⟩, ⟨4, ⟨4, ":x"⟩⟩⟩] := ⟨_, rfl, by decide⟩
  obtain ⟨hsame, -⟩ := assemble_depends_on_statements hload hread
  exact ⟨_, _, a, a', hload, hread, by decide, ha, ha', hwarnings, hwarnings',
    (hsame _ _ hread' rfl).2 a a' ha ha'⟩

end PackedStack
