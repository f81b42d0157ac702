import PackedStack.Command.Run
import PackedStack.Proofs.Assembly.SecondPass
import PackedStack.Proofs.Files.FileSystem

/-!
# What a run leaves behind

A run of the program in a world is followed from action to action (`Command.outcome`): reading the
source changes nothing (`outcome_readSource`), and printing changes no file, so that all that a run
does to the files is to save the image and the map, and that only if the source was assembled
(`exists_outcome_run`). The source names the image file in its last directive for that
(`output_of_assemble`).
-/

namespace PackedStack

/-! ## The name of the image file -/

/-- The path that a statement gives to the image file. -/
def Statement.outputPath? : Statement → Option String
  | output path => some path
  | _ => none

/-- The paths that a source gives to the image file, one after the other. -/
def Source.outputPaths (lines : List Line) : List String :=
  lines.filterMap fun line => line.statement?.bind (·.outputPath?)

theorem State.output_execute (s : State) (line : Line) (st : Statement) :
    (s.execute line st).output = st.outputPath?.or s.output := by
  cases st <;> rfl

/-- The last path counts. -/
theorem State.output_run (s : State) (program : List (Line × Statement)) :
    (s.run program).output =
      ((program.map (·.2)).filterMap (·.outputPath?)).getLast?.or s.output := by
  induction program generalizing s with
  | nil => rfl
  | cons p program ih =>
    refine (ih (s.execute p.1 p.2)).trans ?_
    rw [output_execute, List.map_cons, ← Option.or_assoc]
    congr 1
    cases hp : p.2.outputPath? with
    | none => rw [List.filterMap_cons_none hp, Option.or_none]
    | some path =>
      rw [List.filterMap_cons_some hp, List.getLast?_cons]
      cases ((program.map (·.2)).filterMap (·.outputPath?)).getLast? <;> rfl

theorem output_of_assemble {lines : List Line} {a : Assembly} (h : assemble lines = .ok a) :
    a.output = (Source.outputPaths lines).getLast? := by
  obtain ⟨program, hread, hmade⟩ := Assembly.madeFrom_of_assemble h
  obtain ⟨rfl, hparse⟩ := Source.of_read_eq_ok hread
  rw [hmade.output, State.output_run, Source.outputPaths, Source.filterMap_of_parse hparse]
  exact Option.or_none

/-! ## What a world holds -/

/-- What is read as the source: a file, or standard input if no file is named. -/
def World.sourceBytes (w : World) (input : Option String) : Except Error (List UInt8) :=
  match input with
  | none => .ok w.input
  | some path => do
    let location ← (w.files.openFile path).mapError fun fault => .ofCause (.openFailed path fault)
    (w.files.read location).mapError fun fault => .ofCause (.readFailed fault)

/-- The source that a run reads. -/
def World.source (w : World) (input : Option String) : Except Error (List Line) := do
  (Source.load (← w.sourceBytes input)).mapError .ofCause

theorem World.run_create (path : String) (w : World) :
    (host.create path).run w =
      match w.files.create path with
      | .ok (location, files) => (.ok location, { w with files })
      | .error fault => (.error fault, w) := by
  cases hcreate : w.files.create path <;>
    simp only [host, StateT.run_bind, StateT.run_get, pure_bind, hcreate] <;>
    rfl

theorem World.run_write (location : Location) (bytes : List UInt8) (w : World) :
    (host.write location bytes).run w =
      match w.files.write location bytes with
      | .ok files => (.ok (), { w with files })
      | .error fault => (.error fault, w) := by
  cases hwrite : w.files.write location bytes <;>
    simp only [host, StateT.run_bind, StateT.run_get, pure_bind, hwrite] <;>
    rfl

/-- Makes the image file and then, if that did not fail, the map file beside it. -/
def FileSystem.save (fs : FileSystem) (path : String) (words : List Word) (map : List Entry) :
    FileSystem × Option Cause :=
  match fs.store path (Artifact.imageBytes words) with
  | (files, none) => files.store (Artifact.mapPath path) (Artifact.mapBytes map)
  | (files, some cause) => (files, some cause)

namespace FileSystem

variable {fs : FileSystem} {path : String} {words : List Word} {map : List Entry}

theorem save_of_failed (h : (fs.store path (Artifact.imageBytes words)).2 ≠ none) :
    fs.save path words map = fs.store path (Artifact.imageBytes words) := by
  rw [save]
  split
  · rename_i hstore
    exact absurd (congrArg (·.2) hstore) h
  · rename_i hstore
    exact hstore.symm

theorem save_of_made (h : (fs.store path (Artifact.imageBytes words)).2 = none) :
    fs.save path words map =
      (fs.store path (Artifact.imageBytes words)).1.store (Artifact.mapPath path)
        (Artifact.mapBytes map) := by
  rw [save]
  split
  · rename_i hstore
    rw [hstore]
  · rename_i hstore
    rw [hstore] at h
    cases h

/-- The map file is made at a place of its own, and this place does not depend on the image file. -/
theorem target_mapPath {location : Location} (bytes : List UInt8)
    (h : fs.target path = some location) :
    (fs.store path bytes).1.target (Artifact.mapPath path) = fs.target (Artifact.mapPath path) ∧
      fs.target (Artifact.mapPath path) ≠ some location :=
  target_store bytes h (by decide) (by decide)

/-- Only the two files change, and the map file only if the image file was made. -/
theorem get?_save_of_ne {l : Location} (h : fs.target path ≠ some l)
    (hmap : (fs.store path (Artifact.imageBytes words)).2 ≠ none ∨
      fs.target (Artifact.mapPath path) ≠ some l) :
    (fs.save path words map).1.get? l = fs.get? l := by
  by_cases himage : (fs.store path (Artifact.imageBytes words)).2 = none
  · obtain ⟨location, htarget, -, -⟩ := of_store_eq_none himage
    have hne := hmap.resolve_left (not_not_intro himage)
    rw [← (target_mapPath (Artifact.imageBytes words) htarget).1] at hne
    rw [save_of_made himage, get?_store_of_ne _ hne, get?_store_of_ne _ h]
  · rw [save_of_failed himage, get?_store_of_ne _ h]

/-- Two files that were made are at their paths and hold what was written to them. -/
theorem of_save_eq_none (h : (fs.save path words map).2 = none) :
    ∃ l l', l ≠ l' ∧ fs.target path = some l ∧ fs.target (Artifact.mapPath path) = some l' ∧
      (fs.save path words map).1.openFile path = .ok l ∧
      (fs.save path words map).1.openFile (Artifact.mapPath path) = .ok l' ∧
      (fs.HoldsFiles l → (fs.save path words map).1.read l = .ok (Artifact.imageBytes words)) ∧
      (fs.HoldsFiles l' → (fs.save path words map).1.read l' = .ok (Artifact.mapBytes map)) := by
  have himage : (fs.store path (Artifact.imageBytes words)).2 = none := by
    by_contra hfailed
    rw [save_of_failed hfailed] at h
    exact hfailed h
  rw [save_of_made himage] at h ⊢
  obtain ⟨l, htarget, hsome, hholds⟩ := of_store_eq_none himage
  obtain ⟨l', htarget', hsome', hholds'⟩ := of_store_eq_none h
  obtain ⟨hsame, hne⟩ := target_mapPath (Artifact.imageBytes words) htarget
  have hl : l ≠ l' := by
    rintro rfl
    exact hne (hsame.symm.trans htarget')
  have hkeeps := keeps_store (fs.store path (Artifact.imageBytes words)).1 (Artifact.mapPath path)
    (Artifact.mapBytes map)
  have hother := get?_store_of_ne (Artifact.mapBytes map)
    (show (fs.store path (Artifact.imageBytes words)).1.target (Artifact.mapPath path) ≠ some l by
      rw [htarget']
      exact fun heq => hl (Option.some.inj heq).symm)
  refine ⟨l, l', hl, htarget, hsame.symm.trans htarget', ?_, ?_, fun hfile => ?_, fun hfile => ?_⟩
  · exact openFile_of_target htarget ((keeps_store fs path _).trans hkeeps) (hkeeps.isSome l hsome)
  · exact openFile_of_target htarget' hkeeps hsome'
  · rw [read, hother, hholds hfile]
  · have hbefore : (fs.store path (Artifact.imageBytes words)).1.HoldsFiles l' := by
      rw [HoldsFiles,
        get?_store_of_ne _ (by rw [htarget]; exact fun heq => hl (Option.some.inj heq))]
      exact hfile
    rw [read, hholds' hbefore]

end FileSystem

namespace Command

/-! ## Computations in a world -/

/-- What a computation gives in a world, and the world after it. -/
def outcome {α : Type} (x : ExceptT Error (StateM World) α) (w : World) : Except Error α × World :=
  x.run.run w

theorem outcome_bind {α β : Type} (x : ExceptT Error (StateM World) α)
    (f : α → ExceptT Error (StateM World) β) (w : World) :
    outcome (x >>= f) w =
      match outcome x w with
      | (.ok a, w') => outcome (f a) w'
      | (.error e, w') => (.error e, w') := by
  show (match x.run.run w with | (r, w') => ExceptT.bindCont f r w') = _
  rw [outcome]
  rcases x.run.run w with ⟨r, w'⟩
  cases r <;> rfl

theorem outcome_print (text : String) (w : World) :
    outcome (liftM (World.host.print text)) w =
      (.ok (), { w with printed := w.printed ++ text }) := rfl

theorem outcome_attempt {α : Type} (cause : SystemFault → Cause)
    (action : StateM World (Except SystemFault α)) (w : World) :
    outcome (attempt cause action) w =
      ((action.run w).1.mapError fun fault => .ofCause (cause fault), (action.run w).2) := rfl

/-- Reading the source changes nothing. -/
theorem outcome_readSource (input : Option String) (w : World) :
    outcome (readSource World.host input) w = (w.source input, w) := by
  cases input with
  | none => rfl
  | some path =>
    have hopen : (World.host.openFile path).run w = ((w.files.openFile path).map .file, w) := rfl
    rw [readSource, outcome_bind, outcome_attempt, hopen, World.source, World.sourceBytes]
    cases w.files.openFile path with
    | error fault => rfl
    | ok location =>
      have hread : (World.host.read (.file location)).run w = (w.files.read location, w) := rfl
      show outcome (attempt .readFailed (World.host.read (.file location)) >>= _) w =
        ((w.files.read location).mapError _ >>= fun bytes =>
          (Source.load bytes).mapError .ofCause, w)
      rw [outcome_bind, outcome_attempt, hread]
      cases w.files.read location <;> rfl

/-- The outcome of a step that may fail and has no result. -/
def ofFailure : Option Cause → Except Error Unit
  | none => .ok ()
  | some cause => .error (.ofCause cause)

theorem failure?_ofFailure_eq_none_iff {failure : Option Cause} :
    failure? (ofFailure failure) = none ↔ failure = none := by
  cases failure <;> simp [ofFailure, failure?]

theorem outcome_saveFile (path : String) (bytes : List UInt8) (w : World) :
    outcome (saveFile World.host path bytes) w =
      (ofFailure (w.files.store path bytes).2,
        { w with files := (w.files.store path bytes).1 }) := by
  rw [saveFile, outcome_bind, outcome_attempt, World.run_create, FileSystem.store]
  rcases w.files.create path with fault | ⟨location, files⟩
  · rfl
  · show outcome (attempt (.writeFailed path) (World.host.write location bytes)) { w with files } =
      _
    rw [outcome_attempt, World.run_write]
    dsimp only
    cases files.write location bytes <;> rfl

theorem outcome_save (path : String) (words : List Word) (map : List Entry) (w : World) :
    outcome (save World.host path words map) w =
      ((ofFailure (w.files.save path words map).2).map fun _ => Artifact.mapPath path,
        { w with files := (w.files.save path words map).1 }) := by
  rw [save, outcome_bind, outcome_saveFile, FileSystem.save]
  rcases w.files.store path (Artifact.imageBytes words) with ⟨files, failure⟩
  cases failure with
  | some cause => rfl
  | none =>
    simp only [ofFailure, outcome_bind, outcome_saveFile]
    cases (files.store (Artifact.mapPath path) (Artifact.mapBytes map)).2 <;> rfl

/-- Apart from what is printed, all that a run does is to save the assembly of its source. -/
theorem exists_outcome_run (options : Options) (w : World) :
    ∃ printed, outcome (run World.host options) w =
      match w.source options.input >>= assemble with
      | .error e => (.error e, { w with printed })
      | .ok a =>
        let saved :=
          w.files.save (Artifact.imagePath options.output a.output) a.image.contents a.map
        (ofFailure saved.2, { w with files := saved.1, printed }) := by
  have hsource (printed : String) : { w with printed }.source options.input =
      w.source options.input := rfl
  simp only [run, outcome_bind, outcome_print, outcome_readSource, hsource]
  cases w.source options.input with
  | error e => exact ⟨_, rfl⟩
  | ok lines =>
    have hassemble (w' : World) :
        outcome (ExceptT.mk (pure (assemble lines))) w' = (assemble lines, w') := rfl
    have hbind : (Except.ok lines >>= assemble) = assemble lines := rfl
    simp only [hassemble, hbind]
    cases assemble lines with
    | error e => exact ⟨_, rfl⟩
    | ok a =>
      cases options.dump <;>
        simp only [Bool.false_eq_true, if_true, if_false, outcome_bind, outcome_print,
          outcome_save] <;>
        cases
          (w.files.save (Artifact.imagePath options.output a.output) a.image.contents a.map).2 <;>
        exact ⟨_, rfl⟩

/-- The exit status of a run tells whether it failed. -/
theorem run_execute {arguments : List String} {options : Options}
    (h : Request.parse arguments = .run options) (w : World) :
    ∃ printed, (execute World.host arguments).run w =
      (if failure? (outcome (run World.host options) w).1 = none then 0 else 1,
        { (outcome (run World.host options) w).2 with printed }) := by
  rcases hout : outcome (run World.host options) w with ⟨r, w'⟩
  have hrun : (run World.host options).run.run w = pure (r, w') := hout
  simp only [execute, h, StateT.run_bind, hrun, pure_bind]
  cases r <;> exact ⟨_, rfl⟩

/-- What a command leaves: the files as they were if its source cannot be assembled, and otherwise
what saving makes of them. -/
theorem run_execute_save {arguments : List String} {options : Options}
    (h : Request.parse arguments = .run options) (w : World) :
    let status := ((execute World.host arguments).run w).1
    let files := ((execute World.host arguments).run w).2.files
    match w.source options.input >>= assemble with
    | .error _ => status = 1 ∧ files = w.files
    | .ok a =>
      let saved := w.files.save (Artifact.imagePath options.output a.output) a.image.contents a.map
      status = (if saved.2 = none then 0 else 1) ∧ files = saved.1 := by
  obtain ⟨printed, hexecute⟩ := run_execute h w
  obtain ⟨printed', hrun⟩ := exists_outcome_run options w
  simp only [hexecute, hrun]
  cases w.source options.input >>= assemble with
  | error e => exact ⟨rfl, rfl⟩
  | ok a => simp only [failure?_ofFailure_eq_none_iff, and_self]

end Command

end PackedStack
