import PackedStack.Assembly.Session
import PackedStack.Proofs.Assembly.Map
import PackedStack.Proofs.Assembly.Places

/-!
# What the first pass adds

A draft only grows at its end: what was laid stays where it is, and what a statement adds lies
between the old end and the new one (`Draft.Extends.of_lays`). The same holds of all that the first
pass knows after a statement (`State.extends_execute`), and so after any number of them
(`State.extends_run`). In a session some lines fail. Such a line leaves no trace
(`Session.readLine_cases`), so that a session is the first pass over the lines that are statements
(`State.after_eq_run`), and can be finished to the assembly of those (`reading_only_adds`).
-/

namespace PackedStack

open Layout (Run Piece)

/-! ## Code and entries behind an address -/

/-- The code below the end of an image that others continue is the code of that image. -/
theorem Image.codeAddresses_of_isPrefix {α : Type} {image image' : Image α}
    (h : image.toList <+: image'.toList) :
    image.codeAddresses = image'.codeAddresses.filter (· < image.size) := by
  obtain ⟨cells, hcells⟩ := h
  have hcode : image'.codeAddresses =
      image.codeAddresses ++ Layout.codeAddressesFrom image.size cells := by
    have happend := Layout.codeAddressesFrom_append 0 image.toList cells
    rw [Nat.zero_add, hcells, length_toList] at happend
    exact happend
  have hbelow : ∀ address ∈ image.codeAddresses, decide (address < image.size) = true := by
    intro address haddress
    obtain ⟨c, hc, -⟩ := mem_codeAddresses_iff.1 haddress
    rw [decide_eq_true_iff, ← length_toList]
    exact (List.getElem?_eq_some_iff.1 hc).1
  have habove : ∀ address ∈ Layout.codeAddressesFrom image.size cells,
      ¬ decide (address < image.size) = true := by
    intro address haddress
    obtain ⟨c, hc, rfl⟩ := List.mem_map.1 haddress
    have hle := List.le_snd_of_mem_zipIdx (List.mem_filter.1 hc).1
    simpa using hle
  rw [hcode, List.filter_append, List.filter_eq_self.2 hbelow, List.filter_eq_nil_iff.2 habove,
    List.append_nil]

/-- The entries of pieces lie between the start of the first and the end of the last. -/
theorem Layout.bounds_of_mem_entriesFrom {base : Nat} {ps : List Piece} {e : Entry}
    (h : e ∈ entriesFrom base (ps.map Piece.block)) :
    base ≤ e.offset ∧ e.offset ≤ base + span ps := by
  rw [entriesFrom_map_block] at h
  obtain ⟨x, hx, he⟩ := List.mem_flatMap.1 h
  obtain ⟨d, hd, rfl⟩ := List.mem_map.1 he
  have hbounds := bounds_of_mem_placeFrom hx
  have hoffset := (Piece.offset_of_mem_entries_block hd).1
  simp only [Entry.shift]
  omega

/-! ## Drafts -/

namespace Draft

/-- The second draft has the cells and the entries of the first at its start, and its other entries
lie between the ends of the two. -/
structure Extends (d d' : Draft) : Prop where
  image : d.image.toList <+: d'.image.toList
  map : d.map.toList <+: d'.map.toList
  offsets : ∀ e ∈ d'.map.toList.drop d.map.size, d.here ≤ e.offset ∧ e.offset ≤ d'.here

theorem Extends.here_le {d d' : Draft} (h : d.Extends d') : d.here ≤ d'.here := by
  rw [← length_image_toList, ← length_image_toList]
  exact h.image.length_le

theorem Extends.trans {d d₁ d₂ : Draft} (h : d.Extends d₁) (h' : d₁.Extends d₂) : d.Extends d₂ where
  image := h.image.trans h'.image
  map := h.map.trans h'.map
  offsets := by
    obtain ⟨es, hes⟩ := h.map
    obtain ⟨es', hes'⟩ := h'.map
    have hold : ∀ e ∈ es, d.here ≤ e.offset ∧ e.offset ≤ d₁.here := by
      have hoffsets := h.offsets
      rwa [← hes, List.drop_left' (Array.length_toList)] at hoffsets
    have hnew : ∀ e ∈ es', d₁.here ≤ e.offset ∧ e.offset ≤ d₂.here := by
      have hoffsets := h'.offsets
      rwa [← hes', List.drop_left' (Array.length_toList)] at hoffsets
    have hle := h.here_le
    have hle' := h'.here_le
    rw [← hes', ← hes, List.append_assoc, List.drop_left' (Array.length_toList)]
    intro e he
    rcases List.mem_append.1 he with he | he
    · have := hold e he
      omega
    · have := hnew e he
      omega

theorem Extends.of_lays {d d' : Draft} {ps : List Piece} (h : d.Lays ps d') : d.Extends d' where
  image := h.image ▸ List.prefix_append _ _
  map := h.map ▸ List.prefix_append _ _
  offsets := by
    rw [h.map, List.drop_left' (Array.length_toList), h.here_eq]
    intro e he
    exact Layout.bounds_of_mem_entriesFrom he

end Draft

/-! ## States -/

namespace State

/-- The second state knows what the first knows, and more only about what lies between the ends of
their images. -/
structure Extends (s s' : State) : Prop where
  draft : s.draft.Extends s'.draft
  warnings : s.warnings.toList <+: s'.warnings.toList
  lookup : ∀ name offset, s.labels.lookup name = some offset → s'.labels.lookup name = some offset
  offsets : ∀ name offset, s.labels.lookup name = none → s'.labels.lookup name = some offset →
    s.here ≤ offset ∧ offset ≤ s'.here

theorem Extends.refl (s : State) : s.Extends s where
  draft := .of_lays (.refl s.draft)
  warnings := List.prefix_rfl
  lookup := fun _ _ h => h
  offsets := fun name offset h h' => by rw [h] at h'; cases h'

theorem Extends.trans {s s₁ s₂ : State} (h : s.Extends s₁) (h' : s₁.Extends s₂) : s.Extends s₂ where
  draft := h.draft.trans h'.draft
  warnings := h.warnings.trans h'.warnings
  lookup := fun name offset hs => h'.lookup name offset (h.lookup name offset hs)
  offsets := by
    intro name offset hs hs₂
    have hle : s.here ≤ s₁.here := h.draft.here_le
    have hle' : s₁.here ≤ s₂.here := h'.draft.here_le
    cases hs₁ : s₁.labels.lookup name with
    | none =>
      have hnew := h'.offsets name offset hs₁ hs₂
      omega
    | some offset₁ =>
      have hold := h.offsets name offset₁ hs hs₁
      have hkept := h'.lookup name offset₁ hs₁
      rw [hs₂] at hkept
      cases hkept
      omega

theorem warnings_execute (s : State) (line : Line) (st : Statement) :
    s.warnings.toList <+: (s.execute line st).warnings.toList := by
  cases st with
  | label name =>
    simp only [execute, defineLabel]
    cases s.labels.find? name with
    | none => exact List.prefix_rfl
    | some first =>
      rw [Array.toList_push]
      exact List.prefix_append _ _
  | _ => exact List.prefix_rfl

/-- A statement only adds to what is known. A label is new at the address behind what waited. -/
theorem extends_execute {s : State} {run : Run} (h : s.draft.queue.Holds run) (line : Line)
    (st : Statement) : s.Extends (s.execute line st) := by
  obtain ⟨ps, run', -, hflush, hlays, -, -⟩ := Draft.exists_lays_carry h st
  rw [← draft_execute s line st] at hlays
  refine ⟨.of_lays hlays, s.warnings_execute line st, ?_, ?_⟩
  · intro name offset hname
    rw [lookup_execute, hname, Option.some_or]
  · intro name offset hnone hname
    rw [lookup_execute, hnone, Option.none_or] at hname
    split at hname
    · rename_i hlabel
      obtain rfl := Option.some.inj hname
      have hstart : s.draft.flush.here = s.here + Layout.span ps :=
        (hflush (by rw [hlabel]; rfl)).here_eq
      have hend : (s.execute line st).here = s.here + Layout.span (ps ++ Layout.ownPieces st) :=
        hlays.here_eq
      rw [Layout.span_append] at hend
      omega
    · cases hname

theorem exists_holds_run {s : State} {run : Run} (h : s.draft.queue.Holds run)
    (program : List (Line × Statement)) : ∃ run', (s.run program).draft.queue.Holds run' := by
  induction program generalizing s run with
  | nil => exact ⟨run, h⟩
  | cons p program ih =>
    obtain ⟨ps, run', -, -, -, hholds, -⟩ := Draft.exists_lays_carry h p.2
    rw [← draft_execute s p.1 p.2] at hholds
    exact ih hholds

/-- A program only adds to what is known. -/
theorem extends_run {s : State} {run : Run} (h : s.draft.queue.Holds run)
    (program : List (Line × Statement)) : s.Extends (s.run program) := by
  induction program generalizing s run with
  | nil => exact .refl s
  | cons p program ih =>
    obtain ⟨run', hholds⟩ := exists_holds_run h [p]
    exact (extends_execute h p.1 p.2).trans (ih hholds)

end State

/-! ## Sessions -/

namespace Session

/-- A line is read as the first pass reads it, and leaves the state as it was if that fails. -/
theorem run_readLine (line : Line) (s : State) :
    (readLine line).run.run s =
      match s.readLine line with
      | .ok s' => (.ok (), s')
      | .error e => (.error e, s) := by
  rw [readLine, State.readLine]
  cases Statement.parse line.text <;> rfl

/-- A line either is a statement, which is carried out, or is reported and nothing else is done. -/
theorem readLine_cases {line : Line} {s s' : State} {result : Except Error Unit}
    (h : (readLine line).run.run s = (result, s')) :
    (∃ st, Statement.parse line.text = .ok st ∧ result = .ok () ∧ s' = s.execute line st) ∨
      ∃ e, line.error? = some e ∧ result = .error e ∧ s' = s := by
  rw [run_readLine, State.readLine] at h
  rw [Line.error?]
  cases hparse : Statement.parse line.text with
  | ok st =>
    rw [hparse] at h
    cases h
    exact .inl ⟨st, rfl, rfl, rfl⟩
  | error cause =>
    rw [hparse] at h
    cases h
    exact .inr ⟨_, rfl, rfl, rfl⟩

end Session

/-- The lines that are statements, each with its statement. -/
def Source.statements (lines : List Line) : List (Line × Statement) :=
  lines.filterMap fun line => line.statement?.map fun st => (line, st)

theorem Source.statements_cons (line : Line) (lines : List Line) :
    statements (line :: lines) =
      match line.statement? with
      | some st => (line, st) :: statements lines
      | none => statements lines := by
  rw [statements, List.filterMap_cons]
  cases line.statement? <;> rfl

/-- The lines that are statements can be read. -/
theorem Source.read_filter (lines : List Line) :
    read (lines.filter (·.statement?.isSome)) = .ok (statements lines) := by
  induction lines with
  | nil => rfl
  | cons line lines ih =>
    rw [List.filter_cons, statements_cons]
    cases hline : line.statement? with
    | none => exact ih
    | some st => exact read_cons (Line.statement?_eq_some_iff.1 hline) ih

namespace State

/-- The state after some lines, those included that are no statements. -/
def after (s : State) (lines : List Line) : State :=
  lines.foldl (fun s line => ((Session.readLine line).run.run s).2) s

/-- Lines that are no statements leave no trace. -/
theorem after_eq_run (s : State) (lines : List Line) :
    s.after lines = s.run (Source.statements lines) := by
  induction lines generalizing s with
  | nil => rfl
  | cons line lines ih =>
    rw [after, List.foldl_cons, ← after, Session.run_readLine, readLine, ih,
      Source.statements_cons, Line.statement?]
    cases Statement.parse line.text <;> rfl

end State

/-- The first pass only adds, and a line that fails adds nothing. After any lines, a line that fails
leaves the state as it was. One that does not fail leaves in place what there is: cells, code below
the end of the image, entries of the map, warnings and labels, and what is new lies between the old
end and the new one. So ending the first pass after any lines gives what assembling gives for those
of them that are statements. -/
theorem reading_only_adds (lines : List Line) (line : Line) :
    let s := State.initial.after lines
    (∀ e s', (Session.readLine line).run.run s = (.error e, s') →
      line.error? = some e ∧ s' = s) ∧
    (∀ s', (Session.readLine line).run.run s = (.ok (), s') →
      s.Extends s' ∧ s.draft.image.codeAddresses =
        s'.draft.image.codeAddresses.filter (· < s.here)) ∧
    s.finish.mapError Error.ofCause = assemble (lines.filter (·.statement?.isSome)) := by
  intro s
  have hs : s = State.initial.run (Source.statements lines) := State.after_eq_run _ lines
  refine ⟨fun e s' h => ?_, fun s' h => ?_, ?_⟩
  · rcases Session.readLine_cases h with ⟨st, -, hresult, -⟩ | ⟨e', herror, hresult, hsame⟩
    · cases hresult
    · cases hresult
      exact ⟨herror, hsame⟩
  · rcases Session.readLine_cases h with ⟨st, -, -, rfl⟩ | ⟨e, -, hresult, -⟩
    · obtain ⟨run, hholds⟩ := State.exists_holds_run State.holds_queue_initial
        (Source.statements lines)
      have hextends := State.extends_execute (hs ▸ hholds) line st
      exact ⟨hextends, Image.codeAddresses_of_isPrefix hextends.draft.image⟩
    · cases hresult
  · rw [hs, assemble_of_read (Source.read_filter lines)]

/-- A label and a line that fails, both read while two instructions and a literal wait and after
other lines have failed. -/
theorem reading_only_adds_while_waiting :
    let lines : List Line := [⟨1, ":main"⟩, ⟨2, "lit &x"⟩, ⟨3, "bogus"⟩, ⟨4, "dup"⟩,
      ⟨5, ".allocate -1"⟩]
    let s := State.initial.after lines
    s.draft.queue = ⟨.packed, [.lit, .dup], [.token "&x"]⟩ ∧
      (∃ s', (Session.readLine ⟨6, ":x"⟩).run.run s = (.ok (), s') ∧ s.Extends s' ∧
        s.here = 2 ∧ s'.here = 4 ∧ s'.labels.lookup "x" = some 4) ∧
      (∃ e, (Session.readLine ⟨6, ".data"⟩).run.run s = (.error e, s) ∧
        Line.error? ⟨6, ".data"⟩ = some e) ∧
      s.finish.mapError Error.ofCause = assemble [⟨1, ":main"⟩, ⟨2, "lit &x"⟩, ⟨4, "dup"⟩] := by
  intro lines s
  obtain ⟨-, hadds, hfinish⟩ := reading_only_adds lines ⟨6, ":x"⟩
  obtain ⟨hfails, -, -⟩ := reading_only_adds lines ⟨6, ".data"⟩
  exact ⟨rfl, ⟨_, rfl, (hadds _ rfl).1, rfl, rfl, rfl⟩, ⟨_, rfl, (hfails _ _ rfl).1⟩, hfinish⟩

end PackedStack
