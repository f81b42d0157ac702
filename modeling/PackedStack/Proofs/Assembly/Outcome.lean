import PackedStack.Proofs.Assembly.SecondPass

/-!
# The outcome of assembling

What stands against a source can be told from its lines alone (`Source.error?`): a line that is no
statement, a missing `main`, or an operand that is neither a number nor the name of a label. The
second pass looks for the last kind in the order of addresses, at a time when literals have been
held back by the queue, and still finds the first in the order of the source
(`State.failure?_resolve_image`). The map brings up nothing new (`Layout.failure?_resolve_entries`).
Together this is what assembling gives (`failure?_assemble`).
-/

namespace PackedStack

namespace Source

/-- Whether the text of an operand is a number, or names a label of the source. -/
def isKnown (lines : List Line) (text : String) : Bool :=
  (Word.parse? text).isSome || (labelNames lines).contains (Labels.unmarked text)

/-- What stands against assembling a source: the first line that is no statement; if there is none,
that `main` is no label; or else the first operand that means nothing. -/
def error? (lines : List Line) : Option Error :=
  match lines.findSome? (·.error?) with
  | some e => some e
  | none =>
    if State.entryLabel ∈ labelNames lines then
      ((operandTexts lines).find? fun text => !isKnown lines text).map fun text =>
        .ofCause (.undefinedLabel (Labels.unmarked text))
    else some (.ofCause .entryUndefined)

end Source

/-! ## Labels -/

/-- The labels after a program are those before it and those that it defines. -/
theorem State.isSome_lookup_run (s : State) (program : List (Line × Statement)) (name : String) :
    ((s.run program).labels.lookup name).isSome ↔
      (s.labels.lookup name).isSome ∨ name ∈ (program.map (·.2)).filterMap (·.labelName?) := by
  induction program generalizing s with
  | nil => simp [State.run]
  | cons p program ih =>
    have hlabel : p.2 = .label name ↔ p.2.labelName? = some name :=
      Statement.labelName?_eq_some_iff.symm
    refine (ih (s.execute p.1 p.2)).trans ?_
    rw [lookup_execute, Option.isSome_or, Bool.or_eq_true, or_assoc, List.map_cons]
    refine or_congr_right ?_
    simp only [List.mem_filterMap, List.mem_cons, exists_eq_or_imp, hlabel]
    refine or_congr_left ?_
    split <;> simp_all

/-! ## The image -/

/-- The image of a program fails as the first failing operand in the order of the program. -/
theorem State.failure?_resolve_image (program : List (Line × Statement)) {labels : Labels}
    {offset : Nat} (h : labels.lookup entryLabel = some offset) :
    failure? ((initial.run program).draft.flush.image.resolve labels) =
      ((program.map (·.2)).flatMap (·.operands)).findSome? fun o =>
        failure? (o.resolve labels) := by
  have hentry : failure? ((Operand.token ("&" ++ entryLabel)).resolve labels) = none := by
    rw [resolve_entry h]
    rfl
  rw [Image.failure?_resolve, toList_image_flush_run, ← List.head?_filterMap,
    Layout.filterMap_failure?_cells, List.head?_filterMap, startup, List.flatMap_append]
  exact List.findSome?_cons_of_isNone (Option.isNone_iff_eq_none.2 hentry)

/-! ## The map -/

/-- Where every cell of a layout resolves, so does every entry of its map. -/
theorem Layout.failure?_resolve_entries {program : List Statement} {labels : Labels}
    (h : ∀ c ∈ cells (blocks program), failure? (c.content.resolve labels) = none) :
    failure? ((entriesFrom 0 (blocks program)).mapM (Entry.resolve labels)) = none := by
  rw [failure?_mapM, List.findSome?_eq_none_iff]
  intro e he
  rw [Entry.resolve]
  split
  · rename_i hmarked
    rw [Entry.isMarked, Bool.and_eq_true, beq_iff_eq] at hmarked
    obtain ⟨o, ho, hvalue⟩ := (literal_of_mem_entriesFrom he).2 hmarked.1
    rw [failure?_map, hvalue, Labels.resolve_text]
    exact h _ (List.mem_of_getElem? ho)
  · rfl

/-- Once the image of a program resolves, so does its map. -/
theorem State.failure?_resolve_map {program : List (Line × Statement)} {labels : Labels}
    {image : Image Word} (h : (initial.run program).draft.flush.image.resolve labels = .ok image) :
    failure? ((initial.run program).draft.flush.map.toList.mapM (Entry.resolve labels)) = none := by
  have hcells := (Image.toList_of_resolve h).2
  rw [toList_image_flush_run] at hcells
  rw [toList_map_flush_run]
  refine Layout.failure?_resolve_entries fun c hc => ?_
  rw [hcells c hc]
  rfl

/-! ## Both passes -/

/-- The second pass over a program fails without `main`, and otherwise as the first failing operand
does. -/
theorem State.failure?_finish_run (program : List (Line × Statement)) :
    failure? (initial.run program).finish =
      if ((initial.run program).labels.lookup entryLabel).isSome then
        ((program.map (·.2)).flatMap (·.operands)).findSome? fun o =>
          failure? (o.resolve (initial.run program).labels)
      else some .entryUndefined := by
  rw [finish_eq (getElem?_entry_run program)]
  cases hmain : (initial.run program).labels.lookup entryLabel with
  | none => rfl
  | some offset =>
    rw [Option.isSome_some, if_pos rfl, ← failure?_resolve_image program hmain]
    cases himage : (initial.run program).draft.flush.image.resolve (initial.run program).labels with
    | error cause => rfl
    | ok image =>
      obtain ⟨map, hmap⟩ := failure?_eq_none_iff.1 (failure?_resolve_map himage)
      rw [hmap]
      rfl

namespace Source

section

variable {program : List (Line × Statement)}

/-- The labels of a whole source are the names that its lines define. -/
theorem isSome_lookup_run (h : ∀ p ∈ program, Statement.parse p.1.text = .ok p.2) (name : String) :
    ((State.initial.run program).labels.lookup name).isSome ↔
      name ∈ labelNames (program.map (·.1)) := by
  rw [State.isSome_lookup_run, labelNames_of_parse h]
  simp [State.initial, Labels.lookup]

theorem failure?_resolve_text (h : ∀ p ∈ program, Statement.parse p.1.text = .ok p.2)
    (text : String) :
    failure? ((State.initial.run program).labels.resolve text) =
      if isKnown (program.map (·.1)) text then none
      else some (.undefinedLabel (Labels.unmarked text)) := by
  have hlookup := isSome_lookup_run h (Labels.unmarked text)
  rw [Labels.failure?_resolve, isKnown]
  cases Word.parse? text <;>
    cases hname : (State.initial.run program).labels.lookup (Labels.unmarked text) <;>
    simp_all

/-- The first operand that does not resolve is the first that is not known. -/
theorem findSome?_failure?_operands (h : ∀ p ∈ program, Statement.parse p.1.text = .ok p.2) :
    ((program.map (·.2)).flatMap (·.operands)).findSome?
        (fun o => failure? (o.resolve (State.initial.run program).labels)) =
      ((operandTexts (program.map (·.1))).find? fun text =>
        !isKnown (program.map (·.1)) text).map fun text =>
          .undefinedLabel (Labels.unmarked text) := by
  rw [← map_parse_operandTexts h, List.findSome?_map, ← List.findSome?_guard, List.map_findSome?]
  congr 1
  funext text
  rw [Function.comp, Function.comp, Operand.resolve_parse, failure?_resolve_text h]
  cases hknown : isKnown (program.map (·.1)) text <;> simp [Option.guard, hknown]

end

end Source

end PackedStack
