import PackedStack.Proofs.Failure
import PackedStack.Symbol.Resolution

/-!
# What resolution gives and why it fails

An operand resolves like the text it was read from and like the text that the map shows for it
(`Operand.resolve_parse`, `Labels.resolve_text`). An image fails as its first failing cell does
(`Image.failure?_resolve`) and otherwise resolves to the values of its cells
(`Image.toList_of_resolve`).
-/

namespace PackedStack

/-! ## Tables -/

/-- A table finds under new names what it found, changed with the table. -/
theorem lookup_map_of_injective {β γ : Type} {r : String → String} (hinj : Function.Injective r)
    (g : β → γ) (entries : List (String × β)) (name : String) :
    (entries.map (Prod.map r g)).lookup (r name) = (entries.lookup name).map g := by
  induction entries with
  | nil => rfl
  | cons e entries ih =>
    obtain ⟨other, value⟩ := e
    rw [List.map_cons, Prod.map_apply, List.lookup_cons, List.lookup_cons, ih]
    by_cases h : name = other
    · simp [h]
    · have hne : r name ≠ r other := fun heq => h (hinj heq)
      simp [beq_false_of_ne h, beq_false_of_ne hne]

/-! ## Tokens and operands -/

/-- A token is no number if a mark is in front of it. -/
theorem Word.parse?_of_marked {text : String} (h : text.toList.head? = some '&') :
    Word.parse? text = none := by
  obtain ⟨cs, hcs⟩ := List.head?_eq_some_iff.1 h
  have hnat : Numeral.natural? 10 ('&' :: cs) = none :=
    Numeral.natural?_cons_of_digit?_eq_none (by decide) cs
  rw [Word.parse?, hcs]
  simp [Numeral.integer?, Numeral.magnitude?, hnat]

/-- A mark is taken off the name behind it. -/
theorem Labels.eq_mark_append_unmarked {text : String} (h : text.toList.head? = some '&') :
    text = "&" ++ unmarked text := by
  obtain ⟨cs, hcs⟩ := List.head?_eq_some_iff.1 h
  rw [← String.toList_inj, hcs, unmarked_of_toList_eq hcs]
  simp

theorem Labels.head?_mark (name : String) : ("&" ++ name).toList.head? = some '&' := by
  rw [String.toList_append]
  rfl

theorem Labels.unmarked_mark (name : String) : unmarked ("&" ++ name) = name := by
  have hmark : ("&" ++ name).toList = '&' :: name.toList := String.toList_append
  rw [unmarked_of_toList_eq hmark, String.ofList_toList]

theorem Labels.unmarked_of_not_marked {text : String} (h : text.toList.head? ≠ some '&') :
    unmarked text = text := by
  rw [unmarked]
  split
  · rename_i hcs
    exact absurd (hcs ▸ rfl) h
  · rfl

/-- What a token stands for: the number it is, or the address of the label it names. -/
theorem Labels.resolve_cases {labels : Labels} {token : String} {w : Word}
    (h : labels.resolve token = .ok w) :
    Word.parse? token = some w ∨ Word.parse? token = none ∧
      ∃ offset, labels.lookup (unmarked token) = some offset ∧ w = Word.ofAddress offset := by
  cases hparse : Word.parse? token with
  | some w' =>
    rw [resolve_of_parse?_eq_some labels hparse] at h
    cases h
    exact .inl rfl
  | none =>
    cases hlookup : labels.lookup (unmarked token) with
    | none =>
      rw [resolve_of_lookup_eq_none labels hparse hlookup] at h
      cases h
    | some offset =>
      rw [resolve_of_lookup_eq_some labels hparse hlookup] at h
      cases h
      exact .inr ⟨rfl, offset, rfl, rfl⟩

theorem Labels.resolve_of_marked {labels : Labels} {token : String} {w : Word}
    (h : labels.resolve token = .ok w) (hmarked : token.toList.head? = some '&') :
    ∃ offset, labels.lookup (unmarked token) = some offset ∧ w = Word.ofAddress offset := by
  rcases resolve_cases h with hnumber | ⟨-, hlabel⟩
  · rw [Word.parse?_of_marked hmarked] at hnumber
    cases hnumber
  · exact hlabel

theorem Labels.failure?_resolve (labels : Labels) (token : String) :
    failure? (labels.resolve token) =
      if (Word.parse? token).isNone ∧ (labels.lookup (unmarked token)).isNone then
        some (.undefinedLabel (unmarked token))
      else none := by
  cases hparse : Word.parse? token with
  | some w => simp [resolve_of_parse?_eq_some labels hparse, failure?]
  | none =>
    cases hlookup : labels.lookup (unmarked token) with
    | none => simp [resolve_of_lookup_eq_none labels hparse hlookup, failure?]
    | some offset => simp [resolve_of_lookup_eq_some labels hparse hlookup, failure?]

theorem Labels.resolve_text (labels : Labels) (o : Operand) :
    labels.resolve o.text = o.resolve labels := by
  cases o with
  | value w => exact resolve_of_parse?_eq_some labels (Word.parse?_toDecimal w)
  | token t => rfl

namespace Operand

theorem resolve_parse (labels : Labels) (text : String) :
    (Operand.parse text).resolve labels = labels.resolve text := by
  rw [Operand.parse]
  cases hparse : Word.parse? text with
  | some w => exact (Labels.resolve_of_parse?_eq_some labels hparse).symm
  | none => rfl

def token? : Operand → Option String
  | value _ => none
  | token t => some t

theorem token?_eq_some_iff {o : Operand} {t : String} : o.token? = some t ↔ o = .token t := by
  cases o <;> simp [token?]

theorem eq_of_parse_eq_token {text token : String} (h : Operand.parse text = .token token) :
    token = text := by
  rw [Operand.parse] at h
  split at h
  · cases h
  · cases h; rfl

/-- Only a token can look marked. -/
theorem eq_token_of_marked {o : Operand} (h : o.text.toList.head? = some '&') :
    o = .token o.text := by
  cases o with
  | value w => exact absurd (Word.parse?_of_marked h) (by simp [Operand.text])
  | token t => rfl

/-- The word that an operand stands for, zero if it stands for none. -/
def valueIn (labels : Labels) (o : Operand) : Word :=
  match o.resolve labels with
  | .ok w => w
  | .error _ => 0

theorem valueIn_of_resolve {labels : Labels} {o : Operand} {w : Word}
    (h : o.resolve labels = .ok w) : o.valueIn labels = w := by
  rw [valueIn, h]

end Operand

/-! ## Images -/

def Cell.valueIn (labels : Labels) (c : Cell Operand) : Cell Word :=
  ⟨c.content.valueIn labels, c.isCode⟩

theorem Cell.failure?_resolve (labels : Labels) (c : Cell Operand) :
    failure? (c.resolve labels) = failure? (c.content.resolve labels) :=
  failure?_map _ _

theorem Cell.eq_valueIn_of_resolve {labels : Labels} {c : Cell Operand} {c' : Cell Word}
    (h : c.resolve labels = .ok c') :
    c.content.resolve labels = .ok (c.content.valueIn labels) ∧ c' = c.valueIn labels := by
  obtain ⟨w, hw, rfl⟩ := map_eq_ok_iff.1 h
  rw [Cell.valueIn, Operand.valueIn_of_resolve hw]
  exact ⟨hw, rfl⟩

theorem Image.failure?_resolve (labels : Labels) (image : Image Operand) :
    failure? (image.resolve labels) =
      image.toList.findSome? fun c => failure? (c.content.resolve labels) := by
  rw [Image.resolve, failure?_map, failure?_mapM]
  simp only [Cell.failure?_resolve]

/-- An image that resolves has the values of its cells, and every cell has one. -/
theorem Image.toList_of_resolve {labels : Labels} {image : Image Operand} {image' : Image Word}
    (h : image.resolve labels = .ok image') :
    image'.toList = image.toList.map (Cell.valueIn labels) ∧
      ∀ c ∈ image.toList, c.content.resolve labels = .ok (c.content.valueIn labels) := by
  obtain ⟨cells, hcells, rfl⟩ := map_eq_ok_iff.1 h
  rw [mapM_eq_ok_iff] at hcells
  have hvalue : ∀ c ∈ image.toList, c.resolve labels = .ok (c.valueIn labels) ∧
      c.content.resolve labels = .ok (c.content.valueIn labels) := by
    intro c hc
    have hmem : c.resolve labels ∈ cells.map .ok := hcells ▸ List.mem_map_of_mem hc
    obtain ⟨c', -, hc'⟩ := List.mem_map.1 hmem
    obtain ⟨hcontent, rfl⟩ := Cell.eq_valueIn_of_resolve hc'.symm
    exact ⟨hc'.symm, hcontent⟩
  refine ⟨?_, fun c hc => (hvalue c hc).2⟩
  have hok : cells.map Except.ok = (image.toList.map (Cell.valueIn labels)).map
      (Except.ok : Cell Word → Except Cause (Cell Word)) := by
    rw [← hcells, List.map_map]
    exact List.map_congr_left fun c hc => (hvalue c hc).1
  exact (List.map_inj_right fun _ _ => Except.ok.inj).1 hok

/-! ## Entries of the map -/

/-- Only a marked literal changes. -/
theorem Entry.resolve_cases {labels : Labels} {e e' : Entry} (h : e.resolve labels = .ok e') :
    (e' = e ∧ (e.kind = .literal → e.value.toList.head? ≠ some '&')) ∨
      (e.kind = .literal ∧ e.value.toList.head? = some '&' ∧
        ∃ w, labels.resolve e.value = .ok w ∧ e' = ⟨.pointer, w.toDecimal, e.offset⟩) := by
  rw [Entry.resolve] at h
  split at h
  · rename_i hmarked
    rw [isMarked, Bool.and_eq_true, beq_iff_eq, beq_iff_eq] at hmarked
    obtain ⟨w, hw, rfl⟩ := map_eq_ok_iff.1 h
    exact .inr ⟨hmarked.1, hmarked.2, w, hw, rfl⟩
  · rename_i hmarked
    rw [isMarked, Bool.and_eq_true, beq_iff_eq, beq_iff_eq, not_and] at hmarked
    cases h
    exact .inl ⟨rfl, hmarked⟩

/-- Resolving entries one after the other is resolving them all, up to what is kept of a failure. -/
theorem Entry.mapM_resolve (labels : Labels) (es : List Entry) :
    es.mapM (Entry.resolve labels) =
      match Entry.resolveAll labels es with
      | (_, some cause) => .error cause
      | (es', none) => .ok es' := by
  induction es with
  | nil => rfl
  | cons e es ih =>
    rw [List.mapM_cons, ih, Entry.resolveAll]
    cases e.resolve labels with
    | error cause => rfl
    | ok e' =>
      obtain ⟨es', failure⟩ := Entry.resolveAll labels es
      cases failure <;> rfl

end PackedStack
