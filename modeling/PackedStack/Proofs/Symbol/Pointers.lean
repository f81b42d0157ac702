import Mathlib.Data.List.Forall2
import PackedStack.Proofs.Symbol.References

/-!
# Pointers in the map

Resolving a map goes through its entries in order. One step turns a literal that refers to a label
into a pointer and leaves any other entry as it is, or it fails because there is no such label
(`Entry.resolve_step`). A run is steps up to the first that fails, and nothing behind it is touched
(`Entry.exists_split_resolveAll`). What a step makes of an entry refers to nothing, so that a second
step and a second run change nothing (`Entry.resolveAll_resolveAll`).
-/

namespace PackedStack

namespace Entry

/-- The entry is a literal with a name behind a mark. -/
def RefersTo (e : Entry) (name : String) : Prop := e.kind = .literal ∧ e.value = "&" ++ name

/-- The entry refers to a label that is not defined. -/
def Dangles (labels : Labels) (e : Entry) : Prop :=
  ∃ name, e.RefersTo name ∧ labels.lookup name = none

/-- What an entry is resolved to: a pointer to the label it refers to, or else itself. -/
inductive Resolved (labels : Labels) (e : Entry) : Entry → Prop
  | pointer {name : String} {offset : Nat} (h : e.RefersTo name)
      (hoffset : labels.lookup name = some offset) :
    Resolved labels e ⟨.pointer, (Word.ofAddress offset).toDecimal, e.offset⟩
  | kept (h : ∀ name, ¬ e.RefersTo name) : Resolved labels e e

/-- An entry at the same place, changed only if it refers to a label. -/
def KeepsPlace (e e' : Entry) : Prop :=
  e'.offset = e.offset ∧ ((∀ name, ¬ e.RefersTo name) → e' = e)

variable {labels : Labels} {e e' : Entry}

/-! ## One entry -/

theorem RefersTo.name_eq {name name' : String} (h : e.RefersTo name) (h' : e.RefersTo name') :
    name = name' := by
  rw [← Labels.unmarked_mark name, ← Labels.unmarked_mark name', ← h.2, ← h'.2]

theorem isMarked_iff : e.isMarked ↔ ∃ name, e.RefersTo name := by
  rw [isMarked, Bool.and_eq_true, beq_iff_eq, beq_iff_eq]
  constructor
  · rintro ⟨hkind, hmark⟩
    exact ⟨_, hkind, Labels.eq_mark_append_unmarked hmark⟩
  · rintro ⟨name, hkind, hvalue⟩
    exact ⟨hkind, by rw [hvalue, Labels.head?_mark]⟩

theorem resolve_of_refersTo {name : String} (h : e.RefersTo name) :
    e.resolve labels =
      (labels.resolveName name).map fun w => ⟨.pointer, w.toDecimal, e.offset⟩ := by
  rw [Entry.resolve, if_pos (isMarked_iff.2 ⟨name, h⟩), h.2, Labels.resolve_mark]

theorem resolve_of_not_refersTo (h : ∀ name, ¬ e.RefersTo name) : e.resolve labels = .ok e := by
  rw [Entry.resolve, if_neg]
  rw [isMarked_iff]
  rintro ⟨name, hname⟩
  exact h name hname

/-- One step: an entry is resolved, or else refers to a label that is not defined. -/
theorem resolve_step (labels : Labels) (e : Entry) :
    (∃ e', e.resolve labels = .ok e' ∧ Resolved labels e e') ∨
      ∃ name, e.resolve labels = .error (.undefinedLabel name) ∧ e.RefersTo name ∧
        labels.lookup name = none := by
  by_cases h : ∃ name, e.RefersTo name
  · obtain ⟨name, hname⟩ := h
    rw [resolve_of_refersTo hname, Labels.resolveName]
    cases hlookup : labels.lookup name with
    | some offset => exact .inl ⟨_, rfl, .pointer hname hlookup⟩
    | none => exact .inr ⟨name, rfl, hname, hlookup⟩
  · have hnone : ∀ name, ¬ e.RefersTo name := fun name hname => h ⟨name, hname⟩
    exact .inl ⟨e, resolve_of_not_refersTo hnone, .kept hnone⟩

namespace Resolved

theorem not_dangles (h : Resolved labels e e') : ¬ e.Dangles labels := by
  rintro ⟨name, hname, hlookup⟩
  cases h with
  | pointer hname' hoffset =>
    rw [hname'.name_eq hname, hlookup] at hoffset
    cases hoffset
  | kept hnone => exact hnone name hname

theorem keepsPlace (h : Resolved labels e e') : e.KeepsPlace e' := by
  cases h with
  | pointer hname => exact ⟨rfl, fun hnone => absurd hname (hnone _)⟩
  | kept => exact ⟨rfl, fun _ => rfl⟩

/-- What was resolved refers to nothing. -/
theorem resolve_eq (h : Resolved labels e e') : e'.resolve labels = .ok e' := by
  refine resolve_of_not_refersTo fun name hname => ?_
  cases h with
  | pointer => cases hname.1
  | kept hnone => exact hnone name hname

end Resolved

theorem KeepsPlace.refl (e : Entry) : e.KeepsPlace e := ⟨rfl, fun _ => rfl⟩

/-! ## All entries -/

theorem resolveAll_cons_of_ok {es : List Entry} (h : e.resolve labels = .ok e') :
    resolveAll labels (e :: es) =
      (e' :: (resolveAll labels es).1, (resolveAll labels es).2) := by
  rw [resolveAll, h]

theorem resolveAll_cons_of_error {es : List Entry} {cause : Cause}
    (h : e.resolve labels = .error cause) :
    resolveAll labels (e :: es) = (e :: es, some cause) := by
  rw [resolveAll, h]

/-- A run resolves entries up to the first that refers to a label that is not defined. -/
theorem exists_split_resolveAll (labels : Labels) (entries : List Entry) :
    ∃ before before' after, entries = before ++ after ∧
      (resolveAll labels entries).1 = before' ++ after ∧
      List.Forall₂ (Resolved labels) before before' ∧
      (after = [] ∧ (resolveAll labels entries).2 = none ∨
        ∃ e rest name, after = e :: rest ∧ e.RefersTo name ∧ labels.lookup name = none ∧
          (resolveAll labels entries).2 = some (.undefinedLabel name)) := by
  induction entries with
  | nil => exact ⟨[], [], [], rfl, rfl, .nil, .inl ⟨rfl, rfl⟩⟩
  | cons e entries ih =>
    rcases resolve_step labels e with ⟨e', hresolve, hresolved⟩ | ⟨name, hresolve, hname, hlookup⟩
    · obtain ⟨before, before', after, rfl, hresult, hbefore, hfailure⟩ := ih
      rw [resolveAll_cons_of_ok hresolve]
      refine ⟨e :: before, e' :: before', after, rfl, ?_, .cons hresolved hbefore, hfailure⟩
      rw [hresult]
      rfl
    · rw [resolveAll_cons_of_error hresolve]
      refine ⟨[], [], e :: entries, rfl, rfl, .nil, ?_⟩
      exact .inr ⟨e, entries, name, rfl, hname, hlookup, rfl⟩

theorem resolveAll_resolveAll (labels : Labels) (entries : List Entry) :
    resolveAll labels (resolveAll labels entries).1 = resolveAll labels entries := by
  induction entries with
  | nil => rfl
  | cons e entries ih =>
    rcases resolve_step labels e with ⟨e', hresolve, hresolved⟩ | ⟨name, hresolve, -⟩
    · rw [resolveAll_cons_of_ok hresolve, resolveAll_cons_of_ok hresolved.resolve_eq, ih]
    · rw [resolveAll_cons_of_error hresolve, resolveAll_cons_of_error hresolve]

theorem forall₂_keepsPlace_resolveAll (labels : Labels) (entries : List Entry) :
    List.Forall₂ KeepsPlace entries (resolveAll labels entries).1 := by
  induction entries with
  | nil => exact .nil
  | cons e entries ih =>
    rcases resolve_step labels e with ⟨e', hresolve, hresolved⟩ | ⟨name, hresolve, -⟩
    · rw [resolveAll_cons_of_ok hresolve]
      exact .cons hresolved.keepsPlace ih
    · rw [resolveAll_cons_of_error hresolve]
      exact List.forall₂_same.2 fun e _ => KeepsPlace.refl e

theorem not_dangles_of_forall₂ {before before' : List Entry}
    (h : List.Forall₂ (Resolved labels) before before') : ∀ e ∈ before, ¬ e.Dangles labels := by
  induction h with
  | nil => exact fun e he => absurd he List.not_mem_nil
  | cons hresolved _ ih => exact List.forall_mem_cons.2 ⟨hresolved.not_dangles, ih⟩

end Entry

/-- Resolving a map fails exactly if an entry refers to a label that is not defined, and tells the
name in the first such entry. Whether or not it fails, all entries stay in their order and at their
offsets, and only those that refer to labels change. The entries before the first failing one, or
all of them, are resolved, and the failing one and all behind it are as they were. Resolving the
result again gives the same and changes nothing. -/
theorem map_resolved_up_to_failure (labels : Labels) (entries : List Entry) :
    let result := Entry.resolveAll labels entries
    (result.2.isSome ↔ ∃ e ∈ entries, e.Dangles labels) ∧
      List.Forall₂ Entry.KeepsPlace entries result.1 ∧
      (∃ before before' after, entries = before ++ after ∧ result.1 = before' ++ after ∧
        List.Forall₂ (Entry.Resolved labels) before before' ∧
        (∀ e ∈ before, ¬ e.Dangles labels) ∧
        (after = [] ∧ result.2 = none ∨
          ∃ e rest name, after = e :: rest ∧ e.RefersTo name ∧ labels.lookup name = none ∧
            result.2 = some (.undefinedLabel name))) ∧
      Entry.resolveAll labels result.1 = result := by
  intro result
  obtain ⟨before, before', after, hentries, hresult, hbefore, hstop⟩ :=
    Entry.exists_split_resolveAll labels entries
  have hresolved := Entry.not_dangles_of_forall₂ hbefore
  refine ⟨?_, Entry.forall₂_keepsPlace_resolveAll labels entries,
    ⟨before, before', after, hentries, hresult, hbefore, hresolved, hstop⟩,
    Entry.resolveAll_resolveAll labels entries⟩
  rcases hstop with ⟨rfl, hnone⟩ | ⟨e, rest, name, rfl, hname, hlookup, hsome⟩
  · rw [List.append_nil] at hentries
    rw [hnone, hentries]
    simpa using hresolved
  · have hmem : e ∈ entries := by simp [hentries]
    rw [hsome]
    exact ⟨fun _ => ⟨e, hmem, name, hname, hlookup⟩, fun _ => rfl⟩

/-- A map that is left half resolved, with an address that does not fit a word. -/
theorem map_resolved_up_to_failure_half :
    let labels := Labels.empty.define "a" ⟨0x1fffffffe, 1, ":a"⟩
    let entries : List Entry := [⟨.literal, "&a", 1⟩, ⟨.literal, "&b", 3⟩, ⟨.literal, "&a", 4⟩]
    let half : List Entry := [⟨.pointer, "-2", 1⟩, ⟨.literal, "&b", 3⟩, ⟨.literal, "&a", 4⟩]
    Entry.resolveAll labels entries = (half, some (.undefinedLabel "b")) ∧
      (∃ e ∈ entries, e.Dangles labels) ∧
      Entry.resolveAll labels half = (half, some (.undefinedLabel "b")) := by
  intro labels entries half
  have hresult : Entry.resolveAll labels entries = (half, some (.undefinedLabel "b")) := by decide
  obtain ⟨hfails, -, -, hagain⟩ := map_resolved_up_to_failure labels entries
  rw [hresult] at hfails hagain
  exact ⟨hresult, hfails.1 rfl, hagain⟩

end PackedStack
