/-!
# Computations that may fail

A computation over a list fails as it does at the first element that fails (`failure?_mapM`), and
otherwise gives the results of the elements in order (`mapM_eq_ok_iff`).
-/

namespace PackedStack

variable {ε α β : Type}

/-- Why a computation failed, if it did. -/
def failure? : Except ε α → Option ε
  | .ok _ => none
  | .error e => some e

theorem failure?_eq_none_iff {x : Except ε α} : failure? x = none ↔ ∃ a, x = .ok a := by
  cases x <;> simp [failure?]

@[simp] theorem failure?_map (f : α → β) (x : Except ε α) : failure? (x.map f) = failure? x := by
  cases x <;> rfl

theorem failure?_mapError {δ : Type} (f : ε → δ) (x : Except ε α) :
    failure? (x.mapError f) = (failure? x).map f := by
  cases x <;> rfl

theorem mapError_eq_ok_iff {δ : Type} {f : ε → δ} {x : Except ε α} {a : α} :
    x.mapError f = .ok a ↔ x = .ok a := by
  cases x with
  | error e => constructor <;> intro h <;> cases h
  | ok a' => constructor <;> intro h <;> cases h <;> rfl

/-- A computation with its result and its error changed. -/
def mapBoth {δ : Type} (f : α → β) (g : ε → δ) : Except ε α → Except δ β
  | .ok a => .ok (f a)
  | .error e => .error (g e)

theorem failure?_mapBoth {δ : Type} (f : α → β) (g : ε → δ) (x : Except ε α) :
    failure? (mapBoth f g x) = (failure? x).map g := by
  cases x <;> rfl

theorem map_eq_ok_iff {f : α → β} {x : Except ε α} {b : β} :
    x.map f = .ok b ↔ ∃ a, x = .ok a ∧ f a = b := by
  cases x <;> simp [Except.map]

theorem bind_eq_ok_iff {x : Except ε α} {f : α → Except ε β} {b : β} :
    x >>= f = .ok b ↔ ∃ a, x = .ok a ∧ f a = .ok b := by
  cases x <;> simp [bind, Except.bind]

theorem failure?_mapM (f : α → Except ε β) (xs : List α) :
    failure? (xs.mapM f) = xs.findSome? fun x => failure? (f x) := by
  induction xs with
  | nil => rfl
  | cons x xs ih =>
    rw [List.mapM_cons, List.findSome?_cons, ← ih]
    cases f x with
    | error e => rfl
    | ok y => cases xs.mapM f <;> rfl

theorem mapM_eq_ok_iff {f : α → Except ε β} {xs : List α} {ys : List β} :
    xs.mapM f = .ok ys ↔ xs.map f = ys.map .ok := by
  induction xs generalizing ys with
  | nil => cases ys <;> simp [pure, Except.pure]
  | cons x xs ih =>
    rw [List.mapM_cons]
    cases ys with
    | nil => cases f x <;> cases xs.mapM f <;> simp [bind, Except.bind, pure, Except.pure]
    | cons y ys =>
      rw [List.map_cons, List.map_cons, List.cons.injEq, ← ih]
      cases f x <;> cases xs.mapM f <;> simp [bind, Except.bind, pure, Except.pure]

/-- The same for computations that do not tell why they failed. -/
theorem mapM_eq_some_iff {f : α → Option β} {xs : List α} {ys : List β} :
    xs.mapM f = some ys ↔ xs.map f = ys.map some := by
  induction xs generalizing ys with
  | nil => cases ys <;> simp
  | cons x xs ih =>
    rw [List.mapM_cons]
    cases ys with
    | nil => cases f x <;> cases xs.mapM f <;> simp
    | cons y ys =>
      rw [List.map_cons, List.map_cons, List.cons.injEq, ← ih]
      cases f x <;> cases xs.mapM f <;> simp

/-- What holds of every element holds of the list: changing the elements changes the results and the
error. -/
theorem mapM_map_eq_mapBoth {α' β' δ : Type} {f : α → Except ε β} {f' : α' → Except δ β'}
    {u : α → α'} {v : β → β'} {g : ε → δ} {xs : List α}
    (h : ∀ x ∈ xs, f' (u x) = mapBoth v g (f x)) :
    (xs.map u).mapM f' = mapBoth (List.map v) g (xs.mapM f) := by
  induction xs with
  | nil => rfl
  | cons x xs ih =>
    rw [List.map_cons, List.mapM_cons, List.mapM_cons, h x List.mem_cons_self,
      ih fun y hy => h y (List.mem_cons_of_mem x hy)]
    cases f x with
    | error e => rfl
    | ok y => cases xs.mapM f <;> rfl

/-- The results for a list in two parts are in two parts. -/
theorem exists_of_mapM_append {f : α → Except ε β} {xs ys : List α} {zs : List β}
    (h : (xs ++ ys).mapM f = .ok zs) :
    ∃ us vs, zs = us ++ vs ∧ xs.mapM f = .ok us ∧ ys.mapM f = .ok vs := by
  rw [mapM_eq_ok_iff, List.map_append] at h
  obtain ⟨us, vs, rfl, hus, hvs⟩ := List.map_eq_append_iff.1 h.symm
  exact ⟨us, vs, rfl, mapM_eq_ok_iff.2 hus.symm, mapM_eq_ok_iff.2 hvs.symm⟩

/-- What a list of results tells, if it tells the same as the elements that the results are for. -/
theorem map_filter_of_mapM {γ : Type} {f : α → Except ε β} {xs : List α} {ys : List β}
    (h : xs.mapM f = .ok ys) {p : α → Bool} {q : β → Bool} {u : α → γ} {v : β → γ}
    (hf : ∀ x y, f x = .ok y → q y = p x ∧ (p x → v y = u x)) :
    (ys.filter q).map v = (xs.filter p).map u := by
  rw [mapM_eq_ok_iff] at h
  induction xs generalizing ys with
  | nil =>
    obtain rfl := List.map_eq_nil_iff.1 h.symm
    rfl
  | cons x xs ih =>
    obtain ⟨y, ys, rfl, hy, hys⟩ := List.map_eq_cons_iff.1 h.symm
    obtain ⟨hq, hv⟩ := hf x y hy.symm
    have ih := ih hys.symm
    cases hp : p x with
    | true =>
      rw [List.filter_cons_of_pos (hq.trans hp), List.filter_cons_of_pos hp, List.map_cons,
        List.map_cons, hv hp, ih]
    | false =>
      rw [List.filter_cons_of_neg (by simp [hq, hp]), List.filter_cons_of_neg (by simp [hp]), ih]

theorem exists_of_mem_of_mapM {f : α → Except ε β} {xs : List α} {ys : List β}
    (h : xs.mapM f = .ok ys) {y : β} (hy : y ∈ ys) : ∃ x ∈ xs, f x = .ok y := by
  have hmem : Except.ok y ∈ xs.map f := mapM_eq_ok_iff.1 h ▸ List.mem_map_of_mem hy
  exact List.mem_map.1 hmem

end PackedStack
