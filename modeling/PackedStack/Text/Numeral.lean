/-!
# Numerals

Numbers in source text are decimal, or in base 16, 8 or 2 after `0x`, `0o` or `0b`, with at most one
minus sign in front. Numbers in written text are decimal, or upper-case hexadecimal padded to a
width. What is written reads back (`natural?_decimal`, `natural?_hex`, `integer?_signed`).
-/

namespace PackedStack.Numeral

/-! ## Reading -/

/-- The value of a hexadecimal digit, letters in either case. -/
def digitValue? (c : Char) : Option Nat :=
  if '0' ≤ c ∧ c ≤ '9' then some (c.toNat - '0'.toNat)
  else if 'a' ≤ c ∧ c ≤ 'f' then some (c.toNat - 'a'.toNat + 10)
  else if 'A' ≤ c ∧ c ≤ 'F' then some (c.toNat - 'A'.toNat + 10)
  else none

/-- The value of a digit that is below the base. -/
def digit? (base : Nat) (c : Char) : Option Nat := (digitValue? c).filter (· < base)

/-- The number with the given digits, most significant first. -/
def ofDigits (base : Nat) (digits : List Nat) : Nat := digits.foldl (fun n d => base * n + d) 0

/-- The number that a non-empty row of digits denotes. -/
def natural? (base : Nat) (cs : List Char) : Option Nat :=
  if cs.isEmpty then none else (cs.mapM (digit? base)).map (ofDigits base)

/-- The number that an unsigned numeral denotes. -/
def magnitude? : List Char → Option Nat
  | '0' :: 'x' :: cs => natural? 16 cs
  | '0' :: 'o' :: cs => natural? 8 cs
  | '0' :: 'b' :: cs => natural? 2 cs
  | cs => natural? 10 cs

/-- The number that a numeral denotes. -/
def integer? : List Char → Option Int
  | '-' :: cs => (magnitude? cs).map fun n => -(n : Int)
  | cs => (magnitude? cs).map fun n => (n : Int)

/-! ## Writing -/

def decimal (n : Nat) : List Char := Nat.toDigits 10 n

/-- Decimal, with a minus sign in front of a negative number. -/
def signed : Int → List Char
  | .ofNat n => decimal n
  | .negSucc n => '-' :: decimal (n + 1)

/-- Upper-case hexadecimal with zeros in front up to the given width. -/
def hex (width n : Nat) : List Char := ((Nat.toDigits 16 n).map Char.toUpper).leftpad width '0'

/-! ## Writing and reading back -/

theorem ofDigits_append_singleton (base : Nat) (ds : List Nat) (d : Nat) :
    ofDigits base (ds ++ [d]) = base * ofDigits base ds + d := by
  simp [ofDigits]

theorem natural?_append_singleton {base n d : Nat} {cs : List Char} {c : Char}
    (hcs : natural? base cs = some n) (hc : digit? base c = some d) :
    natural? base (cs ++ [c]) = some (base * n + d) := by
  simp only [natural?] at hcs ⊢
  split at hcs
  · simp at hcs
  · obtain ⟨ds, hds, rfl⟩ := Option.map_eq_some_iff.1 hcs
    simp [List.mapM_append, hds, hc, ofDigits_append_singleton]

/-- Digits that a respelling keeps the values of denote the same number. -/
theorem natural?_map_toDigits {base : Nat} (h1 : 1 < base) {f : Char → Char}
    (hf : ∀ d < base, digit? base (f d.digitChar) = some d) (n : Nat) :
    natural? base ((Nat.toDigits base n).map f) = some n := by
  induction n using Nat.strongRecOn with
  | ind n ih =>
    by_cases hn : n < base
    · rw [Nat.toDigits_of_lt_base hn]
      simp [natural?, hf n hn, ofDigits]
    · have hlt : n / base < n := Nat.div_lt_self (by omega) h1
      rw [Nat.toDigits_of_base_le h1 (by omega), List.map_append, List.map_singleton,
        natural?_append_singleton (ih _ hlt) (hf _ (Nat.mod_lt n (by omega))), Nat.div_add_mod]

@[simp] theorem natural?_decimal (n : Nat) : natural? 10 (decimal n) = some n := by
  have h : natural? 10 ((Nat.toDigits 10 n).map id) = some n :=
    natural?_map_toDigits (by decide) (by decide) n
  rwa [List.map_id] at h

theorem natural?_cons_zero {base : Nat} (h : 0 < base) {cs : List Char} (hcs : cs ≠ []) :
    natural? base ('0' :: cs) = natural? base cs := by
  have h0 : digit? base '0' = some 0 := by simp [digit?, digitValue?, h]
  cases h : cs.mapM (digit? base) <;> simp [natural?, hcs, h0, h, ofDigits]

@[simp] theorem natural?_hex (width n : Nat) : natural? 16 (hex width n) = some n := by
  have h : natural? 16 ((Nat.toDigits 16 n).map Char.toUpper) = some n :=
    natural?_map_toDigits (by decide) (by decide) n
  simp only [hex, List.leftpad]
  generalize width - _ = k
  induction k with
  | zero => exact h
  | succ k ih =>
    rw [List.replicate_succ, List.cons_append, natural?_cons_zero (by decide), ih]
    intro hnil
    simp [hnil, natural?] at ih

theorem natural?_cons_of_digit?_eq_none {base : Nat} {c : Char} (hc : digit? base c = none)
    (cs : List Char) : natural? base (c :: cs) = none := by
  simp [natural?, hc]

/-- A row of decimal digits is not taken for a numeral in another base. -/
theorem magnitude?_of_natural? {cs : List Char} {n : Nat} (h : natural? 10 cs = some n) :
    magnitude? cs = some n := by
  have none_of_mark : ∀ c ds, digit? 10 c = none → natural? 10 ('0' :: c :: ds) = none :=
    fun c ds hc => by
      rw [natural?_cons_zero (by decide) (by simp), natural?_cons_of_digit?_eq_none hc]
  unfold magnitude?
  split
  · simp [none_of_mark 'x' _ (by decide)] at h
  · simp [none_of_mark 'o' _ (by decide)] at h
  · simp [none_of_mark 'b' _ (by decide)] at h
  · exact h

@[simp] theorem integer?_signed (v : Int) : integer? (signed v) = some v := by
  cases v with
  | ofNat n =>
    have h := natural?_decimal n
    unfold integer? signed
    split
    · rename_i heq
      simp [heq, natural?_cons_of_digit?_eq_none (show digit? 10 '-' = none by decide)] at h
    · simp [magnitude?_of_natural? h]
  | negSucc n =>
    simp only [signed, integer?, magnitude?_of_natural? (natural?_decimal (n + 1))]
    rfl

end PackedStack.Numeral
