import Mathlib.Data.List.Induction
import PackedStack.Source.Operand

/-!
# Which texts are numbers

The grammar of numerals is a relation between texts and integers (`Numeral.Denotes`), built from
rows of digits whose value grows by one digit at a time (`Numeral.Digits`). Reading a numeral
decides that relation (`Numeral.integer?_eq_some_iff`), so that a text is a word exactly if it
denotes an integer in the range of a word (`numerals_accepted_exactly`).

The range can be checked at the end or after every product and sum on the way
(`Word.checkedInteger?`). The digits read so far never stand for a larger magnitude than all of
them, so that both checks agree (`Word.checkedInteger?_eq`).
-/

namespace PackedStack

namespace Numeral

/-! ## The grammar -/

def lowerDigits : List Char := "0123456789abcdef".toList

def upperDigits : List Char := "0123456789ABCDEF".toList

/-- A digit below the base and its value. Letters may have either case. -/
def Digit (base : Nat) (c : Char) (d : Nat) : Prop :=
  d < base ∧ (lowerDigits[d]? = some c ∨ upperDigits[d]? = some c)

/-- A non-empty row of digits, most significant first, and the number it denotes. -/
inductive Digits (base : Nat) : List Char → Nat → Prop
  | single {c : Char} {d : Nat} (hc : Digit base c d) : Digits base [c] d
  | snoc {cs : List Char} {n : Nat} {c : Char} {d : Nat} (hcs : Digits base cs n)
      (hc : Digit base c d) : Digits base (cs ++ [c]) (base * n + d)

/-- An unsigned numeral and the number it denotes. -/
inductive Magnitude : List Char → Nat → Prop
  | decimal {cs : List Char} {n : Nat} (h : Digits 10 cs n) : Magnitude cs n
  | hexadecimal {cs : List Char} {n : Nat} (h : Digits 16 cs n) : Magnitude ('0' :: 'x' :: cs) n
  | octal {cs : List Char} {n : Nat} (h : Digits 8 cs n) : Magnitude ('0' :: 'o' :: cs) n
  | binary {cs : List Char} {n : Nat} (h : Digits 2 cs n) : Magnitude ('0' :: 'b' :: cs) n

/-- A numeral and the integer it denotes. -/
inductive Denotes : List Char → Int → Prop
  | nonneg {cs : List Char} {n : Nat} (h : Magnitude cs n) : Denotes cs n
  | neg {cs : List Char} {n : Nat} (h : Magnitude cs n) : Denotes ('-' :: cs) (-n)

/-! ## Reading decides the grammar -/

/-- What holds of every code point in a range holds of the characters in it. -/
theorem forall_between {a z : Char} {P : Char → Prop}
    (h : ∀ i < z.toNat + 1 - a.toNat, P (Char.ofNat (a.toNat + i))) {c : Char} (ha : a ≤ c)
    (hz : c ≤ z) : P c := by
  have ha : a.toNat ≤ c.toNat := ha
  have hz : c.toNat ≤ z.toNat := hz
  have hc := h (c.toNat - a.toNat) (by omega)
  rwa [Nat.add_sub_cancel' ha, Char.ofNat_toNat] at hc

theorem digitValue?_eq_some_iff {c : Char} {d : Nat} :
    digitValue? c = some d ↔ lowerDigits[d]? = some c ∨ upperDigits[d]? = some c := by
  constructor
  · intro h
    unfold digitValue? at h
    split at h
    · rename_i hc
      obtain rfl := Option.some.inj h
      exact .inl (forall_between (P := fun c => lowerDigits[c.toNat - '0'.toNat]? = some c)
        (by decide) hc.1 hc.2)
    split at h
    · rename_i hc
      obtain rfl := Option.some.inj h
      exact .inl (forall_between (P := fun c => lowerDigits[c.toNat - 'a'.toNat + 10]? = some c)
        (by decide) hc.1 hc.2)
    split at h
    · rename_i hc
      obtain rfl := Option.some.inj h
      exact .inr (forall_between (P := fun c => upperDigits[c.toNat - 'A'.toNat + 10]? = some c)
        (by decide) hc.1 hc.2)
    · cases h
  · have hlower : ∀ d < 16, lowerDigits[d]?.bind digitValue? = some d := by decide
    have hupper : ∀ d < 16, upperDigits[d]?.bind digitValue? = some d := by decide
    rintro (h | h)
    · have hd : d < 16 := (List.getElem?_eq_some_iff.1 h).1
      rw [← hlower d hd, h, Option.bind_some]
    · have hd : d < 16 := (List.getElem?_eq_some_iff.1 h).1
      rw [← hupper d hd, h, Option.bind_some]

theorem digit?_eq_some_iff {base : Nat} {c : Char} {d : Nat} :
    digit? base c = some d ↔ Digit base c d := by
  simp [digit?, Digit, Option.filter_eq_some_iff, digitValue?_eq_some_iff, and_comm]

theorem natural?_eq_some_iff {base : Nat} {cs : List Char} {n : Nat} :
    natural? base cs = some n ↔ Digits base cs n := by
  constructor
  · intro h
    -- The value grows with the last digit, so that the induction is from the back.
    induction cs using List.reverseRecOn generalizing n with
    | nil => simp [natural?] at h
    | append_singleton cs c ih =>
      cases hds : cs.mapM (digit? base) with
      | none => simp [natural?, hds] at h
      | some ds =>
      cases hc : digit? base c with
      | none => simp [natural?, hds, hc] at h
      | some d =>
      obtain rfl : ofDigits base (ds ++ [d]) = n := by simpa [natural?, hds, hc] using h
      rw [ofDigits_append_singleton]
      cases cs with
      | nil =>
        obtain rfl : [] = ds := by simpa using hds
        simpa [ofDigits] using Digits.single (digit?_eq_some_iff.1 hc)
      | cons c' cs => exact .snoc (ih (by simp [natural?, hds])) (digit?_eq_some_iff.1 hc)
  · intro h
    induction h with
    | single hc => simp [natural?, digit?_eq_some_iff.2 hc, ofDigits]
    | snoc _ hc ih => exact natural?_append_singleton ih (digit?_eq_some_iff.2 hc)

theorem magnitude?_eq_some_iff {cs : List Char} {n : Nat} :
    magnitude? cs = some n ↔ Magnitude cs n := by
  constructor
  · intro h
    unfold magnitude? at h
    split at h
    · exact .hexadecimal (natural?_eq_some_iff.1 h)
    · exact .octal (natural?_eq_some_iff.1 h)
    · exact .binary (natural?_eq_some_iff.1 h)
    · exact .decimal (natural?_eq_some_iff.1 h)
  · intro h
    cases h with
    | decimal h => exact magnitude?_of_natural? (natural?_eq_some_iff.2 h)
    | hexadecimal h => exact natural?_eq_some_iff.2 h
    | octal h => exact natural?_eq_some_iff.2 h
    | binary h => exact natural?_eq_some_iff.2 h

theorem Digit.isAlphanum {base : Nat} {c : Char} {d : Nat} (h : Digit base c d) :
    c.isAlphanum := by
  have hlower : lowerDigits.all Char.isAlphanum := by decide
  have hupper : upperDigits.all Char.isAlphanum := by decide
  rcases h.2 with h | h
  · exact List.all_eq_true.1 hlower c (List.mem_of_getElem? h)
  · exact List.all_eq_true.1 hupper c (List.mem_of_getElem? h)

theorem Digits.isAlphanum {base : Nat} {cs : List Char} {n : Nat} (h : Digits base cs n) :
    ∀ c ∈ cs, c.isAlphanum := by
  induction h with
  | single hc => simpa using hc.isAlphanum
  | snoc _ hc ih =>
    intro c hmem
    rcases List.mem_append.1 hmem with hmem | hmem
    · exact ih c hmem
    · exact List.mem_singleton.1 hmem ▸ hc.isAlphanum

theorem Magnitude.isAlphanum {cs : List Char} {n : Nat} (h : Magnitude cs n) :
    ∀ c ∈ cs, c.isAlphanum := by
  cases h with
  | decimal h => exact h.isAlphanum
  | hexadecimal h | octal h | binary h => simpa using h.isAlphanum

/-- A magnitude, or its negative. -/
def withSign (negative : Bool) (n : Nat) : Int := if negative then -n else n

theorem integer?_cons_minus (cs : List Char) :
    integer? ('-' :: cs) = (magnitude? cs).map (withSign true) := by
  cases h : magnitude? cs <;> simp [integer?, h, withSign]

theorem integer?_of_ne_minus {cs : List Char} (hcs : ∀ ds, cs = '-' :: ds → False) :
    integer? cs = (magnitude? cs).map (withSign false) := by
  cases h : magnitude? cs <;> simp [integer?, h, withSign]

theorem integer?_eq_some_iff {cs : List Char} {v : Int} :
    integer? cs = some v ↔ Denotes cs v := by
  constructor
  · intro h
    by_cases hminus : ∃ ds, cs = '-' :: ds
    · obtain ⟨ds, rfl⟩ := hminus
      rw [integer?_cons_minus] at h
      obtain ⟨n, hn, rfl⟩ := Option.map_eq_some_iff.1 h
      exact .neg (magnitude?_eq_some_iff.1 hn)
    · rw [integer?_of_ne_minus fun ds hds => hminus ⟨ds, hds⟩] at h
      obtain ⟨n, hn, rfl⟩ := Option.map_eq_some_iff.1 h
      exact .nonneg (magnitude?_eq_some_iff.1 hn)
  · intro h
    cases h with
    | neg h => rw [integer?_cons_minus, magnitude?_eq_some_iff.2 h]; rfl
    | nonneg h =>
      rw [integer?_of_ne_minus, magnitude?_eq_some_iff.2 h]
      · rfl
      · -- No unsigned numeral starts with a minus sign.
        rintro ds rfl
        exact absurd (h.isAlphanum '-' List.mem_cons_self) (by decide)

/-- A numeral holds letters and digits only, but for the sign in front. -/
theorem Denotes.isAlphanum {cs : List Char} {v : Int} (h : Denotes cs v) :
    (∀ c ∈ cs.tail, c.isAlphanum) ∧ ∀ c ∈ cs, c = '-' ∨ c.isAlphanum := by
  cases h with
  | nonneg h =>
    refine ⟨fun c hc => h.isAlphanum c (List.mem_of_mem_tail hc), fun c hc => ?_⟩
    exact .inr (h.isAlphanum c hc)
  | neg h =>
    refine ⟨h.isAlphanum, fun c hc => ?_⟩
    exact (List.mem_cons.1 hc).imp_right (h.isAlphanum c)

end Numeral

namespace Word

/-! ## Checking the range on the way -/

/-- A word with one more digit behind it, if both the product and the sum fit. Digits of a negative
number are subtracted. -/
def pushDigit? (negative : Bool) (base : Nat) (w : Word) (d : Nat) : Option Word := do
  let scaled ← ofInt? (w.toInt * base)
  ofInt? (if negative then scaled.toInt - d else scaled.toInt + d)

/-- The word that a non-empty row of digits denotes. -/
def checkedNatural? (negative : Bool) (base : Nat) (cs : List Char) : Option Word :=
  if cs.isEmpty then none
  else cs.foldlM (fun w c => (Numeral.digit? base c).bind (pushDigit? negative base w)) 0#32

/-- The word that an unsigned numeral denotes, or its negative. -/
def checkedMagnitude? (negative : Bool) : List Char → Option Word
  | '0' :: 'x' :: cs => checkedNatural? negative 16 cs
  | '0' :: 'o' :: cs => checkedNatural? negative 8 cs
  | '0' :: 'b' :: cs => checkedNatural? negative 2 cs
  | cs => checkedNatural? negative 10 cs

/-- The word that a numeral denotes. -/
def checkedInteger? : List Char → Option Word
  | '-' :: cs => checkedMagnitude? true cs
  | cs => checkedMagnitude? false cs

theorem exists_toInt_eq {v : Int} (h : -0x80000000 ≤ v ∧ v < 0x80000000) :
    ∃ w : Word, w.toInt = v :=
  ⟨BitVec.ofInt 32 v, ofInt?_eq_some_iff.1 (if_pos h)⟩

/-- One step of the check. What fits with one more digit behind it fits without it, and so does the
product. -/
theorem bind_pushDigit? {base : Nat} (hbase : 0 < base) (negative : Bool) (n d : Nat) :
    ((ofInt? (Numeral.withSign negative n)).bind fun w => pushDigit? negative base w d) =
      ofInt? (Numeral.withSign negative (base * n + d)) := by
  have hpush : Numeral.withSign negative (base * n + d) =
      if negative then Numeral.withSign negative n * base - d
      else Numeral.withSign negative n * base + d := by
    cases negative <;> simp [Numeral.withSign] <;> grind
  ext w
  simp only [pushDigit?, Option.bind_eq_bind, Option.bind_eq_some_iff, ofInt?_eq_some_iff]
  constructor
  · rintro ⟨u, hu, p, hp, hw⟩
    rw [hw, hp, hu, hpush]
  · intro hw
    have hmin : -0x80000000 ≤ w.toInt := BitVec.le_toInt w
    have hmax : w.toInt < 0x80000000 := BitVec.toInt_lt
    have hle : n ≤ base * n := Nat.le_mul_of_pos_left n hbase
    rw [hw] at hmin hmax
    obtain ⟨u, hu⟩ : ∃ u : Word, u.toInt = Numeral.withSign negative n :=
      exists_toInt_eq (by cases negative <;> simp only [Numeral.withSign] at * <;> grind)
    obtain ⟨p, hp⟩ : ∃ p : Word, p.toInt = u.toInt * base :=
      exists_toInt_eq (by rw [hu]; cases negative <;> simp only [Numeral.withSign] at * <;> grind)
    exact ⟨u, hu, p, hp, by rw [hw, hp, hu, hpush]⟩

theorem foldlM_pushDigit? {base : Nat} (hbase : 0 < base) (negative : Bool) (cs : List Char) :
    cs.foldlM (fun w c => (Numeral.digit? base c).bind (pushDigit? negative base w)) 0#32 =
      (cs.mapM (Numeral.digit? base)).bind fun ds =>
        ofInt? (Numeral.withSign negative (Numeral.ofDigits base ds)) := by
  induction cs using List.reverseRecOn with
  | nil =>
    have hzero : (0#32).toInt = Numeral.withSign negative 0 := by cases negative <;> rfl
    exact (ofInt?_eq_some_iff.2 hzero).symm
  | append_singleton cs c ih =>
    cases hds : cs.mapM (Numeral.digit? base) with
    | none => simp [List.foldlM_append, ih, hds]
    | some ds =>
    cases hc : Numeral.digit? base c with
    | none => simp [List.foldlM_append, ih, hds, hc]
    | some d =>
      have hstep := bind_pushDigit? hbase negative (Numeral.ofDigits base ds) d
      simpa [List.foldlM_append, ih, hds, hc, Numeral.ofDigits_append_singleton] using hstep

theorem checkedNatural?_eq {base : Nat} (hbase : 0 < base) (negative : Bool) (cs : List Char) :
    checkedNatural? negative base cs =
      ((Numeral.natural? base cs).map (Numeral.withSign negative)).bind ofInt? := by
  rw [checkedNatural?, Numeral.natural?]
  split
  · rfl
  · rw [foldlM_pushDigit? hbase, Option.bind_map, Option.bind_map]
    rfl

theorem checkedMagnitude?_eq (negative : Bool) (cs : List Char) :
    checkedMagnitude? negative cs =
      ((Numeral.magnitude? cs).map (Numeral.withSign negative)).bind ofInt? := by
  unfold checkedMagnitude?
  split
  · exact checkedNatural?_eq (by decide) negative _
  · exact checkedNatural?_eq (by decide) negative _
  · exact checkedNatural?_eq (by decide) negative _
  · rename_i hx ho hb
    rw [checkedNatural?_eq (by decide), Numeral.magnitude?.eq_4 cs hx ho hb]

theorem checkedInteger?_eq (cs : List Char) :
    checkedInteger? cs = (Numeral.integer? cs).bind ofInt? := by
  unfold checkedInteger?
  split
  · rw [checkedMagnitude?_eq, Numeral.integer?_cons_minus]
  · rename_i hne
    rw [checkedMagnitude?_eq, Numeral.integer?_of_ne_minus hne]

/-! ## Texts that are words -/

theorem parse?_eq_some_iff {text : String} {w : Word} :
    parse? text = some w ↔ Numeral.Denotes text.toList w.toInt := by
  simp [parse?, Option.bind_eq_some_iff, ofInt?_eq_some_iff, Numeral.integer?_eq_some_iff]

theorem map_toInt_parse?_eq_some_iff {text : String} {v : Int} :
    (parse? text).map BitVec.toInt = some v ↔
      Numeral.Denotes text.toList v ∧ -0x80000000 ≤ v ∧ v ≤ 0x7fffffff := by
  rw [Option.map_eq_some_iff]
  constructor
  · rintro ⟨w, hw, rfl⟩
    exact ⟨parse?_eq_some_iff.1 hw, BitVec.le_toInt w, Int.le_of_lt_add_one BitVec.toInt_lt⟩
  · rintro ⟨hdenotes, hmin, hmax⟩
    obtain ⟨w, rfl⟩ := exists_toInt_eq ⟨hmin, Int.lt_add_one_of_le hmax⟩
    exact ⟨w, parse?_eq_some_iff.2 hdenotes, rfl⟩

theorem parse?_eq_none_iff {text : String} :
    parse? text = none ↔
      ∀ v, Numeral.Denotes text.toList v → v < -0x80000000 ∨ 0x7fffffff < v := by
  rw [← Option.map_eq_none_iff (f := BitVec.toInt), Option.eq_none_iff_forall_ne_some]
  simp only [ne_eq, map_toInt_parse?_eq_some_iff]
  grind

theorem parse?_eq_none_of_not_isAlphanum {text : String} {c : Char} (hc : ¬ c.isAlphanum)
    (hmem : c ∈ text.toList.tail ∨ c ∈ text.toList ∧ c ≠ '-') : parse? text = none := by
  refine Option.eq_none_iff_forall_ne_some.2 fun w hw => ?_
  obtain ⟨htail, hall⟩ := (parse?_eq_some_iff.1 hw).isAlphanum
  rcases hmem with hmem | ⟨hmem, hne⟩
  · exact hc (htail c hmem)
  · exact (hall c hmem).elim hne hc

end Word

/-- A text is a number exactly if it is a numeral whose value is in the range of a word, and is then
that value. A text is refused if it holds anything but letters and digits behind an optional minus
sign, or a value out of range. Checking the range after every digit refuses the same texts. Every
word can be given in decimal. -/
theorem numerals_accepted_exactly :
    (∀ (text : String) (v : Int),
        (Word.parse? text).map BitVec.toInt = some v ↔
          Numeral.Denotes text.toList v ∧ -0x80000000 ≤ v ∧ v ≤ 0x7fffffff) ∧
      (∀ text : String,
        Word.parse? text = none ↔
          ∀ v, Numeral.Denotes text.toList v → v < -0x80000000 ∨ 0x7fffffff < v) ∧
      (∀ (text : String) (c : Char), ¬ c.isAlphanum →
        c ∈ text.toList.tail ∨ c ∈ text.toList ∧ c ≠ '-' → Word.parse? text = none) ∧
      (∀ text : String, Word.checkedInteger? text.toList = Word.parse? text) ∧
      ∀ w : Word, Word.parse? w.toDecimal = some w :=
  ⟨fun _ _ => Word.map_toInt_parse?_eq_some_iff, fun _ => Word.parse?_eq_none_iff,
    fun _ _ => Word.parse?_eq_none_of_not_isAlphanum,
    fun text => Word.checkedInteger?_eq text.toList, Word.parse?_toDecimal⟩

/-- Both ends of the range behind leading zeros, the first number out of range, and a sign behind
the mark of a base. -/
theorem numerals_accepted_exactly_at_bounds :
    Numeral.Denotes "-0x0080000000".toList (-0x80000000) ∧
      Numeral.Denotes "002147483647".toList 0x7fffffff ∧
      (∀ v, Numeral.Denotes "002147483648".toList v → v < -0x80000000 ∨ 0x7fffffff < v) ∧
      Word.parse? "0x-5" = none :=
  ⟨((numerals_accepted_exactly.1 _ _).1 (by decide)).1,
    ((numerals_accepted_exactly.1 _ _).1 (by decide)).1,
    (numerals_accepted_exactly.2.1 _).1 (by decide),
    numerals_accepted_exactly.2.2.1 "0x-5" '-' (by decide) (.inl (by decide))⟩

end PackedStack
