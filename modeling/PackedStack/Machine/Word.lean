import PackedStack.Machine.Opcode

/-!
# Words

A word is 32 bits wide and holds four slots of one byte each, slot 0 in the lowest bits. Cutting a
word into its slots and joining four slots are inverse to each other (`unpack_pack`, `pack_unpack`);
a word is code exactly if all its slots are codes of opcodes (`decode?_eq_some_iff`,
`decode?_eq_none_iff`).
-/

namespace PackedStack

/-- A machine word. As a number it is read in two's complement. -/
abbrev Word := BitVec 32

/-- Four values, one for each slot of a word. -/
@[ext] structure Slots (α : Type) where
  s0 : α
  s1 : α
  s2 : α
  s3 : α
  deriving DecidableEq, Repr

namespace Slots

def map {α β : Type} (f : α → β) (s : Slots α) : Slots β := ⟨f s.s0, f s.s1, f s.s2, f s.s3⟩

def toList {α : Type} (s : Slots α) : List α := [s.s0, s.s1, s.s2, s.s3]

/-- The first four elements of a list, with `fill` where the list is shorter. -/
def ofList {α : Type} (fill : α) (xs : List α) : Slots α :=
  ⟨xs.getD 0 fill, xs.getD 1 fill, xs.getD 2 fill, xs.getD 3 fill⟩

theorem toList_ofList {α : Type} (fill : α) {xs : List α} (h : xs.length ≤ 4) :
    (ofList fill xs).toList = xs ++ List.replicate (4 - xs.length) fill := by
  rcases xs with _ | ⟨x0, _ | ⟨x1, _ | ⟨x2, _ | ⟨x3, _ | ⟨x4, xs⟩⟩⟩⟩⟩
  · rfl
  · rfl
  · rfl
  · rfl
  · rfl
  · simp only [List.length_cons] at h
    omega

end Slots

namespace Word

/-- The word with the given slots. -/
def pack (b : Slots UInt8) : Word :=
  BitVec.ofNat 32
    (b.s0.toNat + 0x100 * b.s1.toNat + 0x10000 * b.s2.toNat + 0x1000000 * b.s3.toNat)

/-- The slots of a word. -/
def unpack (w : Word) : Slots UInt8 :=
  ⟨UInt8.ofNat w.toNat, UInt8.ofNat (w.toNat / 0x100), UInt8.ofNat (w.toNat / 0x10000),
    UInt8.ofNat (w.toNat / 0x1000000)⟩

/-- The word whose slots hold the codes of four opcodes. -/
def encode (s : Slots Opcode) : Word := pack (s.map Opcode.code)

/-- The opcodes in the slots of a word, if each slot holds one. -/
def decode? (w : Word) : Option (Slots Opcode) := do
  let b := unpack w
  return ⟨← Opcode.ofCode? b.s0, ← Opcode.ofCode? b.s1, ← Opcode.ofCode? b.s2,
    ← Opcode.ofCode? b.s3⟩

/-- An integer as a word, if it fits. -/
def ofInt? (v : Int) : Option Word :=
  if -0x80000000 ≤ v ∧ v < 0x80000000 then some (BitVec.ofInt 32 v) else none

/-- The word that an address is stored as: its lowest 32 bits. -/
def ofAddress (a : Nat) : Word := BitVec.ofNat 32 a

@[simp] theorem unpack_pack (b : Slots UInt8) : unpack (pack b) = b := by
  have h0 := b.s0.toNat_lt
  have h1 := b.s1.toNat_lt
  have h2 := b.s2.toNat_lt
  have h3 := b.s3.toNat_lt
  apply Slots.ext <;> apply UInt8.toNat_inj.1 <;>
    simp only [unpack, pack, BitVec.toNat_ofNat, UInt8.toNat_ofNat'] <;> omega

@[simp] theorem pack_unpack (w : Word) : pack (unpack w) = w := by
  apply BitVec.eq_of_toNat_eq
  have h := w.isLt
  simp only [unpack, pack, BitVec.toNat_ofNat, UInt8.toNat_ofNat']
  omega

/-- Slot `s` of a word is the eight bits from bit `8 * s` on. -/
theorem toList_unpack (w : Word) :
    (unpack w).toList = (List.range 4).map fun s => UInt8.ofBitVec (w.extractLsb' (8 * s) 8) := by
  have hbyte : ∀ s, UInt8.ofBitVec (w.extractLsb' (8 * s) 8) = UInt8.ofNat (w.toNat >>> (8 * s)) :=
    fun s => rfl
  rw [show List.range 4 = [0, 1, 2, 3] from rfl]
  simp only [List.map_cons, List.map_nil, hbyte, unpack, Slots.toList]
  rw [Nat.shiftRight_eq_div_pow _ (8 * 1), Nat.shiftRight_eq_div_pow _ (8 * 2),
    Nat.shiftRight_eq_div_pow _ (8 * 3)]
  rfl

theorem decode?_eq_some_iff {w : Word} {s : Slots Opcode} :
    decode? w = some s ↔ encode s = w := by
  have key : decode? w = some s ↔ s.map Opcode.code = unpack w := by
    simp only [decode?, Option.bind_eq_bind, Option.pure_def, Option.bind_eq_some_iff,
      Opcode.ofCode?_eq_some_iff, Slots.map, Slots.ext_iff, Option.some.injEq]
    constructor
    · rintro ⟨a, ha, b, hb, c, hc, d, hd, rfl, rfl, rfl, rfl⟩
      exact ⟨ha, hb, hc, hd⟩
    · rintro ⟨h0, h1, h2, h3⟩
      exact ⟨_, h0, _, h1, _, h2, _, h3, rfl, rfl, rfl, rfl⟩
  rw [key, encode]
  exact ⟨fun h => by rw [h, pack_unpack], fun h => by rw [← h, unpack_pack]⟩

theorem decode?_eq_none_iff {w : Word} :
    decode? w = none ↔ ∃ b ∈ (unpack w).toList, 27 ≤ b.toNat := by
  simp only [← Opcode.ofCode?_eq_none_iff, Slots.toList, List.mem_cons, List.not_mem_nil, or_false,
    exists_eq_or_imp, exists_eq_left, decode?]
  cases Opcode.ofCode? (unpack w).s0 <;> cases Opcode.ofCode? (unpack w).s1 <;>
    cases Opcode.ofCode? (unpack w).s2 <;> cases Opcode.ofCode? (unpack w).s3 <;> simp

@[simp] theorem decode?_encode (s : Slots Opcode) : decode? (encode s) = some s :=
  decode?_eq_some_iff.2 rfl

end Word

end PackedStack
