/-!
# Opcodes

The twenty-seven opcodes of the machine, numbered from zero in the order of `Opcode.all`. Each has a
code, which is one byte, and a mnemonic of two letters by which source text names it. Codes and
mnemonics identify their opcode (`ofCode?_eq_some_iff`, `ofMnemonic?_eq_some_iff`).
-/

namespace PackedStack

inductive Opcode where
  | nop | lit | dup | drop | swap | push | pop
  | jump | call | cjump | ret
  | eq | neq | lt | gt
  | fetch | store
  | add | sub | mul | divmod | and | or | xor | shift
  | zret | halt
  deriving DecidableEq, Repr

namespace Opcode

/-- Every opcode, in the order of the codes. -/
def all : List Opcode :=
  [nop, lit, dup, drop, swap, push, pop, jump, call, cjump, ret, eq, neq, lt, gt, fetch, store,
    add, sub, mul, divmod, and, or, xor, shift, zret, halt]

def name : Opcode → String
  | nop => "NOP" | lit => "LIT" | dup => "DUP" | drop => "DROP" | swap => "SWAP" | push => "PUSH"
  | pop => "POP" | jump => "JUMP" | call => "CALL" | cjump => "CJUMP" | ret => "RETURN"
  | eq => "EQ" | neq => "NEQ" | lt => "LT" | gt => "GT" | fetch => "FETCH" | store => "STORE"
  | add => "ADD" | sub => "SUB" | mul => "MUL" | divmod => "DIVMOD" | and => "AND" | or => "OR"
  | xor => "XOR" | shift => "SHIFT" | zret => "ZRET" | halt => "END"

/-- The two letters that name an opcode in source text. -/
def mnemonic : Opcode → String
  | nop => "no" | lit => "li" | dup => "du" | drop => "dr" | swap => "sw" | push => "pu"
  | pop => "po" | jump => "ju" | call => "ca" | cjump => "cj" | ret => "re"
  | eq => "eq" | neq => "ne" | lt => "lt" | gt => "gt" | fetch => "fe" | store => "st"
  | add => "ad" | sub => "su" | mul => "mu" | divmod => "di" | and => "an" | or => "or"
  | xor => "xo" | shift => "sh" | zret => "zr" | halt => "en"

/-- The position of an opcode in `all`. -/
def code (o : Opcode) : UInt8 := UInt8.ofNat o.ctorIdx

def ofCode? (c : UInt8) : Option Opcode := all[c.toNat]?

def ofMnemonic? (text : String) : Option Opcode := all.find? (·.mnemonic == text)

/-- Whether an opcode leaves the word it stands in, so that no later slot of the word runs. -/
def isFlow : Opcode → Bool
  | jump | call | cjump | ret | zret => true
  | _ => false

theorem mem_all (o : Opcode) : o ∈ all := by cases o <;> decide

@[simp] theorem ofCode?_code (o : Opcode) : ofCode? o.code = some o := by cases o <;> rfl

theorem ofCode?_eq_some_iff {c : UInt8} {o : Opcode} : ofCode? c = some o ↔ o.code = c := by
  refine ⟨fun h => ?_, fun h => h ▸ ofCode?_code o⟩
  obtain ⟨hlt, rfl⟩ := List.getElem?_eq_some_iff.1 h
  have key : ∀ i : Fin all.length, (all.get i).code.toNat = i.val := by decide
  exact UInt8.toNat_inj.1 (key ⟨c.toNat, hlt⟩)

theorem ofCode?_eq_none_iff {c : UInt8} : ofCode? c = none ↔ 27 ≤ c.toNat :=
  List.getElem?_eq_none_iff

@[simp] theorem ofMnemonic?_mnemonic (o : Opcode) : ofMnemonic? o.mnemonic = some o := by
  cases o <;> rfl

theorem ofMnemonic?_eq_some_iff {text : String} {o : Opcode} :
    ofMnemonic? text = some o ↔ o.mnemonic = text := by
  refine ⟨fun h => ?_, fun h => h ▸ ofMnemonic?_mnemonic o⟩
  simpa using List.find?_some h

end Opcode

end PackedStack
