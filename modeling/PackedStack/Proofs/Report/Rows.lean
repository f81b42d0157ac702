import Mathlib.Data.List.Basic
import PackedStack.Proofs.Failure
import PackedStack.Report.Diagnostic
import PackedStack.Report.Listing

/-!
# Reading a listing back

A row of a listing is a rule, the name of a label, or a cell with its address, its value and what it
means (`Listing.Row.read?`). Rows are read as they were written (`read?_rule`, `read?_labelRow`,
`read?_cellRow`), and the mnemonics of a code cell give its word (`Listing.readCode?_codeBody`).
-/

namespace PackedStack

/-- Rows are printed with nothing between them but the newlines behind them. -/
theorem splitOn_printRows {rows : List String} (h : ∀ row ∈ rows, '\n' ∉ row.toList) :
    Text.splitOn '\n' (printRows rows).toList = rows.map (·.toList) ++ [[]] := by
  induction rows with
  | nil => rfl
  | cons row rows ih =>
    rw [toList_printRows_cons, Text.splitOn_append_cons (h row List.mem_cons_self),
      ih fun r hr => h r (List.mem_cons_of_mem row hr)]
    rfl

/-! ## Hexadecimal columns -/

theorem Numeral.isSome_digit?_of_mem_hex {width n : Nat} {c : Char} (h : c ∈ hex width n) :
    (digit? 16 c).isSome := by
  have hread := natural?_hex width n
  rw [natural?, if_neg (by simp [List.ne_nil_of_mem h])] at hread
  obtain ⟨digits, hdigits, -⟩ := Option.map_eq_some_iff.1 hread
  have hmem : digit? 16 c ∈ digits.map some := by
    rw [← mapM_eq_some_iff.1 hdigits]
    exact List.mem_map_of_mem h
  obtain ⟨d, -, hd⟩ := List.mem_map.1 hmem
  rw [← hd]
  rfl

theorem Numeral.not_mem_hex {width n : Nat} {c : Char} (hc : digit? 16 c = none) :
    c ∉ hex width n := by
  intro hmem
  have hsome := isSome_digit?_of_mem_hex hmem
  rw [hc] at hsome
  cases hsome

/-- Eight digits are enough for a word. -/
theorem Numeral.length_hex_word (w : Word) : (hex 8 w.toNat).length = 8 := by
  have hlength : (Nat.toDigits 16 w.toNat).length ≤ 8 :=
    (Nat.length_toDigits_le_iff (by decide) (by decide)).2 w.isLt
  rw [hex, List.length_leftpad, List.length_map]
  omega

/-! ## Text without its style -/

/-- Leaves out control sequences. The flag tells whether one has started; it ends with an `m`. -/
def Style.plainFrom (inside : Bool) : List Char → List Char
  | [] => []
  | c :: cs =>
    if inside then plainFrom (c ≠ 'm') cs
    else if c = '\x1b' then plainFrom true cs
    else c :: plainFrom false cs

def Style.plain (cs : List Char) : List Char := plainFrom false cs

theorem Style.plain_append {text : List Char} (h : '\x1b' ∉ text) (rest : List Char) :
    plain (text ++ rest) = text ++ plain rest := by
  induction text with
  | nil => rfl
  | cons c text ih =>
    have hc : c ≠ '\x1b' := fun heq => h (heq ▸ List.mem_cons_self)
    have ih := ih fun hmem => h (List.mem_cons_of_mem c hmem)
    simp only [plain, List.cons_append, plainFrom, Bool.false_eq_true, if_false, hc] at ih ⊢
    rw [ih]

theorem Style.plain_colour_append (c : Colour) {text : String} (h : '\x1b' ∉ text.toList)
    (rest : List Char) : plain ((colour c text).toList ++ rest) = text.toList ++ plain rest := by
  have hon : ∀ cs, plain ((control c.parameter).toList ++ cs) = plain cs := by
    intro cs
    cases c <;> rfl
  have hoff : plain ((control "39").toList ++ rest) = plain rest := rfl
  rw [colour, String.toList_append, String.toList_append, List.append_assoc, List.append_assoc, hon,
    plain_append h, hoff]

/-! ## Rows -/

namespace Listing

inductive Row where
  | rule
  | label (name : String)
  | cell (address : Nat) (value : Word) (body : List Char)
  deriving DecidableEq, Repr

namespace Row

/-- Reads a row with the name of a label. -/
def readLabel? (row : List Char) : Option Row := do
  let rest ← ("       |          | " ++ Style.control "32" ++ ":").toList.isPrefixOf? row
  let name ← (Style.control "39").toList.isSuffixOf? rest
  return label (String.ofList name)

/-- Reads a row with a cell: an address in brackets, a value of eight digits and the meaning. -/
def readCell? (row : List Char) : Option Row := do
  let rest ← ['['].isPrefixOf? row
  let address ← Numeral.natural? 16 (rest.takeWhile (· ≠ ']'))
  let rest ← "] | ".toList.isPrefixOf? (rest.dropWhile (· ≠ ']'))
  let value ← Numeral.natural? 16 (rest.take 8)
  let body ← " | ".toList.isPrefixOf? (rest.drop 8)
  return cell address (BitVec.ofNat 32 value) body

def read? (row : List Char) : Option Row :=
  if row = Listing.rule.toList then some rule else (readLabel? row).or (readCell? row)

theorem isPrefixOf?_append (front rest : List Char) :
    front.isPrefixOf? (front ++ rest) = some rest :=
  List.isPrefixOf?_eq_some_iff_append_eq.2 rfl

theorem isSuffixOf?_append (rest back : List Char) :
    back.isSuffixOf? (rest ++ back) = some rest :=
  List.isSuffixOf?_eq_some_iff_append_eq.2 rfl

theorem read?_rule : read? Listing.rule.toList = some rule := if_pos rfl

/-- A row is told from a rule by its first character. -/
theorem read?_of_head? {row : List Char} {c : Char} (h : row.head? = some c) (hc : c ≠ '-') :
    read? row = (readLabel? row).or (readCell? row) := by
  have hrule : row ≠ Listing.rule.toList := by
    intro heq
    have hhead : Listing.rule.toList.head? = some '-' := by decide
    rw [heq, hhead] at h
    exact hc (Option.some.inj h).symm
  exact if_neg hrule

theorem readLabel?_labelRow (name : String) :
    readLabel? (labelRow name).toList = some (label name) := by
  have htext : (labelRow name).toList =
      ("       |          | " ++ Style.control "32" ++ ":").toList ++
        (name.toList ++ (Style.control "39").toList) := by
    unfold labelRow Style.colour Colour.parameter
    simp only [String.toList_append, List.append_assoc]
  simp only [readLabel?, htext, isPrefixOf?_append, isSuffixOf?_append, Option.bind_eq_bind,
    Option.bind_some, Option.pure_def, String.ofList_toList]

theorem read?_labelRow (name : String) : read? (labelRow name).toList = some (label name) := by
  have hhead : (labelRow name).toList.head? = some ' ' := by
    have hfront : "       |          | ".toList.head? = some ' ' := by decide
    unfold labelRow
    rw [String.toList_append, List.head?_append, hfront, Option.some_or]
  rw [read?_of_head? hhead (by decide), readLabel?_labelRow, Option.some_or]

theorem readCell?_cellRow (address : Nat) (c : Cell Word) (entries : List Entry) :
    readCell? (cellRow address c entries).toList =
      some (cell address c.content (body c entries).toList) := by
  have htext : (cellRow address c entries).toList =
      ['['] ++ (Numeral.hex 4 address ++ ("] | ".toList ++
        (Numeral.hex 8 c.content.toNat ++ (" | ".toList ++ (body c entries).toList)))) := by
    simp [cellRow]
  have hbracket : ∀ x ∈ Numeral.hex 4 address, decide (x ≠ ']') = true := by
    intro x hx
    have hne : x ≠ ']' := fun heq => Numeral.not_mem_hex (by decide) (heq ▸ hx)
    simpa using hne
  have hstop (rest : List Char) :
      (Numeral.hex 4 address ++ ("] | ".toList ++ rest)).takeWhile (· ≠ ']') =
          Numeral.hex 4 address ∧
        (Numeral.hex 4 address ++ ("] | ".toList ++ rest)).dropWhile (· ≠ ']') =
          "] | ".toList ++ rest := by
    rw [List.takeWhile_append_of_pos hbracket, List.dropWhile_append_of_pos hbracket]
    exact ⟨List.append_nil _, rfl⟩
  have hlength := Numeral.length_hex_word c.content
  simp only [readCell?, htext, isPrefixOf?_append, Option.bind_eq_bind, Option.bind_some,
    Option.pure_def, hstop, Numeral.natural?_hex, List.take_left' hlength, List.drop_left' hlength,
    BitVec.ofNat_toNat, BitVec.setWidth_eq]

theorem read?_cellRow (address : Nat) (c : Cell Word) (entries : List Entry) :
    read? (cellRow address c entries).toList =
      some (cell address c.content (body c entries).toList) := by
  have hhead : (cellRow address c entries).toList.head? = some '[' := by simp [cellRow]
  have hlabel : readLabel? (cellRow address c entries).toList = none := by
    obtain ⟨rest, hrest⟩ := List.head?_eq_some_iff.1 hhead
    rw [hrest]
    rfl
  rw [read?_of_head? hhead (by decide), hlabel, readCell?_cellRow, Option.none_or]

end Row

/-! ## Code -/

/-- The word whose opcodes are spelled in the body of a row. -/
def readCode? (body : List Char) : Option Word := do
  let words := (Text.splitOn ' ' (Style.plain body)).filter (!·.isEmpty)
  match ← words.mapM fun word => Opcode.ofMnemonic? (String.ofList word) with
  | [o0, o1, o2, o3] => some (Word.encode ⟨o0, o1, o2, o3⟩)
  | _ => none

theorem plain_red_mnemonic_append (o : Opcode) (rest : List Char) :
    Style.plain ((Style.colour .red (String.ofList (o.mnemonic.toList.rightpad 3 ' '))).toList ++
      rest) = o.mnemonic.toList ++ ' ' :: Style.plain rest := by
  have hpad : (String.ofList (o.mnemonic.toList.rightpad 3 ' ')).toList =
      o.mnemonic.toList ++ [' '] := by
    cases o <;> rfl
  have hescape : '\x1b' ∉ o.mnemonic.toList ++ [' '] := by
    cases o <;> decide
  rw [Style.plain_colour_append .red (hpad ▸ hescape), hpad, List.append_assoc]
  rfl

/-- Without its colours the body of a code cell has two blanks between mnemonics. -/
theorem plain_codeBody (s0 s1 s2 s3 : Opcode) :
    Style.plain (codeBody ⟨s0, s1, s2, s3⟩).toList =
      s0.mnemonic.toList ++ ' ' :: ' ' :: (s1.mnemonic.toList ++ ' ' :: ' ' ::
        (s2.mnemonic.toList ++ ' ' :: ' ' :: (s3.mnemonic.toList ++ [' ']))) := by
  have hblank : ∀ rest, Style.plain (" ".toList ++ rest) = ' ' :: Style.plain rest := fun _ => rfl
  have hlast := plain_red_mnemonic_append s3 []
  rw [List.append_nil] at hlast
  simp only [codeBody, Slots.toList, List.map_cons, List.map_nil, String.toList_intercalate,
    List.intercalate_cons_cons, List.intercalate_singleton, List.append_assoc,
    plain_red_mnemonic_append, hblank, hlast]
  rfl

theorem readCode?_codeBody (slots : Slots Opcode) :
    readCode? (codeBody slots).toList = some (Word.encode slots) := by
  have hspace : ∀ o : Opcode, ' ' ∉ o.mnemonic.toList := by
    intro o
    cases o <;> decide
  have hword : ∀ o : Opcode, o.mnemonic.toList.isEmpty = false := by
    intro o
    cases o <;> decide
  obtain ⟨s0, s1, s2, s3⟩ := slots
  have hsplit : (Text.splitOn ' ' (Style.plain (codeBody ⟨s0, s1, s2, s3⟩).toList)).filter
      (!·.isEmpty) = [s0, s1, s2, s3].map (·.mnemonic.toList) := by
    have hend : Text.splitOn ' ' [] = [[]] := rfl
    simp [plain_codeBody, Text.splitOn_append_cons (hspace _), Text.splitOn_cons_self, hend, hword]
  rw [readCode?, hsplit]
  simp

end Listing

end PackedStack
