import Mathlib.Data.List.Basic
import PackedStack.Proofs.Assembly.FirstPass
import PackedStack.Proofs.Failure

/-!
# The statements of a source

What the lines of a source say, apart from how they are assembled: the names of its labels, its
instructions and the texts of its operands, in the order of the lines. Reading all lines fails at
the first line that is no statement (`Source.failure?_read`), and the first pass over the lines is
the first pass over their statements (`State.foldlM_readLine`). A statement is read from the first
characters of its line and the text after the first word (`Statement.readFrom_of_parse`), and an
instruction has an operand exactly if it pushes a literal (`Statement.proper_of_parse`).
-/

namespace PackedStack

/-- The instruction with its operand changed. -/
def Instruction.map {α β : Type} (f : α → β) (i : Instruction α) : Instruction β :=
  ⟨i.opcode, i.operand.map f⟩

/-- An instruction has an operand exactly if it pushes a literal. -/
def Instruction.Proper {α : Type} (i : Instruction α) : Prop :=
  i.operand.isSome ↔ i.opcode = .lit

theorem Instruction.Proper.map {α β : Type} {f : α → β} {i : Instruction α} (h : i.Proper) :
    (i.map f).Proper := by
  simpa [Proper, Instruction.map] using h

namespace Statement

def labelName? : Statement → Option String
  | label name => some name
  | _ => none

def instruction? : Statement → Option (Instruction Operand)
  | instruction i => some i
  | _ => none

/-- The operands that a statement puts into the image. -/
def operands : Statement → List Operand
  | instruction i => i.operand.toList
  | data operand => [operand]
  | _ => []

theorem labelName?_eq_some_iff {s : Statement} {name : String} :
    s.labelName? = some name ↔ s = .label name := by
  cases s <;> simp [labelName?]

theorem instruction?_eq_some_iff {s : Statement} {i : Instruction Operand} :
    s.instruction? = some i ↔ s = .instruction i := by
  cases s <;> simp [instruction?]

theorem requireOperand_eq_ok {word rest : List Char} {text : String}
    (h : requireOperand word rest = .ok text) : text = String.ofList rest := by
  rw [requireOperand] at h
  split at h
  · cases h
  · cases h; rfl

theorem ne_nil_of_requireOperand_eq_ok {word rest : List Char} {text : String}
    (h : requireOperand word rest = .ok text) : rest ≠ [] := by
  rintro rfl
  cases h

/-- A count that is read fits the positive half of a word. -/
theorem lt_of_parseCount_eq_ok {text : String} {count : Nat} (h : parseCount text = .ok count) :
    count < 0x80000000 := by
  rw [parseCount] at h
  split at h
  · rename_i w _
    split at h
    · rename_i hnonneg
      cases h
      rw [BitVec.toInt_eq_toNat_cond] at hnonneg
      have hlt := w.isLt
      split at hnonneg <;> omega
    · cases h
  · cases h

/-- A statement that can be read from the characters of a line, with the part of the line that it is
read from. -/
inductive ReadFrom (cs : List Char) : Statement → Prop where
  | label {name : List Char} (h : cs = ':' :: name) : ReadFrom cs (.label (String.ofList name))
  | instruction {opcode : Opcode} (h : opcode ≠ .lit) : ReadFrom cs (.instruction ⟨opcode, none⟩)
  | literal {w : List Char} (h : cs = 'l' :: 'i' :: w) (hne : Text.afterFirstWord cs ≠ []) :
    ReadFrom cs (.instruction ⟨.lit, some (.parse (String.ofList (Text.afterFirstWord cs)))⟩)
  | output (hne : Text.afterFirstWord cs ≠ []) :
    ReadFrom cs (.output (String.ofList (Text.afterFirstWord cs)))
  | data {w : List Char} (h : cs = '.' :: 'd' :: w) (hne : Text.afterFirstWord cs ≠ []) :
    ReadFrom cs (.data (.parse (String.ofList (Text.afterFirstWord cs))))
  | packing (mode : Packing) : ReadFrom cs (.packing mode)
  | text : ReadFrom cs (.text (String.ofList (Text.afterFirstWord cs)))
  | allocate {count : Nat} (h : count < 0x80000000) : ReadFrom cs (.allocate count)

theorem readFrom_of_parse {line : String} {s : Statement} (h : parse line = .ok s) :
    ReadFrom line.toList s := by
  simp only [parse] at h
  split at h
  · rename_i hline
    cases h
    exact .label hline
  · rename_i hline
    simp only [parseDirective] at h
    split at h
    · obtain ⟨operand, hoperand, rfl⟩ := map_eq_ok_iff.1 h
      rw [requireOperand_eq_ok hoperand]
      exact .output (ne_nil_of_requireOperand_eq_ok hoperand)
    · obtain ⟨operand, hoperand, rfl⟩ := map_eq_ok_iff.1 h
      rw [requireOperand_eq_ok hoperand]
      exact .data hline (ne_nil_of_requireOperand_eq_ok hoperand)
    · cases h
      exact .packing .packed
    · cases h
      exact .packing .unpacked
    · cases h
      exact .text
    · obtain ⟨operand, -, h⟩ := bind_eq_ok_iff.1 h
      obtain ⟨count, hcount, h⟩ := bind_eq_ok_iff.1 h
      cases h
      exact .allocate (lt_of_parseCount_eq_ok hcount)
    · cases h
  · simp only [parseInstruction] at h
    split at h
    · rename_i hlit
      obtain ⟨operand, hoperand, rfl⟩ := map_eq_ok_iff.1 h
      have htake : line.toList.take 2 = ['l', 'i'] := by
        rw [← String.toList_ofList (l := line.toList.take 2),
          ← Opcode.ofMnemonic?_eq_some_iff.1 hlit]
        decide
      have hline : line.toList = 'l' :: 'i' :: line.toList.drop 2 := by
        have hsplit := List.take_append_drop 2 line.toList
        rw [htake] at hsplit
        exact hsplit.symm
      rw [requireOperand_eq_ok hoperand]
      exact .literal hline (ne_nil_of_requireOperand_eq_ok hoperand)
    · rename_i opcode hne _
      cases h
      exact .instruction hne
    · cases h

/-- What a line can say, as far as instructions and operands go. -/
theorem parse_cases {line : String} {s : Statement} (h : parse line = .ok s) :
    s = .data (.parse (String.ofList (Text.afterFirstWord line.toList))) ∨
      s = .instruction ⟨.lit, some (.parse (String.ofList (Text.afterFirstWord line.toList)))⟩ ∨
      (∃ opcode, opcode ≠ .lit ∧ s = .instruction ⟨opcode, none⟩) ∨
      (s.operands = [] ∧ s.instruction? = none) := by
  cases readFrom_of_parse h with
  | data => exact .inl rfl
  | literal => exact .inr (.inl rfl)
  | instruction hne => exact .inr (.inr (.inl ⟨_, hne, rfl⟩))
  | _ => exact .inr (.inr (.inr ⟨rfl, rfl⟩))

theorem parse_label {text : String} {name : List Char} (h : text.toList = ':' :: name) :
    parse text = .ok (.label (String.ofList name)) := by
  simp only [parse, h]

/-- A line that starts with a dot is a directive. -/
theorem parse_directive {text : String} {afterDot : List Char} (h : text.toList = '.' :: afterDot) :
    parse text = parseDirective afterDot (Text.firstWord text.toList)
      (Text.afterFirstWord text.toList) := by
  simp only [parse, h]

theorem requireOperand_of_ne_nil {word rest : List Char} (h : rest ≠ []) :
    requireOperand word rest = .ok (String.ofList rest) := by
  rw [requireOperand, if_neg (by simpa using h)]

theorem parse_data {text : String} {w : List Char} (h : text.toList = '.' :: 'd' :: w)
    (hne : Text.afterFirstWord text.toList ≠ []) :
    parse text = .ok (data (.parse (String.ofList (Text.afterFirstWord text.toList)))) := by
  rw [parse_directive h, parseDirective, requireOperand_of_ne_nil hne]
  rfl

theorem parse_lit {text : String} {w : List Char} (h : text.toList = 'l' :: 'i' :: w)
    (hne : Text.afterFirstWord text.toList ≠ []) :
    parse text = .ok (instruction ⟨.lit,
      some (.parse (String.ofList (Text.afterFirstWord text.toList)))⟩) := by
  have hlit : Opcode.ofMnemonic? (String.ofList (text.toList.take 2)) = some .lit := by
    rw [h]
    rfl
  have hparse : parse text = parseInstruction text.toList (Text.firstWord text.toList)
      (Text.afterFirstWord text.toList) := by
    simp only [parse, h]
    rfl
  rw [hparse, parseInstruction, hlit]
  show (requireOperand _ _).map _ = _
  rw [requireOperand_of_ne_nil hne]
  rfl

theorem parseCount_decimal {n : Nat} (h : n < 0x80000000) :
    parseCount (String.ofList (Numeral.decimal n)) = .ok n := by
  have hinteger : Numeral.integer? (Numeral.decimal n) = some (n : Int) :=
    Numeral.integer?_signed (n : Int)
  have hword : Word.parse? (String.ofList (Numeral.decimal n)) = some (BitVec.ofNat 32 n) := by
    rw [Word.parse?, String.toList_ofList, hinteger, Option.bind_some, Word.ofInt?,
      if_pos (by omega)]
    rfl
  have hnat : (BitVec.ofNat 32 n).toNat = n := by
    rw [BitVec.toNat_ofNat]
    omega
  have hnonneg : 0 ≤ (BitVec.ofNat 32 n).toInt := by
    rw [BitVec.toInt_eq_toNat_of_lt (by omega)]
    omega
  rw [parseCount, hword]
  show (if 0 ≤ (BitVec.ofNat 32 n).toInt then _ else _) = _
  rw [if_pos hnonneg, hnat]

theorem parse_count {text : String} {w : List Char} (h : text.toList = '.' :: 'a' :: w)
    {count : Nat}
    (hcount : count < 0x80000000)
    (hafter : Text.afterFirstWord text.toList = Numeral.decimal count) :
    parse text = .ok (.allocate count) := by
  have hne : Numeral.decimal count ≠ [] := by simp [Numeral.decimal]
  rw [parse_directive h, hafter]
  show (requireOperand _ (Numeral.decimal count) >>= fun operand => parseCount operand >>= _) = _
  rw [requireOperand_of_ne_nil hne]
  show (parseCount (String.ofList (Numeral.decimal count)) >>= _) = _
  rw [parseCount_decimal hcount]
  rfl

theorem proper_of_parse {line : String} {i : Instruction Operand}
    (h : parse line = .ok (.instruction i)) : i.Proper := by
  rcases parse_cases h with heq | heq | ⟨opcode, hne, heq⟩ | ⟨-, heq⟩
  · cases heq
  · cases heq
    simp [Instruction.Proper]
  · cases heq
    simp [Instruction.Proper, hne]
  · cases heq

end Statement

namespace Line

/-- The text in which a line gives its operand, if its statement has one. -/
def operandText (line : Line) : String := String.ofList (Text.afterFirstWord line.text.toList)

/-- The statement that a line makes, if it makes one. -/
def statement? (line : Line) : Option Statement := (Statement.parse line.text).toOption

/-- The error that a line gives if it makes no statement. -/
def error? (line : Line) : Option Error :=
  (failure? (Statement.parse line.text)).map fun cause => (Error.ofCause cause).locatedAt line

theorem statement?_eq_some_iff {line : Line} {s : Statement} :
    line.statement? = some s ↔ Statement.parse line.text = .ok s := by
  rw [statement?]
  cases Statement.parse line.text <;> simp [Except.toOption]

end Line

namespace Source

/-! ## What a source says -/

def labelNames (lines : List Line) : List String :=
  lines.filterMap fun line => line.statement?.bind (·.labelName?)

/-- The instructions of a source with their operands as they are written. -/
def instructions (lines : List Line) : List (Instruction String) :=
  lines.filterMap fun line => do
    let i ← (← line.statement?).instruction?
    return ⟨i.opcode, i.operand.map fun _ => line.operandText⟩

/-- The operands of a source as they are written. -/
def operandTexts (lines : List Line) : List String :=
  lines.flatMap fun line =>
    (line.statement?.elim [] (·.operands)).map fun _ => line.operandText

/-! ## Reading -/

/-- The lines of a source with their statements. -/
def read (lines : List Line) : Except Error (List (Line × Statement)) :=
  lines.mapM fun line =>
    match Statement.parse line.text with
    | .ok s => .ok (line, s)
    | .error cause => .error ((Error.ofCause cause).locatedAt line)

theorem read_append {lines lines' : List Line} {program program' : List (Line × Statement)}
    (h : read lines = .ok program) (h' : read lines' = .ok program') :
    read (lines ++ lines') = .ok (program ++ program') := by
  rw [read, List.mapM_append, ← read, ← read, h, h']
  rfl

theorem read_cons {line : Line} {s : Statement} {lines : List Line}
    {program : List (Line × Statement)} (hs : Statement.parse line.text = .ok s)
    (h : read lines = .ok program) : read (line :: lines) = .ok ((line, s) :: program) := by
  rw [read, List.mapM_cons, ← read, h, hs]
  rfl

theorem failure?_read (lines : List Line) :
    failure? (read lines) = lines.findSome? (·.error?) := by
  rw [read, failure?_mapM]
  congr 1
  funext line
  rw [Line.error?]
  cases Statement.parse line.text <;> rfl

/-- Reading keeps the lines and gives each its statement. -/
theorem of_read_eq_ok {lines : List Line} {program : List (Line × Statement)}
    (h : read lines = .ok program) :
    lines = program.map (·.1) ∧ ∀ p ∈ program, Statement.parse p.1.text = .ok p.2 := by
  induction lines generalizing program with
  | nil => cases h; simp
  | cons line lines ih =>
    rw [read, List.mapM_cons] at h
    obtain ⟨p, hp, hrest⟩ := bind_eq_ok_iff.1 h
    obtain ⟨program', hprogram, hcons⟩ := bind_eq_ok_iff.1 hrest
    obtain ⟨rfl, hall⟩ := ih hprogram
    cases hcons
    cases hline : Statement.parse line.text with
    | error cause => rw [hline] at hp; cases hp
    | ok s =>
      rw [hline] at hp
      cases hp
      refine ⟨rfl, fun q hq => ?_⟩
      rcases List.mem_cons.1 hq with rfl | hq
      · exact hline
      · exact hall q hq

theorem read_of_parse {program : List (Line × Statement)}
    (h : ∀ p ∈ program, Statement.parse p.1.text = .ok p.2) :
    read (program.map (·.1)) = .ok program := by
  induction program with
  | nil => rfl
  | cons p program ih =>
    exact read_cons (h p List.mem_cons_self) (ih fun q hq => h q (List.mem_cons_of_mem p hq))

/-! ## What a source says, by its statements -/

section

variable {program : List (Line × Statement)}

/-- What is told by the lines of a source is told by its statements. -/
theorem filterMap_of_parse {α : Type} (h : ∀ p ∈ program, Statement.parse p.1.text = .ok p.2)
    (f : Statement → Option α) :
    (program.map (·.1)).filterMap (fun line => line.statement?.bind f) =
      (program.map (·.2)).filterMap f := by
  rw [List.filterMap_map, List.filterMap_map]
  refine List.filterMap_congr fun p hp => ?_
  simp [Line.statement?, h p hp, Except.toOption]

theorem labelNames_of_parse (h : ∀ p ∈ program, Statement.parse p.1.text = .ok p.2) :
    labelNames (program.map (·.1)) = (program.map (·.2)).filterMap (·.labelName?) :=
  filterMap_of_parse h (·.labelName?)

theorem map_parse_instructions (h : ∀ p ∈ program, Statement.parse p.1.text = .ok p.2) :
    (instructions (program.map (·.1))).map (Instruction.map Operand.parse) =
      (program.map (·.2)).filterMap (·.instruction?) := by
  rw [instructions, List.filterMap_map, List.map_filterMap, List.filterMap_map]
  refine List.filterMap_congr fun p hp => ?_
  have hp := h p hp
  simp only [Function.comp, Line.statement?, hp, Except.toOption]
  rcases Statement.parse_cases hp with heq | heq | ⟨opcode, -, heq⟩ | ⟨-, heq⟩
  · simp [heq, Statement.instruction?]
  · simp [heq, Statement.instruction?, Instruction.map, Line.operandText]
  · simp [heq, Statement.instruction?, Instruction.map]
  · simp [heq]

theorem map_parse_operandTexts (h : ∀ p ∈ program, Statement.parse p.1.text = .ok p.2) :
    (operandTexts (program.map (·.1))).map Operand.parse =
      (program.map (·.2)).flatMap (·.operands) := by
  rw [operandTexts, List.flatMap_map, List.map_flatMap, List.flatMap_map]
  refine List.flatMap_congr fun p hp => ?_
  have hp := h p hp
  simp only [Line.statement?, hp, Except.toOption]
  rcases Statement.parse_cases hp with heq | heq | ⟨opcode, -, heq⟩ | ⟨heq, -⟩
  · simp [heq, Statement.operands, Line.operandText]
  · simp [heq, Statement.operands, Line.operandText]
  · simp [heq, Statement.operands]
  · simp [heq]

end

end Source

namespace State

theorem foldlM_readLine (s : State) (lines : List Line) :
    lines.foldlM readLine s = (Source.read lines).map s.run := by
  induction lines generalizing s with
  | nil => rfl
  | cons line lines ih =>
    rw [List.foldlM_cons, readLine, Source.read, List.mapM_cons, ← Source.read]
    cases Statement.parse line.text with
    | error cause => rfl
    | ok st =>
      have hrest := ih (s.execute line st)
      cases hread : Source.read lines <;> rw [hread] at hrest <;> exact hrest

end State

end PackedStack
