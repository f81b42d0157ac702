import PackedStack.Report.Error
import PackedStack.Source.Operand
import PackedStack.Text.Blank

/-!
# Statements

What a line of source says: a label, an instruction or a directive. The first character tells the
three apart. An instruction is known by its first two characters and a directive by the character
after its dot, so that both may be spelled out in full; only some of them look at the text after the
first word. `Statement.spell` gives the shortest spelling of a statement.
-/

namespace PackedStack

/-- An opcode and what it pushes, if it pushes anything. -/
structure Instruction (α : Type) where
  opcode : Opcode
  operand : Option α
  deriving DecidableEq, Repr

/-- Whether instructions share words or each get a cell of their own. -/
inductive Packing where
  | packed
  | unpacked
  deriving DecidableEq, Repr

inductive Statement where
  | label (name : String)
  | instruction (i : Instruction Operand)
  /-- Names the image file. -/
  | output (path : String)
  | data (operand : Operand)
  | packing (mode : Packing)
  /-- One cell for each character, and a zero after the last. -/
  | text (content : String)
  /-- A number of cells that hold zero. -/
  | allocate (count : Nat)
  deriving DecidableEq, Repr

namespace Statement

/-- The text after the first word, for statements that need one. -/
def requireOperand (word rest : List Char) : Except Cause String :=
  if rest.isEmpty then .error (.missingOperand (String.ofList word))
  else .ok (String.ofList rest)

/-- The number of cells that the operand of an allocation asks for. -/
def parseCount (text : String) : Except Cause Nat :=
  match Word.parse? text with
  | some w => if 0 ≤ w.toInt then .ok w.toNat else .error (.invalidOperand text "count")
  | none => .error (.invalidOperand text "count")

/-- A directive, from the characters after its dot, the first word and the text after it. -/
def parseDirective (afterDot word rest : List Char) : Except Cause Statement :=
  match afterDot with
  | 'o' :: _ => (requireOperand word rest).map output
  | 'd' :: _ => (requireOperand word rest).map fun text => data (Operand.parse text)
  | 'p' :: _ => .ok (packing .packed)
  | 'u' :: _ => .ok (packing .unpacked)
  | 's' :: _ => .ok (text (String.ofList rest))
  | 'a' :: _ => do return allocate (← parseCount (← requireOperand word rest))
  | _ => .error (.unknownDirective (String.ofList word))

/-- An instruction, from the characters of its line, the first word and the text after it. -/
def parseInstruction (line word rest : List Char) : Except Cause Statement :=
  match Opcode.ofMnemonic? (String.ofList (line.take 2)) with
  | some .lit =>
    (requireOperand word rest).map fun text => instruction ⟨.lit, some (Operand.parse text)⟩
  | some opcode => .ok (instruction ⟨opcode, none⟩)
  | none => .error (.unknownInstruction (String.ofList word))

/-- What a line says. The line is taken as it is, blank characters in front included. -/
def parse (line : String) : Except Cause Statement :=
  let cs := line.toList
  match cs with
  | ':' :: name => .ok (label (String.ofList name))
  | '.' :: afterDot => parseDirective afterDot (Text.firstWord cs) (Text.afterFirstWord cs)
  | _ => parseInstruction cs (Text.firstWord cs) (Text.afterFirstWord cs)

/-- The shortest spelling of a statement. -/
def spell : Statement → String
  | label name => ":" ++ name
  | instruction ⟨opcode, none⟩ => opcode.mnemonic
  | instruction ⟨opcode, some operand⟩ => opcode.mnemonic ++ " " ++ operand.text
  | output path => ".o " ++ path
  | data operand => ".d " ++ operand.text
  | packing .packed => ".p"
  | packing .unpacked => ".u"
  | text content => ".s " ++ content
  | allocate count => ".a " ++ String.ofList (Numeral.decimal count)

end Statement

end PackedStack
