import PackedStack.Image.Draft
import PackedStack.Symbol.Labels

/-!
# The first pass

The first pass reads statements in order and lays out cells, map entries and labels. It starts with
two instructions that jump to the label `main`, whose address is not known yet.
-/

namespace PackedStack

/-- A label that was defined again. References go to the first definition. -/
structure Redefinition where
  name : String
  line : Line
  first : Definition
  deriving DecidableEq, Repr

/-- What the first pass knows after some lines. -/
structure State where
  draft : Draft
  labels : Labels
  /-- The address of the cell that is to hold the address of `main`. -/
  entry : Nat
  /-- The name for the image file that the source gives. -/
  output : Option String
  warnings : Array Redefinition
  deriving DecidableEq, Repr

namespace State

/-- The name of the label at which a program starts. -/
def entryLabel : String := "main"

/-- Pushes the address of `main` and jumps there. -/
def bootstrap : List (Instruction Operand) :=
  [⟨.lit, some (.token ("&" ++ entryLabel))⟩, ⟨.jump, none⟩]

def initial : State where
  draft := bootstrap.foldl Draft.feed Draft.empty
  labels := .empty
  entry := Draft.empty.here + 1
  output := none
  warnings := #[]

/-- The address of the next cell. Instructions that wait in the queue do not count. -/
def here (s : State) : Nat := s.draft.here

/-- Defines a label at the address after everything that waits. The map has an entry for each
definition, also for one that is not the first. -/
def defineLabel (s : State) (name : String) (line : Line) : State :=
  let draft := s.draft.flush
  let offset := draft.here
  { s with
    draft := draft.lay (.label name)
    labels := s.labels.define name ⟨offset, line⟩
    warnings := match s.labels.find? name with
      | some first => s.warnings.push ⟨name, line, first⟩
      | none => s.warnings }

/-- Carries out a statement that stands on the given line. -/
def execute (s : State) (line : Line) : Statement → State
  | .label name => s.defineLabel name line
  | .instruction i => { s with draft := s.draft.feed i }
  | .output path => { s with output := some path }
  | .data operand => { s with draft := s.draft.place (.data operand) }
  | .packing mode => { s with draft := s.draft.setPacking mode }
  | .text content => { s with draft := s.draft.place (.text content) }
  | .allocate count => { s with draft := s.draft.place (.zeros count) }

/-- Reads a line. Text that is no statement is an error located at the line. -/
def readLine (s : State) (line : Line) : Except Error State :=
  match Statement.parse line.text with
  | .ok statement => .ok (s.execute line statement)
  | .error cause => .error ((Error.ofCause cause).locatedAt line)

end State

end PackedStack
