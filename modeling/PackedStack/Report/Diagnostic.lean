import PackedStack.Assembly.State
import PackedStack.Report.Error
import PackedStack.Report.Style
import PackedStack.Text.Numeral

/-!
# Diagnostics

What is printed about an error or a warning: a heading with a text and, where there is one, the line
of source that it is about.
-/

namespace PackedStack

inductive Level where
  | error
  | warn
  | note
  deriving DecidableEq, Repr

namespace Level

def name : Level → String
  | error => "error"
  | warn => "warn"
  | note => "note"

def colour : Level → Colour
  | error => .red
  | warn => .yellow
  | note => .green

end Level

/-- A line in a named file. -/
structure Place where
  file : String
  line : Line
  deriving DecidableEq, Repr

structure Diagnostic where
  level : Level
  text : String
  place : Option Place
  deriving DecidableEq, Repr

namespace Place

/-- Four rows: where the line is, and the line between two empty rows. Its number is aligned to the
right in four columns. -/
def rows (p : Place) : List String :=
  let number := Numeral.decimal p.line.number
  let bar := "      " ++ Style.colour .blue "|"
  ["     " ++ Style.colour .blue "-->" ++ " " ++
      Style.underline (p.file ++ ":" ++ String.ofList number),
    bar,
    " " ++ Style.colour .blue (String.ofList (number.leftpad 4 ' ') ++ " |") ++ " " ++ p.line.text,
    bar]

end Place

namespace Diagnostic

def rows (d : Diagnostic) : List String :=
  (Style.heading d.level.colour d.level.name ++ ": " ++ d.text) ::
    (match d.place with
      | some place => place.rows
      | none => [])

end Diagnostic

/-- The error at its outermost line, or else a note on the fault of the system behind it. -/
def Error.diagnostics (file : String) (e : Error) : List Diagnostic :=
  match e.line? with
  | some line => [⟨.error, e.cause.message, some ⟨file, line⟩⟩]
  | none =>
    ⟨.error, e.cause.message, none⟩ ::
      e.cause.fault?.toList.map fun fault => ⟨.note, fault.text, none⟩

def Redefinition.diagnostics (file : String) (r : Redefinition) : List Diagnostic :=
  [⟨.warn, "Re-defined label: `" ++ r.name ++ "`", some ⟨file, r.line⟩⟩,
    ⟨.note, "Already defined here. References resolve to this definition.",
      some ⟨file, r.first.line⟩⟩]

/-- Rows as they are printed, each with a newline behind it. -/
def printRows (rows : List String) : String := String.join (rows.map (· ++ "\n"))

theorem toList_printRows_cons (row : String) (rows : List String) :
    (printRows (row :: rows)).toList = row.toList ++ '\n' :: (printRows rows).toList := by
  simp [printRows]

def printDiagnostics (ds : List Diagnostic) : String := printRows (ds.flatMap (·.rows))

end PackedStack
