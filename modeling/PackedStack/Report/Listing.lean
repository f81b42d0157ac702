import PackedStack.Assembly.Basic
import PackedStack.Report.Style

/-!
# Listings

A listing shows an assembled image cell by cell: address, value and meaning. Labels stand in rows of
their own above the cell that they name. A code cell shows the mnemonics in its slots, any other
cell the map entries at its address.
-/

namespace PackedStack

namespace Listing

def rule : String := "-------+----------+--------------------------------------"

def labelRow (name : String) : String :=
  "       |          | " ++ Style.colour .green (":" ++ name)

/-- Four mnemonics, each three columns wide. -/
def codeBody (slots : Slots Opcode) : String :=
  " ".intercalate
    (slots.toList.map fun o => Style.colour .red (String.ofList (o.mnemonic.toList.rightpad 3 ' ')))

/-- What an entry that is no label says about its cell. -/
def note? (e : Entry) : Option String :=
  match e.kind with
  | .label => none
  | .pointer => some (Style.colour .cyan ("pointer -> " ++ e.value))
  | .raw => some (Style.colour .magenta ("raw " ++ e.value))
  | .literal => some (Style.colour .yellow ("literal " ++ e.value))

/-- The meaning of a cell, given the entries at its address. -/
def body (cell : Cell Word) (entries : List Entry) : String :=
  match cell.isCode, Word.decode? cell.content with
  | true, some slots => codeBody slots
  | _, _ => " ".intercalate (entries.filterMap note?)

def cellRow (address : Nat) (cell : Cell Word) (entries : List Entry) : String :=
  "[" ++ String.ofList (Numeral.hex 4 address) ++ "] | " ++
    String.ofList (Numeral.hex 8 cell.content.toNat) ++ " | " ++ body cell entries

/-- The rows for one cell, given the entries at its address. -/
def rowsAt (address : Nat) (cell : Cell Word) (entries : List Entry) : List String :=
  (entries.filter (·.kind == .label)).map (labelRow ·.value) ++ [cellRow address cell entries]

end Listing

/-- The rows of the listing between two rules. -/
def Assembly.listing (a : Assembly) : List String :=
  Listing.rule ::
    (a.image.toList.zipIdx.flatMap fun c =>
      Listing.rowsAt c.2 c.1 (a.map.filter (·.offset == c.2))) ++ [Listing.rule]

end PackedStack
