import PackedStack.Assembly.State

/-!
# Sessions

A session gives lines to the first pass one at a time and keeps the state between them. A line that
is no statement is reported, and the next line is read as if it had not been there.
-/

namespace PackedStack

/-- An action on the state of the first pass. What it has changed before it fails stays changed. -/
abbrev Session := ExceptT Error (StateM State)

/-- Reads a line into the state. -/
def Session.readLine (line : Line) : Session Unit := do
  match Statement.parse line.text with
  | .ok statement => modify fun s => s.execute line statement
  | .error cause => throw ((Error.ofCause cause).locatedAt line)

end PackedStack
