/-!
# Terminal styles

Colours and other styles of text on a terminal. Each is switched on in front of the text and off
behind it.
-/

namespace PackedStack

inductive Colour where
  | red | green | yellow | blue | magenta | cyan
  deriving DecidableEq, Repr

/-- The parameter of the control sequence that switches a colour on. -/
def Colour.parameter : Colour → String
  | red => "31"
  | green => "32"
  | yellow => "33"
  | blue => "34"
  | magenta => "35"
  | cyan => "36"

namespace Style

/-- The control sequence with the given parameter. -/
def control (parameter : String) : String := "\x1b[" ++ parameter ++ "m"

def colour (c : Colour) (text : String) : String :=
  control c.parameter ++ text ++ control "39"

def underline (text : String) : String := control "4" ++ text ++ control "24"

/-- Bold text in a colour. The colour is switched off before the weight. -/
def heading (c : Colour) (text : String) : String :=
  control c.parameter ++ control "1" ++ text ++ control "39" ++ control "22"

end Style

end PackedStack
