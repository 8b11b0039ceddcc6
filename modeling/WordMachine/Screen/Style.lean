/-!
# Styles

The colours and weight of a text. A style may leave a colour open; laid over another style, it changes
only what it sets.
-/

namespace WordMachine

/-- A colour; `reset` is what the terminal shows by itself. -/
inductive Colour where
  | reset
  | black
  | white
  | rgb (red green blue : Nat)
  deriving DecidableEq, Repr

namespace Colour

/-- A number below 256 as two hexadecimal digits. -/
def hexByte (n : Nat) : String := String.ofList [Nat.digitChar (n / 16), Nat.digitChar (n % 16)]

/-- The name of a colour: a word, or its red, green and blue parts in hexadecimal. -/
def name : Colour → String
  | reset => "reset"
  | black => "black"
  | white => "white"
  | rgb red green blue => "#" ++ hexByte red ++ hexByte green ++ hexByte blue

end Colour

/-- What a text sets: its colour, the colour behind it, and whether it is bold. -/
structure Style where
  fg : Option Colour := none
  bg : Option Colour := none
  bold : Bool := false
  deriving DecidableEq, Repr

namespace Style

/-- The style that sets a colour only. -/
def ofColour (colour : Colour) : Style := { fg := some colour }

/-- The style with a colour behind the text. -/
def on (s : Style) (colour : Colour) : Style := { s with bg := some colour }

/-- The style in bold. -/
def inBold (s : Style) : Style := { s with bold := true }

end Style

/-- A stretch of text in one style. -/
structure Span where
  text : String
  style : Style := {}
  deriving DecidableEq, Repr

/-- A line of text: its spans, and a style for the whole row that they stand in. -/
structure Line where
  spans : List Span
  row : Style := {}
  deriving DecidableEq, Repr

/-- The number of characters in a line. -/
def Line.width (l : Line) : Nat := l.spans.foldl (fun n s => n + s.text.length) 0

end WordMachine
