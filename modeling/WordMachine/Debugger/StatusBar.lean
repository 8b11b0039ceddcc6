import WordMachine.Debugger.Theme
import WordMachine.Screen

/-!
# Status bar

One row: on the left the position in the history and a message, on the right the keys and a sign for
where the walk is.
-/

namespace WordMachine.StatusBar

/-- What the bar shows. -/
structure Content where
  message : String
  position : Nat
  total : Nat
  hasError : Bool
  playing : Bool

/-- Text on the background of the bar. -/
def onBar (colour : Colour) : Style := (Style.ofColour colour).on Theme.currentLine

/-- The left half. -/
def left (c : Content) : Line :=
  let stepColour := if c.hasError then Theme.error else Theme.primary
  let messageColour := if c.hasError then Theme.error else Theme.plain
  { spans :=
      [⟨s!" Step {c.position + 1}/{c.total} ", ((Style.ofColour .black).on stepColour).inBold⟩,
       ⟨" | ", onBar Theme.comment⟩,
       ⟨s!" {c.message} ", onBar messageColour⟩] }

/-- The sign for where the walk is, with its colour. -/
def sign? (c : Content) : Option (String × Colour) :=
  if c.playing then some (" ▶ PLAYING ", Theme.secondary)
  else if c.total ≤ c.position + 1 then some (" END ", Theme.error)
  else if c.position = 0 then some (" START ", Theme.success)
  else none

/-- The keys with what they do. -/
def keys : List Span :=
  let key (text : String) : Span := ⟨text, (Style.ofColour .black).on Theme.comment⟩
  let use (text : String) : Span := ⟨text, onBar Theme.plain⟩
  let bar : Span := ⟨"│", onBar Theme.comment⟩
  [key " ←/→ ", use " step ", bar, use " ", key " ⎵ ", use " play ", bar, use " ",
   key " ↵ / ⌫ ", use " end/start ", bar, use " ", key "q", use " quit "]

/-- The right half. -/
def right (c : Content) : Line :=
  match sign? c with
  | some (text, colour) =>
    { spans := keys ++
        [⟨"│", onBar Theme.comment⟩, ⟨text, ((Style.ofColour .black).on colour).inBold⟩] }
  | none => { spans := keys }

/-- Draws the bar. -/
def draw (screen : Screen) (a : Area) (c : Content) : Screen :=
  let (leftHalf, rightHalf) := a.splitColumns (Area.percent 50 a.width)
  let background : Style := { bg := some Theme.currentLine }
  let screen := (screen.paint leftHalf background).write leftHalf false [left c]
  (screen.paint rightHalf background).write rightHalf true [right c]

end WordMachine.StatusBar
