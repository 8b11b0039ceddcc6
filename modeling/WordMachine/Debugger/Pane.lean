import WordMachine.Debugger.Theme
import WordMachine.Screen

/-!
# Panes

A pane is a bordered part of the screen with a title. It shows a page of its lines; the page begins at
a scroll offset, which never leaves the last page part empty.
-/

namespace WordMachine

/-- What a pane shows: its lines stand `indent` columns from the border, and `style` is laid over
    everything before the border is drawn. -/
structure Pane where
  title : String
  focused : Bool
  lines : List Line
  indent : Nat := 0
  style : Style := {}

namespace Pane

/-- The style of a border. -/
def borderStyle (focused : Bool) : Style :=
  if focused then (Style.ofColour Theme.borderFocused).inBold else .ofColour Theme.borderNormal

/-- Draws a pane over an area. -/
def draw (p : Pane) (s : Screen) (a : Area) : Screen :=
  ((s.paint a p.style).frame a p.title (borderStyle p.focused)).write (a.inside p.indent) false p.lines

/-- The number of lines on a page of a pane with a height; there is always one. -/
def pageSize (height : Nat) : Nat := max (height - 2) 1

/-- The nearest offset with a full page, or the beginning if there is less than a page. -/
def clampScroll (offset total page : Nat) : Nat := if page < total then min offset (total - page) else 0

/-- The page that begins at an offset. -/
def page {α : Type} (items : List α) (offset size : Nat) : List α := (items.drop offset).take size

end Pane

end WordMachine
