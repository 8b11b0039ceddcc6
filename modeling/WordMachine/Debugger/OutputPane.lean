import WordMachine.Debugger.Pane
import WordMachine.Output

/-!
# Output pane

The output as lines of text.
-/

namespace WordMachine.OutputPane

/-- Draws the pane; returns the offset that it shows. Without output, the offset stays as it is. -/
def draw (screen : Screen) (a : Area) (values : List Word) (focused : Bool) (scroll : Nat) :
    Screen × Nat :=
  let title := " Output "
  match Output.render values with
  | [] =>
    let pane : Pane :=
      { title := title, focused := focused, lines := [{ spans := [⟨"(no output)", {}⟩] }],
        style := .ofColour Theme.comment }
    (pane.draw screen a, scroll)
  | texts =>
    let size := Pane.pageSize a.height
    let scroll := Pane.clampScroll scroll texts.length size
    let lines : List Line := (Pane.page texts scroll size).map fun text =>
      { spans := [⟨text, {}⟩], row := .ofColour Theme.plain }
    let pane : Pane := { title := title, focused := focused, lines := lines, indent := 1 }
    (pane.draw screen a, scroll)

end WordMachine.OutputPane
