import WordMachine.Debugger.Pane
import WordMachine.History
import WordMachine.Text.Column

/-!
# Registers pane

The registers and counters of a snapshot, one in a row.
-/

namespace WordMachine.RegistersPane

/-- A row: the name of a value and the value. -/
def row (name value : String) (style : Style) : Line :=
  { spans := [⟨Text.flushLeft 16 name, .ofColour Theme.comment⟩, ⟨value, style⟩] }

/-- The status of a machine as text. -/
def status : Status → Span
  | .running => ⟨"running", .ofColour Theme.success⟩
  | .awaitingInput => ⟨"awaiting input", .ofColour Theme.secondary⟩
  | .halted => ⟨"halted", .ofColour Theme.error⟩

/-- The address last written and what is there now. -/
def lastWrite (s : Snapshot) : String :=
  match s.lastWrite with
  | some address => s!"[{address}] = {Word.decimal (s.memory.load address)}"
  | none => "-"

/-- All rows. -/
def lines (s : Snapshot) : List Line :=
  let number : Style := .ofColour Theme.number
  let state := status s.status
  [row "pc" (toString s.pc) number.inBold,
   row "relative base" (Word.decimal s.base) number,
   row "state" state.text state.style.inBold,
   row "step" (toString s.index) number,
   row "inputs read" (toString s.inputs) number,
   row "outputs" (toString s.output.size) number,
   row "last write" (lastWrite s) (.ofColour Theme.written),
   row "memory words" (toString s.memory.length) number]

/-- Draws the pane. -/
def draw (screen : Screen) (a : Area) (s : Snapshot) (focused : Bool) : Screen :=
  ({ title := " Registers ", focused := focused, lines := lines s, indent := 1 } : Pane).draw
    screen a

end WordMachine.RegistersPane
