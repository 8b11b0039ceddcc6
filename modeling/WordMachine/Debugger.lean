import WordMachine.Debugger.MemoryPane
import WordMachine.Debugger.OutputPane
import WordMachine.Debugger.ProgramPane
import WordMachine.Debugger.RegistersPane
import WordMachine.Debugger.StatusBar
import WordMachine.Recorder

/-!
# Debugger

A walk through a recorded run, by keys. The screen shows the snapshot at the present position: the
program, the output, the registers and the memory.

* `Debugger.press` -- what a key does;
* `Debugger.tick` -- what the clock does while the walk goes on by itself;
* `Debugger.draw` -- the screen. Drawing settles the scroll offsets.
-/

namespace WordMachine

/-! ## 1. State -/

/-- The pane that the arrow keys scroll. -/
inductive Focus where
  | program
  | memory
  | output
  deriving DecidableEq, Repr

namespace Focus

/-- The next pane: from the program to the output to the memory. -/
def next : Focus → Focus
  | program => output
  | output => memory
  | memory => program

/-- The pane before. -/
def previous : Focus → Focus
  | program => memory
  | output => program
  | memory => output

end Focus

/-- A key. -/
inductive Key where
  | left
  | right
  | up
  | down
  | tab
  | backTab
  | enter
  | backspace
  | char (c : Char)
  | other
  deriving DecidableEq, Repr

/-- The recorded run, the focus, the scroll offsets, the message, and whether the walk goes on by
    itself. -/
structure Debugger where
  recorder : Recorder
  focus : Focus
  programScroll : ProgramScroll
  memoryScroll : Nat
  outputScroll : Nat
  shouldQuit : Bool
  message : String
  playing : Bool

namespace Debugger

/-- The largest scroll offset, which stands for the end until the screen is drawn. -/
def farEnd : Nat := Word.countLimit

/-- The debugger of a recorded run. -/
def ofRecorder (r : Recorder) : Debugger where
  recorder := r
  focus := .program
  programScroll := {}
  memoryScroll := 0
  outputScroll := 0
  shouldQuit := false
  message :=
    match r.fault with
    | some e => s!"Stopped: {e.message}"
    | none => "Ready!"
  playing := false

/-! ## 2. Keys -/

/-- Goes forward at most `n` times; also counts how often it did. -/
def forwardBy : Nat → Recorder → Recorder × Nat
  | 0, r => (r, 0)
  | n + 1, r =>
    match r.forward? with
    | .ok r =>
      let (r, count) := forwardBy n r
      (r, count + 1)
    | .error _ => (r, 0)

/-- Reports a step in a direction. -/
def walk (d : Debugger) (direction : String) (result : Except Edge Recorder) : Debugger :=
  match result with
  | .ok r =>
    { d with recorder := r, playing := false, outputScroll := farEnd,
             message := s!"Stepped {direction}" }
  | .error e => { d with playing := false, message := s!"Cannot step {direction}: {e.message}" }

/-- Goes to another place at once. -/
def leap (d : Debugger) (r : Recorder) (message : String) : Debugger :=
  { d with recorder := r, playing := false, outputScroll := farEnd, message := message }

/-- Scrolls up. In the program this moves the current instruction down. -/
def scrollUp (d : Debugger) : Debugger :=
  match d.focus with
  | .program =>
    { d with programScroll :=
      { d.programScroll with
        targetRow := d.programScroll.targetRow.map fun row => min (row + 1) farEnd } }
  | .memory => { d with memoryScroll := d.memoryScroll - 1 }
  | .output => { d with outputScroll := d.outputScroll - 1 }

/-- Scrolls down. -/
def scrollDown (d : Debugger) : Debugger :=
  match d.focus with
  | .program =>
    { d with programScroll :=
      { d.programScroll with targetRow := d.programScroll.targetRow.map (· - 1) } }
  | .memory => { d with memoryScroll := min (d.memoryScroll + 1) farEnd }
  | .output => { d with outputScroll := min (d.outputScroll + 1) farEnd }

/-- Starts or stops the walk that goes on by itself. -/
def togglePlay (d : Debugger) : Debugger :=
  if d.playing then { d with playing := false, message := "Paused" }
  else { d with playing := true, message := "Playing..." }

/-- Goes forward as often as a digit says. -/
def jumpBy (d : Debugger) (n : Nat) : Debugger :=
  let (r, count) := forwardBy n d.recorder
  d.leap r s!"Stepped forward {count} step(s)"

/-- The number that a digit key from 1 to 9 stands for. -/
def stepDigit? (c : Char) : Option Nat :=
  if '1' ≤ c ∧ c ≤ '9' then some (c.toNat - '0'.toNat) else none

/-- What a character key does. -/
def pressChar (d : Debugger) (c : Char) : Debugger :=
  if c = 'q' ∨ c = 'Q' then { d with shouldQuit := true }
  else if c = ' ' then d.togglePlay
  else
    match stepDigit? c with
    | some n => d.jumpBy n
    | none => d

/-- What a key does. -/
def press (d : Debugger) : Key → Debugger
  | .char c => d.pressChar c
  | .tab => { d with focus := d.focus.next }
  | .backTab => { d with focus := d.focus.previous }
  | .left => d.walk "backward" d.recorder.backward?
  | .right => d.walk "forward" d.recorder.forward?
  | .up => d.scrollUp
  | .down => d.scrollDown
  | .enter => d.leap d.recorder.toEnd "Jumped to end"
  | .backspace => d.leap d.recorder.toStart "Jumped to start"
  | .other => d

/-- What happens when it is time for the next step of a walk that goes on by itself. -/
def tick (d : Debugger) : Debugger :=
  if d.playing then
    match d.recorder.forward? with
    | .ok r => { d with recorder := r, outputScroll := farEnd }
    | .error _ => { d with playing := false, message := "Playback complete" }
  else d

/-! ## 3. Drawing -/

/-- Draws the panes of a snapshot over an area. -/
def drawPanes (d : Debugger) (screen : Screen) (a : Area) (s : Snapshot) : Screen × Debugger :=
  let (leftSide, rightSide) := a.splitColumns (Area.percent 45 a.width)
  let (program, output) := leftSide.splitRows (Area.percent 70 leftSide.height)
  let (registers, memory) := rightSide.splitRows 10
  let r := d.recorder
  let atFault := r.fault.isSome && r.position + 1 == r.total
  let (screen, programScroll) :=
    ProgramPane.draw screen program s.memory s.pc atFault (d.focus = .program) d.programScroll
  let (screen, outputScroll) :=
    OutputPane.draw screen output s.output.toList (d.focus = .output) d.outputScroll
  let screen := RegistersPane.draw screen registers s false
  let (screen, memoryScroll) :=
    MemoryPane.draw screen memory s (d.focus = .memory) d.memoryScroll
  (screen, { d with
    programScroll := programScroll, outputScroll := outputScroll, memoryScroll := memoryScroll })

/-- Says over an area that there is nothing to show. -/
def drawNothing (screen : Screen) (a : Area) : Screen :=
  let pane : Pane :=
    { title := " Program ", focused := true,
      lines := [{ spans := [⟨"(nothing recorded)", {}⟩] }], style := .ofColour Theme.comment }
  pane.draw screen a

/-- Draws the whole screen, on a grid of the wanted size. -/
def draw (d : Debugger) (width height : Nat) : Screen × Debugger :=
  let grid := Area.grid width height
  let (body, bar) := grid.splitRows (grid.height - 1)
  let screen := Screen.blank grid.width grid.height
  let r := d.recorder
  let hasError := r.fault.isSome
  match r.current? with
  | none =>
    (StatusBar.draw (drawNothing screen body) bar ⟨d.message, 0, 0, hasError, false⟩, d)
  | some s =>
    let (screen, d) := d.drawPanes screen body s
    (StatusBar.draw screen bar ⟨d.message, r.position, r.total, hasError, d.playing⟩, d)

end Debugger

end WordMachine
