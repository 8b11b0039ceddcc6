import WordMachine.Machine
import WordMachine.Turn

/-!
# Driving a machine

A machine is driven by stepping it until something has to be done from outside.

* `Machine.resume` -- up to the next output, request for input or halt;
* `Machine.run` -- up to the end: outputs are passed on through a channel, and requests are answered
  by the channel's provider.
-/

namespace WordMachine.Machine

variable {σ : Type}

/-! ## 1. Resuming -/

/-- Why a resumed machine hands back control. -/
inductive Pause where
  | output (value : Word)
  | needsInput
  | halted
  deriving DecidableEq, Repr

/-- One turn of a resumed machine. -/
def resumeTurn (m : Machine) : Turn Machine (Machine × Except Fault Pause) :=
  match m.step with
  | (m, .ok .executed) => .more m
  | (m, .ok (.output value)) => .done (m, .ok (.output value))
  | (m, .ok .needsInput) => .done (m, .ok .needsInput)
  | (m, .ok .halted) => .done (m, .ok .halted)
  | (m, .error e) => .done (m, .error e)

/-- Steps the machine until it puts out a value, needs input or halts. -/
def resume (fuel : Nat) (m : Machine) : Option (Machine × Except Fault Pause) :=
  Turn.run resumeTurn fuel m

/-! ## 2. Running through a channel -/

/-- Asks the channel for the input that the machine waits on, and supplies it. -/
def answerFrom (m : Machine) (c : Channel σ) : (Machine × Channel σ) × Except Fault Unit :=
  match c.request m.inputs with
  | (none, c) => ((m, c), .error (.inputUnavailable m.pc))
  | (some (.error message), c) => ((m, c), .error (.provider message m.pc))
  | (some (.ok answer), c) =>
    let (m, r) := m.supply answer
    ((m, c), r)

/-- One turn of a machine that runs through a channel. -/
def runTurn : Machine × Channel σ →
    Turn (Machine × Channel σ) ((Machine × Channel σ) × Except Fault Unit)
  | (m, c) =>
    match m.step with
    | (m, .ok .executed) => .more (m, c)
    | (m, .ok (.output value)) => .more (m, c.emit value)
    | (m, .ok .needsInput) =>
      match m.answerFrom c with
      | (s, .ok ()) => .more s
      | (s, .error e) => .done (s, .error e)
    | (m, .ok .halted) => .done ((m, c), .ok ())
    | (m, .error e) => .done ((m, c), .error e)

/-- Runs the machine to its end through a channel. -/
def run (fuel : Nat) (m : Machine) (c : Channel σ) :
    Option ((Machine × Channel σ) × Except Fault Unit) :=
  Turn.run runTurn fuel (m, c)

/-- Runs a program to its end with a backlog and a channel. -/
def execute (fuel : Nat) (program input : List Word) (c : Channel σ) :
    Option ((Machine × Channel σ) × Except Fault Unit) :=
  run fuel ((ofProgram program).withInput input) c

/-! ## 3. Notes -/

/-- What the journal says of the answer that a channel gives. -/
def answerNotes (m : Machine) (c : Channel σ) : List Note :=
  match c.outlook m.inputs with
  | some (.ok answer) => m.supplyNotes answer
  | _ => []

/-- What the journal says of a turn. -/
def runNotes (m : Machine) (c : Channel σ) : List Note :=
  m.stepNotes ++
    match m.outlook with
    | .ok .needsInput => { m with status := .awaitingInput }.answerNotes c
    | _ => []

end WordMachine.Machine
