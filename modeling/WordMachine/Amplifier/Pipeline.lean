import WordMachine.Failure
import WordMachine.Machine.Run

/-!
# Pipeline

Amplifiers in a row, one for each parameter, run one after the other on the same program. Each gets
its parameter and the last value that the one before it put out; the first gets 0. The answer is the
last value of the last one.
-/

namespace WordMachine

/-- A pipeline under way: the amplifier at work with its index and parameter, and the parameters of
    those that follow. -/
structure Pipeline where
  program : List Word
  index : Nat
  parameter : Word
  waiting : List Word
  machine : Machine

namespace Pipeline

/-- The amplifier with a parameter that gets a signal. -/
def amplifier (program : List Word) (parameter signal : Word) : Machine :=
  (Machine.ofProgram program).withInput [parameter, signal]

/-- The pipeline about to run; `none` if there are no parameters. -/
def start? (program : List Word) : List Word → Option Pipeline
  | [] => none
  | parameter :: waiting => some ⟨program, 0, parameter, waiting, amplifier program parameter 0⟩

/-- What follows when the amplifier at `index` has put out its last signal: the next one gets it, or it
    is the answer. -/
def handOver (program : List Word) (index : Nat) (waiting : List Word) (signal : Word) :
    Turn Pipeline (Except Failure Word) :=
  match waiting with
  | [] => .done (.ok signal)
  | parameter :: waiting =>
    .more ⟨program, index + 1, parameter, waiting, amplifier program parameter signal⟩

/-- One turn: a step of the amplifier at work. Its input is what it was given; nobody answers if it
    asks for more. -/
def turn : Pipeline → Turn Pipeline (Except Failure Word)
  | ⟨program, index, parameter, waiting, machine⟩ =>
    match machine.step with
    | (_, .error e) => .done (.error (.node index e))
    | (m, .ok .needsInput) => .done (.error (.node index (.inputUnavailable m.pc)))
    | (m, .ok .halted) =>
      match m.output.back? with
      | some signal => handOver program index waiting signal
      | none => .done (.error (.noOutput index))
    | (m, .ok _) => .more ⟨program, index, parameter, waiting, m⟩

/-- The answer of a pipeline. -/
def run (fuel : Nat) (program parameters : List Word) : Option (Except Failure Word) :=
  match start? program parameters with
  | none => some (.error .empty)
  | some p => Turn.run turn fuel p

/-! ## Notes -/

/-- The source of the notes of a pipeline. -/
def source : String := "intcode::orchestrator::pipeline"

/-- What the journal says of a turn. -/
def turnNotes (p : Pipeline) : List Note :=
  p.machine.stepNotes ++
    match p.machine.outlook with
    | .ok .halted =>
      match p.machine.output.back? with
      | some signal =>
        [⟨.debug, source, "pipeline stage finished",
          [("node", toString p.index), ("parameter", Word.decimal p.parameter),
           ("signal", Word.decimal signal)]⟩]
      | none => []
    | _ => []

end Pipeline

end WordMachine
