import WordMachine.Channel.Fifo
import WordMachine.Failure
import WordMachine.Machine.Run

/-!
# Ring

Amplifiers in a circle: what one puts out, the next reads, and the last feeds the first. Each starts
with its phase setting as input, the first also with the signal 0. An amplifier that finds nothing to
read waits until the one before it puts something out; when that one has finished and nothing is left
to read, it is terminated. The answer is the last value that the last amplifier put out.

* `Seat` -- an amplifier with the values on the way to it;
* `Ring.canMove` and `Ring.move` -- one amplifier makes one move: it executes an instruction, receives
  a value or is terminated. Which one moves is up to the schedule (`Ring.Step`);
* `Ring.Shift` -- the schedule that a ring is run by: each amplifier in turn moves as long as it can, up
  to `Ring.shiftLength` times;
* `Ring.run` -- moves until every amplifier has finished, or the first fault;
* `Ring.runToEnd` -- moves until every amplifier has finished, faults or not.
-/

namespace WordMachine

/-- An amplifier in its place, with the values on the way to it. -/
structure Seat where
  machine : Machine
  inbound : Fifo
  deriving DecidableEq

namespace Seat

/-- A seat that nobody sits in. -/
def vacant : Seat := ⟨Machine.ofProgram [], Fifo.empty⟩

/-- Whether the amplifier has halted or is at fault. -/
def isFinished (s : Seat) : Bool := s.machine.isHalted || s.machine.fault.isSome

/-- Whether the amplifier waits for a value. -/
def isWaiting (s : Seat) : Bool := s.machine.status = .awaitingInput ∧ s.machine.backlog = []

/-- Receives the next value, or is terminated if there is none. -/
def receive (s : Seat) : Seat :=
  match s.inbound.next? with
  | some value => ⟨(s.machine.supply (.value value)).1, s.inbound.tail⟩
  | none => { s with machine := (s.machine.supply .terminate).1 }

/-- Executes an instruction; gives the value that it put out. -/
def execute : Seat → Seat × Option Word
  | ⟨machine, inbound⟩ =>
    match machine.step with
    | (m, .ok (.output value)) => (⟨m, inbound⟩, some value)
    | (m, _) => (⟨m, inbound⟩, none)

/-- Sends a value to the amplifier; one that has finished does not get it. -/
def send (s : Seat) (value : Word) : Seat :=
  if s.isFinished then s else { s with inbound := s.inbound.push value }

end Seat

/-- The amplifiers in order; the one after the last is the first. -/
abbrev Ring := Array Seat

namespace Ring

/-! ## 1. Moves -/

/-- The amplifier seated at `index` with its phase setting. -/
def seat (program : List Word) (stepLimit : Option Nat) (index : Nat) (phase : Word) : Seat :=
  let m := (Machine.ofProgram program).withInput (if index = 0 then [phase, 0] else [phase])
  ⟨{ m with stepLimit := stepLimit }, Fifo.empty⟩

/-- The ring of a program with the given phase settings. -/
def seated (program : List Word) (stepLimit : Option Nat) (phases : List Word) : Ring :=
  (phases.mapIdx (seat program stepLimit)).toArray

/-- The index of the amplifier that reads what the one at an index puts out. -/
def after (ring : Ring) (index : Nat) : Nat := (index + 1) % ring.size

/-- The index of the amplifier whose output the one at an index reads. -/
def before (ring : Ring) (index : Nat) : Nat := (index + ring.size - 1) % ring.size

/-- Whether the amplifier at an index has finished. -/
def isFinishedAt (ring : Ring) (index : Nat) : Bool := (ring[index]?).any Seat.isFinished

/-- Whether the amplifier at an index can move: it has not finished, and if it waits, there is a
    value for it or there will never be one. -/
def canMove (ring : Ring) (index : Nat) : Bool :=
  match ring[index]? with
  | none => false
  | some s =>
    !s.isFinished &&
      (!s.isWaiting || s.inbound.next?.isSome || ring.isFinishedAt (ring.before index))

/-- The move of the amplifier at an index. Its seat is vacant while it moves. -/
def move (ring : Ring) (index : Nat) : Ring :=
  match ring[index]? with
  | none => ring
  | some s =>
    let reader := ring.after index
    let rest := ring.setIfInBounds index Seat.vacant
    if s.isWaiting then rest.setIfInBounds index s.receive
    else
      match s.execute with
      | (s, some value) => (rest.setIfInBounds index s).modify reader (·.send value)
      | (s, none) => rest.setIfInBounds index s

/-- One move, under any schedule. -/
inductive Step : Ring → Ring → Prop where
  | move (ring : Ring) (index : Nat) (h : ring.canMove index = true) : Step ring (ring.move index)

/-- The rings that some schedule leads to. -/
inductive Reachable (start : Ring) : Ring → Prop where
  | start : Reachable start start
  | step (ring ring' : Ring) (h : Reachable start ring) (hs : Step ring ring') :
      Reachable start ring'

/-! ## 2. Shifts -/

/-- Whether every amplifier has finished. -/
def isFinished (ring : Ring) : Bool := ring.all Seat.isFinished

/-- Whether the amplifier at an index is at fault. -/
def hasFaultAt (ring : Ring) (index : Nat) : Bool := (ring[index]?).any fun s => s.machine.fault.isSome

/-- A ring being run: the amplifier whose turn it is, the moves that it has left before the next one
    comes, and whether one has moved since the first one's turn began. -/
structure Shift where
  ring : Ring
  index : Nat
  left : Nat
  moved : Bool

/-- The number of moves that an amplifier may make before the next one comes. -/
def shiftLength : Nat := 1024

/-- A ring before its first move. -/
def Shift.first (ring : Ring) : Shift := ⟨ring, 0, shiftLength, false⟩

/-- Whether the amplifier whose turn it is makes a move. -/
def Shift.isMove (s : Shift) : Bool := s.left ≠ 0 && s.ring.canMove s.index

/-- One turn of a ring that goes on when an amplifier is at fault. It ends once none can move. -/
def turnToEnd : Shift → Turn Shift Ring
  | ⟨ring, index, left, moved⟩ =>
    if left ≠ 0 && ring.canMove index then .more ⟨ring.move index, index, left - 1, true⟩
    else if index + 1 < ring.size then .more ⟨ring, index + 1, shiftLength, moved⟩
    else if moved then .more (Shift.first ring)
    else .done ring

/-- One turn of a ring that stops at the first fault. -/
def turn (s : Shift) : Turn Shift Ring :=
  if s.ring.hasFaultAt s.index then .done s.ring else turnToEnd s

/-- The first fault by index. -/
def firstFault? (ring : Ring) : Option (Nat × Fault) :=
  ring.toList.zipIdx.findSome? fun (s, index) => s.machine.fault.map fun e => (index, e)

/-- The answer of a ring that has finished: the first fault, or the last value of the last
    amplifier. -/
def verdict (ring : Ring) : Except Failure Word :=
  match ring.firstFault? with
  | some (index, e) => .error (.node index e)
  | none =>
    match ring.back?.bind fun s => s.machine.output.back? with
    | some value => .ok value
    | none => .error (.noOutput (ring.size - 1))

/-! ## 3. Answers -/

/-- A clock: how many turns the ring with given phases takes in a length of time. That is up to what it
    runs on, and it may be another number for every ring. -/
abbrev Clock := List Word → Duration → Nat

/-- The clock that is looked at unless another one is given: every ring takes ten turns in a microsecond,
    and some at the start. -/
def Clock.steady : Clock := fun _ after => 400000 + after / 100

/-- How long a ring may run, how many instructions each amplifier may execute, and the clock. -/
structure Config where
  timeout : Option Duration := none
  stepLimit : Option Nat := none
  clock : Clock := .steady

/-- The number of turns after which the time allowed is used up, by the clock. Without a time limit there
    is no end to them. -/
def Config.turns (c : Config) (phases : List Word) : Nat :=
  match c.timeout with
  | some after => min (c.clock phases after) Turn.patience
  | none => Turn.patience

/-- What is told of a ring that has not finished: with a time limit, that the time is used up. -/
def Config.overdue (c : Config) : Option (Except Failure Word) :=
  c.timeout.map fun after => .error (.timedOut after)

/-- The answer that a ring gives when it stops; none if its amplifiers wait for each other. -/
def answer? (c : Config) (ring : Option Ring) : Option (Except Failure Word) :=
  match ring with
  | some ring =>
    if ring.firstFault?.isSome || ring.isFinished then some ring.verdict else c.overdue
  | none => c.overdue

/-- The answer of a ring whose first fault ends it. -/
def run (program phases : List Word) (c : Config) : Option (Except Failure Word) :=
  if phases.isEmpty then some (.error .empty)
  else answer? c (Turn.run turn (c.turns phases) (.first (seated program c.stepLimit phases)))

/-- The answer that a ring gives once every amplifier has finished. -/
def answerToEnd? (ring : Option Ring) : Option (Except Failure Word) :=
  match ring with
  | some ring => if ring.isFinished then some ring.verdict else none
  | none => none

/-- The answer of a ring that waits for every amplifier. It cannot be broken off, so a time limit is
    refused. -/
def runToEnd (program phases : List Word) (c : Config) : Option (Except Failure Word) :=
  if phases.isEmpty then some (.error .empty)
  else if c.timeout.isSome then some (.error .timeoutUnsupported)
  else answerToEnd? (Turn.run turnToEnd (c.turns phases) (.first (seated program c.stepLimit phases)))

/-! ## 4. Notes -/

/-- The source of the notes of a ring. -/
def source : String := "intcode::orchestrator::feedback"

/-- What the journal says of the next move of an amplifier. -/
def moveNotes (threaded : Bool) (ring : Ring) (index : Nat) : List Note :=
  match ring[index]? with
  | none => []
  | some s =>
    if s.isFinished then []
    else if s.isWaiting then
      match s.inbound.next? with
      | some _ => []
      | none =>
        if ring.isFinishedAt (ring.before index) then
          (if threaded then []
            else [⟨.debug, source, "upstream closed with no pending values",
              [("node", toString index)]⟩]) ++
          s.machine.supplyNotes .terminate ++ haltNote s.machine
        else []
    else
      s.machine.stepNotes ++
        match s.machine.outlook with
        | .ok (.output value) =>
          if ring.isFinishedAt (ring.after index) then
            if threaded then
              [⟨.trace, "intcode::interpreter::io", "link closed, output discarded",
                [("value", Word.decimal value)]⟩]
            else
              [⟨.trace, source, "downstream finished, output discarded",
                [("node", toString index), ("value", Word.decimal value)]⟩]
          else []
        | .ok .halted => haltNote s.machine
        | _ => []
where
  haltNote (m : Machine) : List Note :=
    if threaded then []
    else
      [⟨.debug, source, "machine halted",
        [("node", toString index), ("outputs", toString m.output.size)]⟩]

/-- What the journal says of a turn. -/
def turnNotes (threaded : Bool) (s : Shift) : List Note :=
  if s.isMove then moveNotes threaded s.ring s.index else []

/-- What the journal says of the answer. -/
def answerNotes (threaded : Bool) (count : Nat) (answer : Word) : List Note :=
  [⟨.info, source, if threaded then "threaded feedback loop finished" else "feedback loop finished",
    [("machines", toString count), ("answer", Word.decimal answer)]⟩]

end Ring

end WordMachine
