import WordMachine.History
import WordMachine.Machine.Run

/-!
# Recorder

A recorder runs a machine and takes a snapshot at the start and after every instruction. Afterwards
the history can be walked in both directions.

* `Recorder.run` -- records a run to its end, to a fault, or to the limit of the history. Since each
  snapshot takes some bytes, recording always ends;
* `Recorder.forward?`, `Recorder.backward?`, `Recorder.toStart`, `Recorder.toEnd` -- the walk;
* `Recorder.current?` -- the snapshot at the present position.
-/

namespace WordMachine

/-- A machine with its history, a position in the history, and how recording ended. -/
structure Recorder where
  machine : Machine
  history : History
  position : Nat
  fault : Option Fault
  finished : Bool

/-- Why a walk cannot go on. -/
inductive Edge where
  | atStart
  | atEnd
  deriving DecidableEq, Repr

/-- The sentence that says at which end the walk is. -/
def Edge.message : Edge → String
  | .atStart => "already at the first step"
  | .atEnd => "already at the last recorded step"

namespace Recorder

/-- The recorder of a machine, with nothing recorded. -/
def ofMachine (m : Machine) (limit : Nat) : Recorder := ⟨m, History.empty limit, 0, none, false⟩

/-- The number of snapshots. -/
def total (r : Recorder) : Nat := r.history.length

/-! ## 1. Recording -/

variable {σ : Type}

/-- A recording under way: the recorder and the channel. -/
abbrev Recording (σ : Type) := Recorder × Channel σ

/-- Takes a snapshot of the machine as it is. -/
def record (r : Recorder) : Recorder × Except Fault Unit :=
  let s := Snapshot.capture r.machine r.history.length
  if r.history.hasRoomFor s then ({ r with history := r.history.push s }, .ok ())
  else (r, .error (.snapshotLimit r.history.usage r.history.limit))

/-- Executes one instruction. An input instruction is answered in the same go. -/
def execute (r : Recorder) (c : Channel σ) : Recording σ × Except Fault Unit :=
  match r.machine.step with
  | (m, .ok .executed) => (({ r with machine := m }, c), .ok ())
  | (m, .ok .halted) => (({ r with machine := m }, c), .ok ())
  | (m, .ok (.output value)) => (({ r with machine := m }, c.emit value), .ok ())
  | (m, .ok .needsInput) =>
    let ((m, c), result) := m.answerFrom c
    (({ r with machine := m }, c), result)
  | (m, .error e) => (({ r with machine := m }, c), .error e)

/-- One turn of a recording: an instruction, then a snapshot. -/
def turn : Recording σ → Turn (Recording σ) (Recording σ × Except Fault Unit)
  | (r, c) =>
    match r.execute c with
    | ((r, c), .error e) => .done ((r, c), .error e)
    | ((r, c), .ok ()) =>
      match r.record with
      | (r, .error e) => .done ((r, c), .error e)
      | (r, .ok ()) => if r.machine.isHalted then .done ((r, c), .ok ()) else .more (r, c)

/-- The number of turns after which the history is full, whatever is recorded. -/
def turnsWithin (r : Recorder) : Nat := r.history.limit / Snapshot.overhead + 1

/-- Keeps how the recording ended. -/
def close : Recording σ × Except Fault Unit → Recording σ × Except Fault Unit
  | ((r, c), .ok ()) => (({ r with finished := true }, c), .ok ())
  | ((r, c), .error e) => (({ r with finished := true, fault := some e }, c), .error e)

/-- Records a run of the machine. -/
def run (r : Recorder) (c : Channel σ) : Option (Recording σ × Except Fault Unit) :=
  match r.record with
  | (r, .error e) => some (close ((r, c), .error e))
  | (r, .ok ()) => (Turn.run turn r.turnsWithin (r, c)).map close

/-! ## 2. Walking the history -/

/-- The snapshot at the position. -/
def current? (r : Recorder) : Option Snapshot := r.history.get? r.position

/-- One snapshot on. -/
def forward? (r : Recorder) : Except Edge Recorder :=
  if r.position + 1 < r.total then .ok { r with position := r.position + 1 } else .error .atEnd

/-- One snapshot back. -/
def backward? (r : Recorder) : Except Edge Recorder :=
  if r.position = 0 then .error .atStart else .ok { r with position := r.position - 1 }

/-- To the first snapshot. -/
def toStart (r : Recorder) : Recorder := { r with position := 0 }

/-- To the last snapshot. -/
def toEnd (r : Recorder) : Recorder := { r with position := r.total - 1 }

/-! ## 3. Notes -/

/-- The source of the notes of a recorder. -/
def source : String := "intcode::interpreter::tracer"

/-- What the journal says of a turn. -/
def turnNotes : Recording σ → List Note
  | (r, c) => r.machine.runNotes c

/-- What the journal says of the end of a recording. -/
def closingNotes : Recording σ × Except Fault Unit → List Note
  | ((r, _), .ok ()) => [⟨.debug, source, "recording complete", [("snapshots", toString r.total)]⟩]
  | ((r, _), .error e) =>
    [⟨.warn, source, "recording stopped", [("error", e.message), ("recorded", toString r.total)]⟩]

end Recorder

end WordMachine
