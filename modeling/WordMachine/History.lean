import WordMachine.Machine

/-!
# History

The recorded states of a machine, in order, within a limit on the bytes that they take.

* `Snapshot` -- the state of a machine after some instruction, with its place in the history;
* `History.hasRoomFor` and `History.push` -- a history with one more snapshot, if it has room for it.
-/

namespace WordMachine

/-! ## 1. Snapshots -/

/-- The state of a machine at one point of its history. -/
structure Snapshot where
  /-- The number of snapshots before this one. -/
  index : Nat
  pc : Nat
  base : Word
  status : Status
  memory : Memory
  output : Array Word
  inputs : Nat
  lastWrite : Option Nat
  deriving DecidableEq

namespace Snapshot

/-- The bytes that a snapshot takes besides its memory and output. -/
def overhead : Nat := 136

/-- The snapshot of a machine. -/
def capture (m : Machine) (index : Nat) : Snapshot where
  index := index
  pc := m.pc
  base := m.base
  status := m.status
  memory := m.memory
  output := m.output
  inputs := m.inputs
  lastWrite := m.lastWrite

/-- The bytes that a snapshot takes. -/
def size (s : Snapshot) : Nat := overhead + s.memory.footprint + 8 * s.output.size

end Snapshot

/-! ## 2. Histories -/

/-- Snapshots in order, with the bytes that they take together and the bytes that they may take. -/
structure History where
  snapshots : Array Snapshot
  usage : Nat
  limit : Nat
  deriving DecidableEq

namespace History

/-- The bytes that a history may take, unless set otherwise: 256 MiB. -/
def defaultLimit : Nat := 256 * 1024 * 1024

/-- The empty history. -/
def empty (limit : Nat) : History := ⟨#[], 0, limit⟩

/-- The number of snapshots. -/
def length (h : History) : Nat := h.snapshots.size

/-- The snapshot at a position. -/
def get? (h : History) (position : Nat) : Option Snapshot := h.snapshots[position]?

/-- Whether there is room for one more snapshot. -/
def hasRoomFor (h : History) (s : Snapshot) : Bool := h.usage + s.size ≤ h.limit

/-- Adds a snapshot. -/
def push (h : History) (s : Snapshot) : History :=
  { h with snapshots := h.snapshots.push s, usage := h.usage + s.size }

/-- Adds a snapshot; `none` if it would pass the limit. -/
def push? (h : History) (s : Snapshot) : Option History :=
  if h.hasRoomFor s then some (h.push s) else none

end History

end WordMachine
