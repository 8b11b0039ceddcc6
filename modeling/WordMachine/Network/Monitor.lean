import WordMachine.Word

/-!
# Monitor

The monitor of a network keeps the last packet that was sent to it. When the network is idle it
passes that packet on, and when it would pass on the same `y` twice in a row, the network has settled.
-/

namespace WordMachine

/-- A message of two words to a destination. -/
structure Packet where
  destination : Word
  x : Word
  y : Word
  deriving DecidableEq, Repr

/-- What the monitor does when the network is idle. -/
inductive MonitorAction where
  /-- Nothing is kept. -/
  | wait
  /-- Passes a pair on. -/
  | deliver (x y : Word)
  /-- Would pass the same `y` on again. -/
  | converged (y : Word)
  deriving DecidableEq, Repr

/-- The pair kept, the `y` passed on last, the first packet ever received, and the number of pairs
    passed on. -/
structure Monitor where
  pending : Option (Word × Word) := none
  lastDelivered : Option Word := none
  first : Option Packet := none
  deliveries : Nat := 0
  deriving DecidableEq, Repr

namespace Monitor

/-- Keeps a packet in place of the one kept before. -/
def receive (m : Monitor) (p : Packet) : Monitor :=
  { m with first := m.first.or (some p), pending := some (p.x, p.y) }

/-- What to do now that the network is idle. The pair kept is gone afterwards. -/
def onIdle (m : Monitor) : MonitorAction × Monitor :=
  match m.pending with
  | none => (.wait, m)
  | some (x, y) =>
    if m.lastDelivered = some y then (.converged y, { m with pending := none })
    else
      (.deliver x y,
        { m with pending := none, lastDelivered := some y, deliveries := m.deliveries + 1 })

end Monitor

end WordMachine
