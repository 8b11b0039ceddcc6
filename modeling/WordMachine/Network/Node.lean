import WordMachine.Channel.Fifo
import WordMachine.Machine
import WordMachine.Network.Monitor

/-!
# Nodes

A node is a machine in a network. It reads its own number first and then the words that arrive; when
none is there it is told so and goes on. What it puts out is taken in threes: a destination and two
words make a packet.
-/

namespace WordMachine

/-- Whether a node takes part in the network. -/
inductive NodeStatus where
  | live
  | halted
  | failed (cause : Fault)
  deriving DecidableEq

/-- A machine in a network. -/
structure Node where
  id : Nat
  machine : Machine
  /-- The words that have arrived. -/
  inbound : Fifo
  /-- Whether the node has read its number. -/
  booted : Bool
  /-- The words of the packet being put out. -/
  outgoing : List Word
  /-- Whether the last request found nothing, and nothing happened since. -/
  idle : Bool
  status : NodeStatus

namespace Node

/-- The node of a machine before it has run. -/
def ofMachine (id : Nat) (machine : Machine) : Node := ⟨id, machine, Fifo.empty, false, [], false, .live⟩

/-- A node without a machine to speak of. -/
def vacant : Node := ofMachine 0 (Machine.ofProgram [])

/-- Whether the node takes part. -/
def isLive (n : Node) : Bool := n.status = .live

/-- Executes an instruction. -/
def step : Node → Node × Except Fault Machine.Step
  | ⟨id, machine, inbound, booted, outgoing, idle, status⟩ =>
    let (machine, result) := machine.step
    (⟨id, machine, inbound, booted, outgoing, idle, status⟩, result)

/-- The answer to a request of the node. -/
def poll (n : Node) : Answer × Node :=
  if n.booted then
    match n.inbound.next? with
    | some value => (.value value, { n with inbound := n.inbound.tail, idle := false })
    | none => (.noValue, { n with idle := true })
  else (.value (Int64.ofNat n.id), { n with booted := true })

/-- Takes a word that the node put out; gives the packet that it completes. -/
def collect (n : Node) (value : Word) : Option Packet × Node :=
  match n.outgoing ++ [value] with
  | [destination, x, y] => (some ⟨destination, x, y⟩, { n with outgoing := [], idle := false })
  | words => (none, { n with outgoing := words, idle := false })

/-- Lets a pair of words arrive. -/
def accept (n : Node) (x y : Word) : Node := { n with inbound := (n.inbound.push x).push y }

end Node

end WordMachine
