import WordMachine.Failure
import WordMachine.Network.Node
import WordMachine.Turn

/-!
# Network

Machines that send packets to each other, and a monitor that starts them again when all of them find
nothing to read. The scheduler gives the nodes turns in order, round after round. In its turn a live
node runs until it has been answered once and asks again.

After a round with every node idle, the monitor passes its packet on to node 0; when it would pass on
the same `y` twice in a row the network has settled, and that `y` is the answer.

* `Network.Position` -- where the scheduler stands in a round;
* `Network.turn` -- one step of the node at its turn, or what comes after a round;
* `Network.run` -- turns until the network settles or fails.
-/

namespace WordMachine

namespace Network

/-- How a network is set up. -/
structure Config where
  nodes : Nat := 50
  monitorAddress : Word := 255
  idleInput : Word := Machine.defaultIdleInput
  maxRounds : Option Nat := none
  stepLimit : Option Nat := none
  isolateFailures : Bool := false
  deriving DecidableEq, Repr

/-- The number of nodes unless set otherwise. -/
def defaultSize : Nat := ({} : Config).nodes

/-- The address of the monitor unless set otherwise. -/
def defaultMonitorAddress : Word := ({} : Config).monitorAddress

end Network

/-- The nodes by their numbers, the monitor, the rounds completed and the packets dropped. -/
structure Network where
  nodes : Array Node
  monitor : Monitor
  config : Network.Config
  rounds : Nat
  dropped : Nat

namespace Network

/-- What is told of a network that has settled. -/
structure Report where
  convergedY : Word
  firstPacket : Option Packet
  rounds : Nat
  deliveries : Nat
  dropped : Nat
  deriving DecidableEq, Repr

/-! ## 1. Setting up -/

/-- A machine as a node of the network. -/
def enrol (config : Config) (id : Nat) (machine : Machine) : Node :=
  let machine := machine.withIdleInput config.idleInput
  let machine :=
    match config.stepLimit with
    | some limit => machine.withStepLimit limit
    | none => machine
  Node.ofMachine id machine

/-- The network of the given machines, numbered in their order. -/
def ofMachines (machines : List Machine) (config : Config) : Network where
  nodes := (machines.mapIdx (enrol config)).toArray
  monitor := {}
  config := { config with nodes := machines.length }
  rounds := 0
  dropped := 0

/-- The network of machines that all run one program. -/
def ofProgram (program : List Word) (config : Config) : Network :=
  ofMachines (List.replicate config.nodes (Machine.ofProgram program)) config

/-! ## 2. Looking at nodes -/

/-- Whether some node is live. -/
def anyLive (net : Network) : Bool := net.nodes.any Node.isLive

/-- Whether every live node found nothing at its last request and nothing has arrived since. -/
def isIdle (net : Network) : Bool :=
  net.nodes.all fun n => !n.isLive || (n.idle && n.inbound.isEmpty)

/-- Whether there is a live node with a number. -/
def isLiveAt (net : Network) (id : Nat) : Bool := (net.nodes[id]?).any Node.isLive

/-- Changes the node with a number. -/
def modify (net : Network) (id : Nat) (f : Node → Node) : Network :=
  { net with nodes := net.nodes.modify id f }

/-- Puts a node in the place with a number. -/
def place (net : Network) (id : Nat) (node : Node) : Network := net.modify id fun _ => node

/-! ## 3. Packets -/

/-- The number of the live node that a packet is for. -/
def receiver? (net : Network) (p : Packet) : Option Nat :=
  match Word.address? p.destination with
  | some id => if net.isLiveAt id then some id else none
  | none => none

/-- Takes a packet to the monitor or to its node, or drops it. -/
def route (net : Network) (p : Packet) : Network :=
  if p.destination = net.config.monitorAddress then { net with monitor := net.monitor.receive p }
  else
    match net.receiver? p with
    | some id => net.modify id (·.accept p.x p.y)
    | none => { net with dropped := net.dropped + 1 }

/-- Takes a pair from the monitor to node 0, which has to be live. -/
def deliver (net : Network) (x y : Word) : Except Failure Network :=
  if net.isLiveAt 0 then .ok (net.modify 0 fun n => { n.accept x y with idle := false })
  else .error (.noOutput 0)

/-! ## 4. The turn of a node -/

/-- Where the scheduler stands: the node at its turn, and whether that node has been answered. -/
structure Position where
  node : Nat
  answered : Bool
  deriving DecidableEq, Repr

/-- The network with the position of its scheduler. -/
abbrev Schedule := Network × Position

/-- The result of a run and the network that it leaves. -/
abbrev Outcome := Network × Except Failure Report

/-- The turn passes to the next node. -/
def passOn (net : Network) (id : Nat) : Turn Schedule Outcome := .more (net, ⟨id + 1, false⟩)

/-- A node is at fault: it is left out from now on, or the run ends. -/
def fail (net : Network) (id : Nat) (e : Fault) : Turn Schedule Outcome :=
  if net.config.isolateFailures then
    (net.modify id fun n => { n with status := .failed e }).passOn id
  else .done (net, .error (.node id e))

/-- The node puts out a word. -/
def emit (net : Network) (id : Nat) (node : Node) (value : Word) : Network :=
  match node.collect value with
  | (none, node) => net.place id node
  | (some p, node) => (net.place id node).route p

/-- The node asks for input, and is answered. -/
def reply (net : Network) (id : Nat) (node : Node) : Turn Schedule Outcome :=
  let (answer, node) := node.poll
  let (machine, result) := node.machine.supply answer
  let net := net.place id { node with machine := machine }
  match result with
  | .ok () => .more (net, ⟨id, true⟩)
  | .error e => net.fail id e

/-- One step of the node at its turn, whose place is vacant meanwhile. -/
def serve (net : Network) (node : Node) (pos : Position) : Turn Schedule Outcome :=
  match node.step with
  | (node, .ok .executed) => .more (net.place pos.node node, pos)
  | (node, .ok (.output value)) => .more (net.emit pos.node node value, pos)
  | (node, .ok .needsInput) =>
    if pos.answered then (net.place pos.node node).passOn pos.node else net.reply pos.node node
  | (node, .ok .halted) => (net.place pos.node { node with status := .halted }).passOn pos.node
  | (node, .error e) => (net.place pos.node node).fail pos.node e

/-! ## 5. After a round -/

/-- Ends every node that is still live. -/
def shutDown (net : Network) : Network :=
  { net with
    nodes := net.nodes.map fun n =>
      if n.isLive then { n with machine := (n.machine.supply .terminate).1, status := .halted }
      else n }

/-- What is told once the network has settled. -/
def report (net : Network) (y : Word) : Report where
  convergedY := y
  firstPacket := net.monitor.first
  rounds := net.rounds
  deliveries := net.monitor.deliveries
  dropped := net.dropped

/-- Begins the next round, if there may be one. -/
def nextRound (net : Network) : Turn Schedule Outcome :=
  match net.config.maxRounds with
  | some most => if most ≤ net.rounds then .done (net, .error (.stalled net.rounds)) else again
  | none => again
where
  again : Turn Schedule Outcome := .more (net, ⟨0, false⟩)

/-- Lets the monitor act if the network is idle. -/
def consult (net : Network) : Turn Schedule Outcome :=
  if net.isIdle then
    match net.monitor.onIdle with
    | (.wait, monitor) => { net with monitor := monitor }.nextRound
    | (.deliver x y, monitor) =>
      let net := { net with monitor := monitor }
      match net.deliver x y with
      | .ok net => net.nextRound
      | .error failure => .done (net, .error failure)
    | (.converged y, monitor) =>
      let net := { net with monitor := monitor }.shutDown
      .done (net, .ok (net.report y))
  else net.nextRound

/-- What comes after a round. -/
def closeRound (net : Network) : Turn Schedule Outcome :=
  let net := { net with rounds := net.rounds + 1 }
  if net.anyLive then net.consult else .done (net, .error .allNodesStopped)

/-! ## 6. Running -/

/-- One turn of the scheduler. -/
def turn : Schedule → Turn Schedule Outcome
  | (net, pos) =>
    match net.nodes[pos.node]? with
    | none => net.closeRound
    | some node =>
      if node.isLive then (net.place pos.node Node.vacant).serve node pos
      else net.passOn pos.node

/-- Runs the network from the beginning of a round. -/
def run (fuel : Nat) (net : Network) : Option Outcome :=
  if net.nodes.isEmpty then some (net, .error .empty)
  else Turn.run turn fuel (net, ⟨0, false⟩)

/-! ## 7. Notes -/

/-- The source of the notes of a network. -/
def source : String := "intcode::orchestrator::network"

/-- What the journal says of a packet on its way. -/
def routeNotes (net : Network) (sender : Nat) (p : Packet) : List Note :=
  if p.destination = net.config.monitorAddress then
    [⟨.debug, source, "packet to monitor",
      [("from", toString sender), ("x", Word.decimal p.x), ("y", Word.decimal p.y)]⟩]
  else
    match net.receiver? p with
    | some _ => []
    | none =>
      [⟨.warn, source, "dropping packet for unknown or stopped node",
        [("from", toString sender), ("destination", Word.decimal p.destination)]⟩]

/-- What the journal says of a node at fault. -/
def failNotes (net : Network) (id : Nat) (e : Fault) : List Note :=
  if net.config.isolateFailures then
    [⟨.warn, source, "isolating failed node", [("node", toString id), ("error", e.message)]⟩]
  else []

/-- What the journal says of a step of the node at its turn. -/
def serveNotes (net : Network) (node : Node) (pos : Position) : List Note :=
  node.machine.stepNotes ++
    match node.machine.outlook with
    | .ok (.output value) =>
      match node.collect value with
      | (some p, _) => net.routeNotes pos.node p
      | (none, _) => []
    | .ok .needsInput =>
      if pos.answered then []
      else
        match (Machine.supply { node.machine with status := .awaitingInput } node.poll.1).2 with
        | .ok () => []
        | .error e => net.failNotes pos.node e
    | .ok .halted => [⟨.debug, source, "node halted", [("node", toString pos.node)]⟩]
    | .ok .executed => []
    | .error e => net.failNotes pos.node e

/-- What the journal says of the end of every live node. -/
def shutDownNotes (net : Network) : List Note :=
  net.nodes.toList.flatMap fun n =>
    if n.isLive then
      n.machine.supplyNotes .terminate ++
        match (n.machine.supply .terminate).2 with
        | .ok () => []
        | .error e =>
          [⟨.debug, source, "node was not waiting for input",
            [("node", toString n.id), ("error", e.message)]⟩]
    else []

/-- What the journal says of what comes after a round. -/
def closeNotes (net : Network) : List Note :=
  if net.anyLive && net.isIdle then
    match net.monitor.onIdle.1 with
    | .wait => []
    | .deliver x y =>
      if net.isLiveAt 0 then
        [⟨.debug, source, "monitor delivering to node 0",
          [("x", Word.decimal x), ("y", Word.decimal y)]⟩]
      else []
    | .converged y =>
      ⟨.info, source, "network converged",
        [("y", Word.decimal y), ("rounds", toString (net.rounds + 1))]⟩ :: net.shutDownNotes
  else []

/-- What the journal says of a turn. -/
def turnNotes : Schedule → List Note
  | (net, pos) =>
    match net.nodes[pos.node]? with
    | none => net.closeNotes
    | some node => if node.isLive then net.serveNotes node pos else []

end Network

end WordMachine
