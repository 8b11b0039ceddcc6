import WordMachine.Proofs.Network.Log
import WordMachine.Proofs.Network.Operations

/-!
# The ways of a turn

A turn of the scheduler goes one of a few ways. Each is told here with all that is known then: what it
leaves, what can be seen of the node at its turn, and what happens in the network.

* `Network.Sight`, `Network.sights` -- a node is answered, or puts out a word;
* `Network.Way` -- the ways of a turn; `Network.way` says that there are no others;
* `Network.Closing` -- the ways in which a round ends, with what the monitor does then;
* `Network.Lasting` -- a property of nodes that nothing done to a node ends, and so no turn
  (`Lasting.turn`).
-/

namespace WordMachine

theorem Node.poll_machine (n : Node) (m : Machine) :
    ({ n with machine := m } : Node).poll = (n.poll.1, { n.poll.2 with machine := m }) := by
  unfold Node.poll
  split
  · cases n.inbound.next? <;> rfl
  · rfl

namespace Network

/-! ## 1. What can be seen of the nodes -/

/-- What can be seen of a node. -/
inductive Sight where
  /-- The node asks and is answered. -/
  | answer (node : Nat) (a : Answer)
  /-- The node puts out a word. -/
  | word (node : Nat) (w : Word)

/-- The node that is seen. -/
def Sight.node : Sight → Nat
  | .answer node _ => node
  | .word node _ => node

/-- What is seen in a step of the node at its turn. -/
def serveSights (node : Node) (pos : Position) : List Sight :=
  match node.step with
  | (_, .ok (.output w)) => [.word pos.node w]
  | (node, .ok .needsInput) => if pos.answered then [] else [.answer pos.node node.poll.1]
  | (_, .ok .executed) | (_, .ok .halted) | (_, .error _) => []

/-- **What is seen in the turn** that the scheduler is about to take. -/
def sights : Schedule → List Sight
  | (net, pos) =>
    match net.nodes[pos.node]? with
    | none => []
    | some node => if node.isLive then serveSights node pos else []

/-! ## 2. Turns -/

/-- **The ways of a turn**: what it leaves, what is seen and what happens in it. -/
inductive Way (net : Network) (pos : Position) :
    Turn Schedule Outcome → List Sight → List Event → Prop where
  /-- The round is over. -/
  | closed (hn : net.nodes[pos.node]? = none) : Way net pos net.closeRound [] net.closeEvents
  /-- The node has stopped, and its turn passes. -/
  | skipped (n : Node) (hn : net.nodes[pos.node]? = some n) (hl : n.isLive = false) :
      Way net pos (net.passOn pos.node) [] []
  /-- The node executes an instruction. -/
  | executed (n : Node) (m : Machine) (hn : net.nodes[pos.node]? = some n) (hl : n.isLive = true)
      (hm : n.machine.step = (m, .ok .executed)) :
      Way net pos (.more (net.place pos.node { n with machine := m }, pos)) [] []
  /-- The node puts out a word that completes no packet. -/
  | gathered (n : Node) (m : Machine) (w : Word) (hn : net.nodes[pos.node]? = some n)
      (hl : n.isLive = true) (hm : n.machine.step = (m, .ok (.output w)))
      (hw : (n.outgoing ++ [w]).length ≠ 3) :
      Way net pos
        (.more (net.place pos.node { n with machine := m, outgoing := n.outgoing ++ [w], idle := false },
          pos))
        [.word pos.node w] []
  /-- The node puts out a word that completes a packet. -/
  | sent (n : Node) (m : Machine) (w : Word) (p : Packet) (hn : net.nodes[pos.node]? = some n)
      (hl : n.isLive = true) (hm : n.machine.step = (m, .ok (.output w)))
      (hw : n.outgoing ++ [w] = p.words) :
      Way net pos
        (.more ((net.place pos.node { n with machine := m, outgoing := [], idle := false }).route p, pos))
        [.word pos.node w] [.packet pos.node p net.isLiveAt]
  /-- The node has been answered and asks again. -/
  | parked (n : Node) (m : Machine) (hn : net.nodes[pos.node]? = some n) (hl : n.isLive = true)
      (hm : n.machine.step = (m, .ok .needsInput)) (ha : pos.answered = true) :
      Way net pos ((net.place pos.node { n with machine := m }).passOn pos.node) [] []
  /-- The node asks and takes the answer. -/
  | answered (n : Node) (m m' : Machine) (hn : net.nodes[pos.node]? = some n) (hl : n.isLive = true)
      (hm : n.machine.step = (m, .ok .needsInput)) (ha : pos.answered = false)
      (hs : m.supply n.poll.1 = (m', .ok ())) :
      Way net pos (.more (net.place pos.node { n.poll.2 with machine := m' }, ⟨pos.node, true⟩))
        [.answer pos.node n.poll.1] [.answer pos.node n.poll.1]
  /-- The node asks and cannot take the answer. -/
  | refused (n : Node) (m m' : Machine) (e : Fault) (hn : net.nodes[pos.node]? = some n)
      (hl : n.isLive = true) (hm : n.machine.step = (m, .ok .needsInput)) (ha : pos.answered = false)
      (hs : m.supply n.poll.1 = (m', .error e)) :
      Way net pos ((net.place pos.node { n.poll.2 with machine := m' }).fail pos.node e)
        [.answer pos.node n.poll.1] [.answer pos.node n.poll.1]
  /-- The node halts. -/
  | halted (n : Node) (m : Machine) (hn : net.nodes[pos.node]? = some n) (hl : n.isLive = true)
      (hm : n.machine.step = (m, .ok .halted)) :
      Way net pos ((net.place pos.node { n with machine := m, status := .halted }).passOn pos.node)
        [] []
  /-- The node is at fault. -/
  | failed (n : Node) (m : Machine) (e : Fault) (hn : net.nodes[pos.node]? = some n)
      (hl : n.isLive = true) (hm : n.machine.step = (m, .error e)) :
      Way net pos ((net.place pos.node { n with machine := m }).fail pos.node e) [] []

/-- The ways of a live node that puts out a word. -/
theorem way_emit {net : Network} {pos : Position} {n : Node} {m : Machine} {w : Word}
    (hn : net.nodes[pos.node]? = some n) (hl : n.isLive = true)
    (hm : n.machine.step = (m, .ok (.output w))) :
    Way net pos (.more (net.emit pos.node { n with machine := m } w, pos)) [.word pos.node w]
      (match ({ n with machine := m } : Node).collect w with
        | (some p, _) => [.packet pos.node p net.isLiveAt]
        | (none, _) => []) := by
  unfold emit
  rcases Node.collect_cases { n with machine := m } w with ⟨p, hc, hw⟩ | ⟨hc, hw⟩
  · rw [hc]
    exact .sent n m w p hn hl hm hw
  · rw [hc]
    exact .gathered n m w hn hl hm hw

/-- The ways of a live node that asks and has not been answered. -/
theorem way_reply {net : Network} {pos : Position} {n : Node} {m : Machine}
    (hn : net.nodes[pos.node]? = some n) (hl : n.isLive = true)
    (hm : n.machine.step = (m, .ok .needsInput)) (ha : pos.answered = false) :
    Way net pos (net.reply pos.node { n with machine := m }) [.answer pos.node n.poll.1]
      [.answer pos.node n.poll.1] := by
  unfold reply
  rw [Node.poll_machine]
  rcases hs : m.supply n.poll.1 with ⟨m', e | u⟩
  · simp only [hs]
    exact .refused n m m' e hn hl hm ha hs
  · obtain ⟨node, answered⟩ := pos
    simp only [hs]
    exact .answered n m m' hn hl hm ha hs

/-- **A turn goes one of the ways.** -/
theorem way (net : Network) (pos : Position) :
    Way net pos (turn (net, pos)) (sights (net, pos)) (events (net, pos)) := by
  cases hn : net.nodes[pos.node]? with
  | none =>
    simp only [turn, sights, events, hn]
    exact .closed hn
  | some n =>
    cases hl : n.isLive with
    | false =>
      simp only [turn, sights, events, hn, hl, Bool.false_eq_true, if_false]
      exact .skipped n hn hl
    | true =>
      rw [turn_of_live hn hl]
      simp only [sights, events, hn, hl, if_true, serve, serveSights, serveEvents, Node.step_eq]
      rcases hm : n.machine.step with ⟨m, e | s⟩
      · exact .failed n m e hn hl hm
      · cases s with
        | executed => exact .executed n m hn hl hm
        | halted => exact .halted n m hn hl hm
        | output w => exact way_emit hn hl hm
        | needsInput =>
          simp only [Node.poll_machine]
          cases ha : pos.answered with
          | true => exact .parked n m hn hl hm ha
          | false => exact way_reply hn hl hm ha

/-- Nothing is seen of a node that is not at its turn. -/
theorem Way.node_eq {net : Network} {pos : Position} {t : Turn Schedule Outcome} {seen : List Sight}
    {new : List Event} (h : Way net pos t seen new) : ∀ e ∈ seen, e.node = pos.node := by
  intro e he
  cases h with
  | closed | skipped | executed | parked | halted | failed => cases he
  | gathered | sent | answered | refused =>
    rw [List.mem_singleton.1 he]
    rfl

/-! ## 3. The end of a round -/

/-- The network once a round is over. -/
def counted (net : Network) : Network := { net with rounds := net.rounds + 1 }

/-- The network once the monitor has decided to pass on a pair with this `y`. -/
def announced (net : Network) (y : Word) : Network :=
  { net.counted with
    monitor :=
      { net.monitor with
        pending := none, lastDelivered := some y, deliveries := net.monitor.deliveries + 1 } }

/-- The network once it has settled. -/
def settled (net : Network) : Network :=
  shutDown { net.counted with monitor := { net.monitor with pending := none } }

/-- **The ways in which a round ends**: what is left and what happens. -/
inductive Closing (net : Network) : Turn Schedule Outcome → List Event → Prop where
  /-- No node is live. -/
  | stopped (hl : net.anyLive = false) :
      Closing net (.done (net.counted, .error .allNodesStopped)) []
  /-- Some node has something to do. -/
  | busy (hl : net.anyLive = true) (hi : net.isIdle = false) : Closing net net.counted.nextRound []
  /-- The monitor has kept nothing. -/
  | waiting (hl : net.anyLive = true) (hi : net.isIdle = true) (hp : net.monitor.pending = none) :
      Closing net net.counted.nextRound []
  /-- The monitor passes a pair on. -/
  | passed (x y : Word) (hl : net.anyLive = true) (hi : net.isIdle = true)
      (hp : net.monitor.pending = some (x, y)) (hy : net.monitor.lastDelivered ≠ some y)
      (h0 : net.isLiveAt 0 = true) :
      Closing net
        ((net.announced y).modify 0 fun n => { n.accept x y with idle := false }).nextRound
        [.delivery x y]
  /-- The monitor would pass a pair on, but node 0 has stopped. -/
  | lost (x y : Word) (hl : net.anyLive = true) (hi : net.isIdle = true)
      (hp : net.monitor.pending = some (x, y)) (hy : net.monitor.lastDelivered ≠ some y)
      (h0 : net.isLiveAt 0 = false) :
      Closing net (.done (net.announced y, .error (.noOutput 0))) []
  /-- The monitor would pass the same `y` on again. -/
  | settled (x y : Word) (hl : net.anyLive = true) (hi : net.isIdle = true)
      (hp : net.monitor.pending = some (x, y)) (hy : net.monitor.lastDelivered = some y) :
      Closing net (.done (net.settled, .ok (net.settled.report y))) []

/-- **A round ends in one of the ways.** -/
theorem closing (net : Network) : Closing net net.closeRound net.closeEvents := by
  have hlive : net.counted.anyLive = net.anyLive := rfl
  have hidle : net.counted.isIdle = net.isIdle := rfl
  have hmonitor : net.counted.monitor = net.monitor := rfl
  show Closing net (if net.counted.anyLive then net.counted.consult else _) _
  unfold closeEvents consult
  rw [hlive, hidle, hmonitor]
  cases hl : net.anyLive with
  | false => exact .stopped hl
  | true =>
    cases hi : net.isIdle with
    | false => exact .busy hl hi
    | true =>
      simp only [Bool.and_self, if_true]
      unfold Monitor.onIdle
      cases hp : net.monitor.pending with
      | none => exact .waiting hl hi hp
      | some pair =>
        obtain ⟨x, y⟩ := pair
        by_cases hy : net.monitor.lastDelivered = some y
        · simp only [if_pos hy]
          exact .settled x y hl hi hp hy
        · simp only [if_neg hy]
          unfold deliver
          cases h0 : net.isLiveAt 0 with
          | false =>
            have hannounced : isLiveAt (net.announced y) 0 = false := h0
            unfold announced at hannounced
            simp only [hannounced]
            exact .lost x y hl hi hp hy h0
          | true =>
            have hannounced : isLiveAt (net.announced y) 0 = true := h0
            unfold announced at hannounced
            simp only [hannounced]
            exact .passed x y hl hi hp hy h0

/-! ## 4. What lasts -/

/-- Something holds of every node. -/
def Every (P : Node → Prop) (net : Network) : Prop :=
  ∀ (i : Nat) (n : Node), net.nodes[i]? = some n → P n

/-- **What lasts**: a property of nodes that is kept by all that is done to a node. -/
structure Lasting (P : Node → Prop) : Prop where
  step : ∀ n, P n → P { n with machine := n.machine.step.1 }
  answer : ∀ n, P n → P { n.poll.2 with machine := (n.machine.supply n.poll.1).1 }
  outgoing : ∀ n words, P n → P { n with outgoing := words, idle := false }
  accept : ∀ n x y, P n → P (n.accept x y)
  status : ∀ n status, P n → P { n with status := status }
  terminate : ∀ n, P n → P { n with machine := (n.machine.supply .terminate).1 }

section Lasting

variable {P : Node → Prop} {net : Network}

theorem Every.modify (h : net.Every P) {i : Nat} {f : Node → Node}
    (hf : ∀ n, net.nodes[i]? = some n → P (f n)) : (net.modify i f).Every P :=
  forall_modify (fun j n _ => h j n) hf

theorem Every.place (h : net.Every P) (i : Nat) {n' : Node} (hn' : P n') : (net.place i n').Every P :=
  h.modify fun _ _ => hn'

theorem Lasting.route (hP : Lasting P) (h : net.Every P) (p : Packet) : (net.route p).Every P := by
  intro i n hn
  rw [getElem?_route] at hn
  obtain ⟨n', hn', rfl⟩ := Option.map_eq_some_iff.1 hn
  split
  · exact hP.accept n' p.x p.y (h i n' hn')
  · exact h i n' hn'

theorem Lasting.fail (hP : Lasting P) (h : net.Every P) (i : Nat) (e : Fault) :
    (left (net.fail i e)).Every P := by
  unfold Network.fail
  split
  · exact h.modify fun n hn => hP.status n _ (h i n hn)
  · exact h

theorem Lasting.shutDown (hP : Lasting P) (h : net.Every P) : net.shutDown.Every P := by
  intro i n hn
  unfold Network.shutDown at hn
  rw [Array.getElem?_map] at hn
  obtain ⟨n', hn', rfl⟩ := Option.map_eq_some_iff.1 hn
  split
  · exact hP.status _ _ (hP.terminate n' (h i n' hn'))
  · exact h i n' hn'

theorem Lasting.closeRound (hP : Lasting P) (h : net.Every P) : (left net.closeRound).Every P := by
  have hclosing := net.closing
  generalize net.closeRound = t at hclosing ⊢
  generalize net.closeEvents = new at hclosing
  cases hclosing with
  | stopped | lost => exact h
  | busy | waiting =>
    rw [left_nextRound]
    exact h
  | passed x y =>
    have hannounced : (net.announced y).Every P := h
    rw [left_nextRound]
    exact hannounced.modify fun n hn => hP.outgoing _ n.outgoing (hP.accept n x y (h 0 n hn))
  | settled =>
    have hcounted : Every P { net.counted with monitor := { net.monitor with pending := none } } := h
    exact hP.shutDown hcounted

/-- **What lasts is kept by every turn.** -/
theorem Lasting.turn (hP : Lasting P) (h : net.Every P) (pos : Position) :
    (left (Network.turn (net, pos))).Every P := by
  have hway := net.way pos
  generalize Network.turn (net, pos) = t at hway ⊢
  generalize sights (net, pos) = seen at hway
  generalize events (net, pos) = new at hway
  have hstep : ∀ n m r, net.nodes[pos.node]? = some n → n.machine.step = (m, r) →
      P { n with machine := m } := by
    intro n m r hn hm
    have hkept := hP.step n (h _ n hn)
    rw [hm] at hkept
    exact hkept
  have hreply : ∀ n m r m' r', net.nodes[pos.node]? = some n → n.machine.step = (m, r) →
      m.supply n.poll.1 = (m', r') → P { n.poll.2 with machine := m' } := by
    intro n m r m' r' hn hm hs
    have hkept := hP.answer _ (hstep n m r hn hm)
    rw [Node.poll_machine, hs] at hkept
    exact hkept
  cases hway with
  | closed => exact hP.closeRound h
  | skipped => exact h
  | executed n m hn hl hm | parked n m hn hl hm => exact h.place _ (hstep n m _ hn hm)
  | gathered n m w hn hl hm => exact h.place _ (hP.outgoing _ _ (hstep n m _ hn hm))
  | sent n m w p hn hl hm => exact hP.route (h.place _ (hP.outgoing _ [] (hstep n m _ hn hm))) p
  | answered n m m' hn hl hm ha hs => exact h.place _ (hreply n m _ m' _ hn hm hs)
  | refused n m m' e hn hl hm ha hs => exact hP.fail (h.place _ (hreply n m _ m' _ hn hm hs)) _ e
  | halted n m hn hl hm => exact h.place _ (hP.status _ .halted (hstep n m _ hn hm))
  | failed n m e hn hl hm => exact hP.fail (h.place _ (hstep n m _ hn hm)) _ e

end Lasting

end Network

end WordMachine
