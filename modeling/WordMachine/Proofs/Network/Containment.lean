import WordMachine.Proofs.Lifecycle
import WordMachine.Proofs.Network.Ways

/-!
# Stopped nodes and contained failures

A node that has halted or failed takes no part in its network any more. Nothing reaches it and nothing
changes it, in this run and in all later ones; and a node that fails either is left out, or its fault is
what the run ends with.

* `Network.Later` -- what comes after a point of the runs of a network, with the log of what happens
  meanwhile;
* `Network.Spares` -- stopped nodes are left as they are. Every turn spares them (`spares_turn`);
* `Network.dropped_turn` -- the packets dropped are those that are for no live node and not for the
  monitor;
* `Node.Accounted` -- the status of a node agrees with the fault of its machine. Every turn keeps this
  (`accounted_turn`);
* `Network.faultAt` -- the fault that the machine at its turn is about to show, and what comes of it;
* `Network.failures_contained` -- all of this for the runs of all networks.
-/

namespace WordMachine

namespace Network

variable {net net' : Network} {pos : Position} {i : Nat} {n n' : Node} {e : Fault}

/-! ## 1. Later -/

/-- **What comes after a point of the runs of a network**: turn after turn, with the log of what happens
    meanwhile. A run that has ended may be followed by another one. -/
inductive Later (s : Schedule) : Schedule → List Event → Prop where
  | now : Later s s []
  | turn (t t' : Schedule) (log : List Event) (h : Later s t log) (ht : turn t = .more t') :
      Later s t' (log ++ events t)
  | again (t : Schedule) (net : Network) (r : Except Failure Report) (log : List Event)
      (h : Later s t log) (ht : turn t = .done (net, r)) :
      Later s (net, ⟨0, false⟩) (log ++ events t)

/-- What every turn keeps of the network and the log holds at every later point. -/
theorem Later.invariant {P : Network → List Event → Prop} {s t : Schedule} {log : List Event}
    (h : Later s t log) (hs : P s.1 [])
    (keep : ∀ net pos log, P net log → P (left (Network.turn (net, pos))) (log ++ events (net, pos))) :
    P t.1 log := by
  induction h with
  | now => exact hs
  | turn t t' log _ ht ih | again t net r log _ ht ih =>
    have hkept := keep t.1 t.2 log ih
    rw [ht] at hkept
    exact hkept

theorem Course.later {start : Network} {s : Schedule} {log : List Event} (h : Course start s log) :
    Later (start, ⟨0, false⟩) s log := by
  induction h with
  | start => exact .now
  | turn s s' log _ ht ih => exact .turn s s' log ih ht
  | again s net r log _ ht ih => exact .again s net r log ih ht

/-- What a run leaves comes later. -/
theorem Later.run {s : Schedule} {fuel : Nat} {outcome : Outcome} (hpos : s.2 = ⟨0, false⟩)
    (hr : Network.run fuel s.1 = some outcome) : ∃ new, Later s (outcome.1, ⟨0, false⟩) new := by
  obtain ⟨net, pos⟩ := s
  obtain rfl : pos = ⟨0, false⟩ := hpos
  unfold Network.run at hr
  split at hr
  · obtain rfl := Option.some.inj hr
    exact ⟨[], .now⟩
  · refine Turn.run_invariant (P := fun t => ∃ new, Later (net, ⟨0, false⟩) t new)
      (Q := fun r => ∃ new, Later (net, ⟨0, false⟩) (r.1, ⟨0, false⟩) new) ?_ ?_ hr ⟨[], .now⟩
    · rintro t t' ⟨new, hnew⟩ ht
      exact ⟨_, .turn t t' new hnew ht⟩
    · rintro t r ⟨new, hnew⟩ ht
      exact ⟨_, .again t r.1 r.2 new hnew ht⟩

/-! ## 2. Stopped nodes -/

/-- **Stopped nodes are left as they are.** -/
def Spares (net net' : Network) : Prop :=
  ∀ (i : Nat) (n : Node), net.nodes[i]? = some n → n.isLive = false → net'.nodes[i]? = some n

theorem spares_of_nodes (h : net'.nodes = net.nodes) : Spares net net' := by
  intro i n hn _
  rw [h]
  exact hn

theorem Spares.trans {net'' : Network} (h : Spares net net') (h' : Spares net' net'') :
    Spares net net'' :=
  fun i n hn hl => h' i n (h i n hn hl) hl

/-- To change a live node spares the others. -/
theorem spares_modify (hl : net.isLiveAt i = true) (f : Node → Node) : Spares net (net.modify i f) := by
  intro j n hn hstopped
  have hij : i ≠ j := by
    rintro rfl
    rw [isLiveAt, hn, Option.any_some, hstopped] at hl
    cases hl
  rw [getElem?_modify, if_neg hij]
  exact hn

theorem isLiveAt_of_live (hn : net.nodes[i]? = some n) (hl : n.isLive = true) :
    net.isLiveAt i = true := by
  rw [isLiveAt, hn]
  exact hl

theorem spares_place (hn : net.nodes[i]? = some n) (hl : n.isLive = true) (n' : Node) :
    Spares net (net.place i n') :=
  spares_modify (isLiveAt_of_live hn hl) _

/-- Packets go to live nodes. -/
theorem spares_route (net : Network) (p : Packet) : Spares net (net.route p) := by
  intro i n hn hl
  have hno : net.isLiveAt i = false := by
    rw [isLiveAt, hn]
    exact hl
  rw [getElem?_route, hn, Option.map_some, if_neg]
  rw [hno]
  nofun

theorem spares_fail (hn : net.nodes[i]? = some n) (hl : n.isLive = true) (n' : Node) (e : Fault) :
    Spares net (left ((net.place i n').fail i e)) := by
  unfold fail
  split
  · rw [modify_place]
    exact spares_place hn hl _
  · exact spares_place hn hl _

theorem spares_shutDown (net : Network) : Spares net net.shutDown := by
  intro i n hn hl
  unfold shutDown
  rw [Array.getElem?_map, hn, Option.map_some, if_neg]
  rw [hl]
  nofun

theorem spares_closeRound (net : Network) : Spares net (left net.closeRound) := by
  have hclosing := net.closing
  generalize net.closeRound = t at hclosing ⊢
  generalize net.closeEvents = new at hclosing
  cases hclosing with
  | stopped | lost => exact spares_of_nodes rfl
  | busy | waiting =>
    rw [left_nextRound]
    exact spares_of_nodes rfl
  | passed x y hl hi hp hy h0 =>
    rw [left_nextRound]
    have hannounced : Spares net (net.announced y) := spares_of_nodes rfl
    have hlive : (net.announced y).isLiveAt 0 = true := h0
    exact hannounced.trans (spares_modify hlive _)
  | settled =>
    have hcounted : Spares net { net.counted with monitor := { net.monitor with pending := none } } :=
      spares_of_nodes rfl
    exact hcounted.trans (spares_shutDown _)

/-- **Every turn spares the nodes that have stopped.** -/
theorem spares_turn (net : Network) (pos : Position) : Spares net (left (turn (net, pos))) := by
  have hway := net.way pos
  generalize turn (net, pos) = t at hway ⊢
  generalize sights (net, pos) = seen at hway
  generalize events (net, pos) = new at hway
  cases hway with
  | closed => exact spares_closeRound net
  | skipped => exact spares_of_nodes rfl
  | executed n m hn hl | gathered n m w hn hl | parked n m hn hl | answered n m m' hn hl
  | halted n m hn hl => exact spares_place hn hl _
  | sent n m w p hn hl => exact (spares_place hn hl _).trans (spares_route _ p)
  | refused n m m' e hn hl | failed n m e hn hl => exact spares_fail hn hl _ e

theorem size_fail (net : Network) (i : Nat) (e : Fault) :
    (left (net.fail i e)).nodes.size = net.nodes.size := by
  unfold fail
  split
  · exact Array.size_modify
  · rfl

theorem size_closeRound (net : Network) : (left net.closeRound).nodes.size = net.nodes.size := by
  have hclosing := net.closing
  generalize net.closeRound = t at hclosing ⊢
  generalize net.closeEvents = new at hclosing
  cases hclosing with
  | stopped | lost => rfl
  | busy | waiting =>
    rw [left_nextRound]
    rfl
  | passed =>
    rw [left_nextRound]
    exact Array.size_modify
  | settled => exact Array.size_map

/-- No turn adds or removes a node. -/
theorem size_turn (net : Network) (pos : Position) :
    (left (turn (net, pos))).nodes.size = net.nodes.size := by
  have hway := net.way pos
  generalize turn (net, pos) = t at hway ⊢
  generalize sights (net, pos) = seen at hway
  generalize events (net, pos) = new at hway
  cases hway with
  | closed => exact size_closeRound net
  | skipped => rfl
  | executed | gathered | parked | answered | halted => exact Array.size_modify
  | sent n m w p => exact (size_route _ p).trans Array.size_modify
  | refused n m m' e | failed n m e => exact (size_fail _ _ e).trans Array.size_modify

theorem Later.size {s t : Schedule} {log : List Event} (h : Later s t log) :
    t.1.nodes.size = s.1.nodes.size :=
  h.invariant (P := fun net _ => net.nodes.size = s.1.nodes.size) rfl
    fun net pos _ hkept => (size_turn net pos).trans hkept

theorem Later.spares {s t : Schedule} {log : List Event} (h : Later s t log) : Spares s.1 t.1 :=
  h.invariant (P := fun net _ => Spares s.1 net) (spares_of_nodes rfl)
    fun net pos _ hkept => hkept.trans (spares_turn net pos)

/-! ## 3. Packets dropped -/

/-- The packet that is dropped, as it is for no live node and not for the monitor. -/
def Event.dropped? (monitorAddress : Word) : Event → Option Packet
  | .packet _ p live =>
    if p.destination ≠ monitorAddress ∧ (Word.address? p.destination).any live = false then some p
    else none
  | .answer .. | .delivery .. => none

/-- The packets that a log says were dropped. -/
def droppedIn (monitorAddress : Word) (log : List Event) : List Packet :=
  log.filterMap (Event.dropped? monitorAddress)

@[simp] theorem droppedIn_append (monitorAddress : Word) (log later : List Event) :
    droppedIn monitorAddress (log ++ later) =
      droppedIn monitorAddress log ++ droppedIn monitorAddress later :=
  List.filterMap_append

/-- A packet counts as dropped if nobody gets it. -/
theorem dropped_route (net : Network) (i : Nat) (p : Packet) :
    (net.route p).dropped =
      net.dropped + (droppedIn net.config.monitorAddress [.packet i p net.isLiveAt]).length := by
  have hany := net.receiver?_isSome p
  unfold route
  by_cases hm : p.destination = net.config.monitorAddress
  · simp [droppedIn, Event.dropped?, hm]
  · rw [if_neg hm]
    cases hr : net.receiver? p with
    | some j =>
      rw [hr, Option.isSome_some] at hany
      simp [droppedIn, Event.dropped?, ← hany, modify]
    | none =>
      rw [hr, Option.isSome_none] at hany
      simp [droppedIn, Event.dropped?, hm, ← hany]

theorem dropped_fail (net : Network) (i : Nat) (e : Fault) :
    (left (net.fail i e)).dropped = net.dropped := by
  unfold fail
  split <;> rfl

theorem config_fail (net : Network) (i : Nat) (e : Fault) :
    (left (net.fail i e)).config = net.config := by
  unfold fail
  split <;> rfl

/-- What comes after a round drops nothing and changes no configuration. -/
theorem dropped_closeRound (net : Network) :
    (left net.closeRound).config = net.config ∧ (left net.closeRound).dropped = net.dropped ∧
      droppedIn net.config.monitorAddress net.closeEvents = [] := by
  have hclosing := net.closing
  generalize net.closeRound = t at hclosing ⊢
  generalize net.closeEvents = new at hclosing ⊢
  cases hclosing with
  | stopped | lost | settled => exact ⟨rfl, rfl, rfl⟩
  | busy | waiting | passed =>
    rw [left_nextRound]
    exact ⟨rfl, rfl, rfl⟩

/-- **A turn counts the packet that it drops**, and changes no configuration. -/
theorem dropped_turn (net : Network) (pos : Position) :
    (left (turn (net, pos))).config = net.config ∧
      (left (turn (net, pos))).dropped =
        net.dropped + (droppedIn net.config.monitorAddress (events (net, pos))).length := by
  have hway := net.way pos
  generalize turn (net, pos) = t at hway ⊢
  generalize sights (net, pos) = seen at hway
  generalize events (net, pos) = new at hway ⊢
  cases hway with
  | closed =>
    obtain ⟨hconfig, hdropped, hnone⟩ := dropped_closeRound net
    refine ⟨hconfig, ?_⟩
    rw [hdropped, hnone]
    rfl
  | skipped | executed | gathered | parked | answered | halted => exact ⟨rfl, rfl⟩
  | sent n m w p hn hl =>
    refine ⟨config_route _ p, ?_⟩
    have hlive : (net.place pos.node { n with machine := m, outgoing := [], idle := false }).isLiveAt =
        net.isLiveAt := isLiveAt_place hn rfl
    rw [← hlive]
    exact dropped_route _ pos.node p
  | refused n m m' e | failed n m e =>
    refine ⟨config_fail _ _ e, ?_⟩
    rw [dropped_fail]
    rfl

/-- Which nodes are live when a packet is completed. -/
theorem live_of_packet {sender : Nat} {p : Packet} {live : Nat → Bool}
    (h : .packet sender p live ∈ events (net, pos)) : live = net.isLiveAt := by
  have hway := net.way pos
  generalize turn (net, pos) = t at hway
  generalize sights (net, pos) = seen at hway
  generalize events (net, pos) = new at hway h
  cases hway with
  | closed =>
    unfold closeEvents at h
    split at h
    · split at h
      · split at h <;> simp at h
      all_goals simp at h
    · simp at h
  | skipped | executed | gathered | parked | halted | failed => cases h
  | answered | refused => simp at h
  | sent n m w q => simp_all

theorem Later.config {s t : Schedule} {log : List Event} (h : Later s t log) :
    t.1.config = s.1.config :=
  h.invariant (P := fun net _ => net.config = s.1.config) rfl
    fun net pos _ hkept => (dropped_turn net pos).1.trans hkept

theorem Later.dropped {s t : Schedule} {log : List Event} (h : Later s t log) :
    t.1.dropped = s.1.dropped + (droppedIn s.1.config.monitorAddress log).length := by
  refine (h.invariant (P := fun net log => net.config = s.1.config ∧
    net.dropped = s.1.dropped + (droppedIn s.1.config.monitorAddress log).length) ⟨rfl, rfl⟩ ?_).2
  rintro net pos log ⟨hconfig, hdropped⟩
  obtain ⟨hconfig', hdropped'⟩ := dropped_turn net pos
  refine ⟨hconfig'.trans hconfig, ?_⟩
  rw [hdropped', hdropped, hconfig, droppedIn_append, List.length_append, Nat.add_assoc]

/-- **Every packet for a node that has stopped is dropped**, unless it is for the monitor. -/
theorem Later.packet_dropped {s t : Schedule} {log : List Event} (h : Later s t log)
    (hn : s.1.nodes[i]? = some n) (hl : n.isLive = false) (monitorAddress : Word) {sender : Nat}
    {p : Packet} {live : Nat → Bool} (hp : .packet sender p live ∈ log)
    (hi : p.destination.toInt = i) (hm : p.destination ≠ monitorAddress) :
    (Event.packet sender p live).dropped? monitorAddress = some p := by
  -- the node is spared all the time, so it is not live when the packet is completed
  have hstopped : live i = false := by
    refine (h.invariant (P := fun net log => net.nodes[i]? = some n ∧
      ∀ sender p live, .packet sender p live ∈ log → live i = false) ⟨hn, nofun⟩ ?_).2 sender p live hp
    rintro net pos log ⟨hn, hpackets⟩
    refine ⟨spares_turn net pos i n hn hl, fun sender p live hmem => ?_⟩
    rcases List.mem_append.1 hmem with hold | hnew
    · exact hpackets sender p live hold
    · rw [live_of_packet hnew, isLiveAt, hn]
      exact hl
  refine if_pos ⟨hm, ?_⟩
  rw [(Word.address?_eq_some_iff _ i).2 hi]
  exact hstopped

end Network

/-! ## 4. Failed nodes -/

namespace Node

/-- **The status of a node agrees with its machine.** If failures are isolated, exactly the nodes with a
    fault have failed, each by this fault; if they are not, no node has failed. -/
structure Accounted (isolating : Bool) (n : Node) : Prop where
  consistent : n.machine.Consistent
  failed_iff : isolating = true → ∀ e, n.status = .failed e ↔ n.machine.fault = some e
  not_failed : isolating = false → ∀ e, n.status ≠ .failed e

variable {isolating : Bool} {n n' : Node} {m : Machine} {s : Machine.Step} {e : Fault}

/-- Queues and flags have no part in it. -/
theorem Accounted.of_same (h : n.Accounted isolating) (hm : n'.machine = n.machine)
    (hs : n'.status = n.status) : n'.Accounted isolating where
  consistent := by
    rw [hm]
    exact h.consistent
  failed_iff := by
    rw [hm, hs]
    exact h.failed_iff
  not_failed := by
    rw [hs]
    exact h.not_failed

/-- A node whose machine has no fault has not failed. -/
theorem Accounted.status_ne (h : n.Accounted isolating) (hf : n.machine.fault = none) :
    n.status ≠ .failed e := by
  cases hi : isolating with
  | false => exact h.not_failed hi e
  | true =>
    rw [ne_eq, h.failed_iff hi, hf]
    nofun

theorem accounted_of_sound (hm : n.machine.Consistent) (hf : n.machine.fault = none)
    (hs : ∀ e, n.status ≠ .failed e) : n.Accounted isolating where
  consistent := hm
  failed_iff _ e := by
    rw [hf]
    exact ⟨fun he => absurd he (hs e), nofun⟩
  not_failed _ := hs

theorem Accounted.step (h : n.Accounted isolating) (hm : n.machine.step = (m, .ok s)) :
    Accounted isolating { n with machine := m } := by
  obtain ⟨hf, hf'⟩ := Machine.fault_of_step_ok hm
  have hstep := h.consistent.step
  rw [hm] at hstep
  exact accounted_of_sound hstep hf' fun _ => h.status_ne hf

theorem Accounted.supply (h : n.Accounted isolating) (answer : Answer) :
    Accounted isolating { n with machine := (n.machine.supply answer).1 } where
  consistent := h.consistent.supply answer
  failed_iff := by
    rw [Machine.fault_supply]
    exact h.failed_iff
  not_failed := h.not_failed

/-- A live node has no fault that would be lost when it is taken for halted. -/
theorem Accounted.halt (h : n.Accounted isolating) (hl : n.isLive = true) :
    Accounted isolating { n with status := .halted } where
  consistent := h.consistent
  failed_iff hi e := by
    refine ⟨nofun, fun hf => ?_⟩
    have hfailed := (h.failed_iff hi e).2 hf
    rw [isLive, hfailed] at hl
    cases hl
  not_failed := nofun

/-- A node that is polled keeps its machine and its status. -/
theorem poll_keeps (n : Node) : n.poll.2.machine = n.machine ∧ n.poll.2.status = n.status := by
  unfold poll
  split
  · cases n.inbound.next? <;> exact ⟨rfl, rfl⟩
  · exact ⟨rfl, rfl⟩

end Node

namespace Network

variable {net net' : Network} {pos : Position} {i : Nat} {n n' : Node} {e : Fault} {isolating : Bool}

theorem accounted_route (h : net.Every (Node.Accounted isolating)) (p : Packet) :
    (net.route p).Every (Node.Accounted isolating) := by
  intro i n hn
  rw [getElem?_route] at hn
  obtain ⟨n', hn', rfl⟩ := Option.map_eq_some_iff.1 hn
  split
  · exact (h i n' hn').of_same rfl rfl
  · exact h i n' hn'

/-- A node whose machine is at fault fails, or the run ends without it. -/
theorem accounted_fail (h : net.Every (Node.Accounted isolating))
    (hc : net.config.isolateFailures = isolating) (hn : net.nodes[i]? = some n)
    (hm : n'.machine.Consistent) (hf : n'.machine.fault = some e) (hs : n'.status = n.status) :
    (left ((net.place i n').fail i e)).Every (Node.Accounted isolating) := by
  have hconfig : (net.place i n').config.isolateFailures = isolating := hc
  unfold fail
  rw [hconfig]
  cases hi : isolating with
  | false =>
    rw [hi] at h
    refine h.place i ⟨hm, nofun, fun _ e' => ?_⟩
    rw [hs]
    exact (h i n hn).not_failed rfl e'
  | true =>
    rw [hi] at h
    rw [if_pos rfl, modify_place]
    refine h.place i ⟨hm, fun _ e' => ?_, nofun⟩
    show NodeStatus.failed e = .failed e' ↔ n'.machine.fault = some e'
    rw [hf]
    simp

theorem accounted_closeRound (h : net.Every (Node.Accounted isolating)) :
    (left net.closeRound).Every (Node.Accounted isolating) := by
  have hclosing := net.closing
  generalize net.closeRound = t at hclosing ⊢
  generalize net.closeEvents = new at hclosing
  cases hclosing with
  | stopped | lost => exact h
  | busy | waiting =>
    rw [left_nextRound]
    exact h
  | passed x y =>
    have hannounced : (net.announced y).Every (Node.Accounted isolating) := h
    rw [left_nextRound]
    exact hannounced.modify fun n hn => (h 0 n hn).of_same rfl rfl
  | settled =>
    intro i n hn
    have hn : net.settled.nodes[i]? = some n := hn
    unfold settled shutDown at hn
    rw [Array.getElem?_map] at hn
    obtain ⟨n', hn', rfl⟩ := Option.map_eq_some_iff.1 hn
    split
    · exact ((h i n' hn').supply .terminate).halt ‹_›
    · exact h i n' hn'

/-- **Every turn keeps the status of all nodes in agreement with their machines.** -/
theorem accounted_turn (h : net.Every (Node.Accounted net.config.isolateFailures)) (pos : Position) :
    (left (turn (net, pos))).Every (Node.Accounted net.config.isolateFailures) := by
  have hway := net.way pos
  generalize turn (net, pos) = t at hway ⊢
  generalize sights (net, pos) = seen at hway
  generalize events (net, pos) = new at hway
  cases hway with
  | closed => exact accounted_closeRound h
  | skipped => exact h
  | executed n m hn hl hm | parked n m hn hl hm => exact h.place _ ((h _ n hn).step hm)
  | gathered n m w hn hl hm => exact h.place _ (((h _ n hn).step hm).of_same rfl rfl)
  | sent n m w p hn hl hm =>
    have hcleared : Node.Accounted net.config.isolateFailures
        { n with machine := m, outgoing := [], idle := false } := ((h _ n hn).step hm).of_same rfl rfl
    exact accounted_route (h.place _ hcleared) p
  | answered n m m' hn hl hm ha hs =>
    have hsupply := ((h _ n hn).step hm).supply n.poll.1
    rw [hs] at hsupply
    exact h.place _ (hsupply.of_same rfl n.poll_keeps.2)
  | refused n m m' e hn hl hm ha hs =>
    -- an answer to a consistent machine is taken
    have hok := (h _ n hn).consistent.supply_ok_of_needsInput hm n.poll.1
    rw [hs] at hok
    cases hok
  | halted n m hn hl hm => exact h.place _ (((h _ n hn).step hm).halt hl)
  | failed n m e hn hl hm =>
    have hm' := (h _ n hn).consistent.step
    rw [hm] at hm'
    exact accounted_fail h rfl hn hm' ((h _ n hn).consistent.fault_of_step_error hm) rfl

/-- All nodes of a network are accounted for, whatever it is set up to do with failures. -/
def AllAccounted (net : Network) : Prop := net.Every (Node.Accounted net.config.isolateFailures)

theorem AllAccounted.turn (h : net.AllAccounted) (pos : Position) :
    (left (turn (net, pos))).AllAccounted := by
  unfold AllAccounted
  rw [(dropped_turn net pos).1]
  exact accounted_turn h pos

theorem Later.allAccounted {s t : Schedule} {log : List Event} (h : Later s t log)
    (hs : s.1.AllAccounted) : t.1.AllAccounted :=
  h.invariant (P := fun net _ => net.AllAccounted) hs fun _ pos _ hkept => hkept.turn pos

theorem allAccounted_ofMachines {machines : List Machine} {config : Config}
    (h : ∀ m ∈ machines, m.Reachable ∧ m.fault = none) : (ofMachines machines config).AllAccounted := by
  intro i n hn
  unfold ofMachines at hn
  rw [List.getElem?_toArray, List.getElem?_mapIdx] at hn
  obtain ⟨m, hm, rfl⟩ := Option.map_eq_some_iff.1 hn
  obtain ⟨hreachable, hfault⟩ := h m (List.mem_of_getElem? hm)
  have hm := hreachable.consistent
  unfold enrol
  split
  · exact Node.accounted_of_sound ⟨hm.awaiting, hm.stopped⟩ hfault nofun
  · exact Node.accounted_of_sound ⟨hm.awaiting, hm.stopped⟩ hfault nofun

/-! ## 5. What comes of a fault -/

/-- **The fault that the machine at its turn is about to show**, with the number of its node. -/
def faultAt : Schedule → Option (Nat × Fault)
  | (net, pos) =>
    match net.nodes[pos.node]? with
    | none => none
    | some n =>
      if n.isLive then
        match n.machine.step.2 with
        | .ok _ => none
        | .error e => some (pos.node, e)
      else none

theorem faultAt_eq_some_iff {s : Schedule} :
    faultAt s = some (i, e) ↔ s.2.node = i ∧ ∃ n m, s.1.nodes[i]? = some n ∧ n.isLive = true ∧
      n.machine.step = (m, .error e) := by
  obtain ⟨net, pos⟩ := s
  simp only [faultAt]
  constructor
  · intro h
    split at h
    · cases h
    · rename_i n hn
      split at h
      · rename_i hl
        rcases hm : n.machine.step with ⟨m, e' | s⟩
        · rw [hm] at h
          cases h
          exact ⟨rfl, n, m, hn, hl, hm⟩
        · rw [hm] at h
          cases h
      · cases h
  · rintro ⟨rfl, n, m, hn, hl, hm⟩
    simp only [hn, hl, hm, if_true]

/-- A machine at fault is what its node fails by. -/
theorem turn_of_faultAt {s : Schedule} (h : faultAt s = some (i, e)) :
    ∃ n m, s.1.nodes[i]? = some n ∧ n.isLive = true ∧ n.machine.step = (m, .error e) ∧
      turn s = (s.1.place i { n with machine := m }).fail i e := by
  obtain ⟨net, pos⟩ := s
  obtain ⟨rfl, n, m, hn, hl, hm⟩ := faultAt_eq_some_iff.1 h
  refine ⟨n, m, hn, hl, hm, ?_⟩
  rw [turn_of_live hn hl]
  simp only [serve, Node.step_eq, hm]

/-- **A failure that is isolated touches no other node**: the failed one is left out, and the turn
    passes. -/
theorem turn_of_isolated {s : Schedule} (hc : s.1.config.isolateFailures = true)
    (h : faultAt s = some (i, e)) :
    ∃ n m, s.1.nodes[i]? = some n ∧ n.machine.step = (m, .error e) ∧
      turn s = .more (s.1.place i { n with machine := m, status := .failed e }, ⟨i + 1, false⟩) := by
  obtain ⟨n, m, hn, -, hm, hturn⟩ := turn_of_faultAt h
  refine ⟨n, m, hn, hm, ?_⟩
  have hconfig : (s.1.place i { n with machine := m }).config.isolateFailures = true := hc
  rw [hturn, fail, if_pos hconfig, modify_place]
  rfl

/-- **A failure that is not isolated ends the run.** -/
theorem turn_of_not_isolated {s : Schedule} (hc : s.1.config.isolateFailures = false)
    (h : faultAt s = some (i, e)) :
    ∃ n m, s.1.nodes[i]? = some n ∧ n.machine.step = (m, .error e) ∧
      turn s = .done (s.1.place i { n with machine := m }, .error (.node i e)) := by
  obtain ⟨n, m, hn, -, hm, hturn⟩ := turn_of_faultAt h
  refine ⟨n, m, hn, hm, ?_⟩
  have hconfig : ¬ (s.1.place i { n with machine := m }).config.isolateFailures = true := by
    show ¬ s.1.config.isolateFailures = true
    rw [hc]
    nofun
  rw [hturn, fail, if_neg hconfig]

theorem ne_node_of_closeRound {r : Except Failure Report} (h : net.closeRound = .done (net', r)) :
    r ≠ .error (.node i e) := by
  have hclosing := net.closing
  generalize net.closeRound = t at hclosing h
  generalize net.closeEvents = new at hclosing
  cases hclosing with
  | stopped | lost | settled =>
    cases h
    nofun
  | busy | waiting | passed =>
    rw [stalled_of_nextRound h]
    nofun

/-- **A run ends with a node at fault only if its machine is**, and only if failures are not isolated. -/
theorem faultAt_of_done {s : Schedule} (h : s.1.AllAccounted)
    (ht : turn s = .done (net', .error (.node i e))) :
    faultAt s = some (i, e) ∧ s.1.config.isolateFailures = false := by
  obtain ⟨net, pos⟩ := s
  have hway := net.way pos
  generalize turn (net, pos) = t at hway ht
  generalize sights (net, pos) = seen at hway
  generalize events (net, pos) = new at hway
  cases hway with
  | closed => exact absurd rfl (ne_node_of_closeRound ht)
  | skipped | executed | gathered | sent | parked | answered | halted => cases ht
  | refused n m m' e hn hl hm ha hs =>
    have hok := (h _ n hn).consistent.supply_ok_of_needsInput hm n.poll.1
    rw [hs] at hok
    cases hok
  | failed n m e' hn hl hm =>
    unfold fail at ht
    split at ht
    · cases ht
    · rename_i hc
      cases ht
      exact ⟨faultAt_eq_some_iff.2 ⟨rfl, n, m, hn, hl, hm⟩, Bool.eq_false_iff.2 hc⟩

/-- The states of a run are accounted for, and its configuration is the one that it began with. -/
theorem reached_keeps (h : net.AllAccounted) {t : Schedule}
    (ht : Turn.Reaches turn (net, ⟨0, false⟩) t) : t.1.AllAccounted ∧ t.1.config = net.config := by
  refine ht.invariant (P := fun t => t.1.AllAccounted ∧ t.1.config = net.config) ⟨h, rfl⟩ ?_
  rintro a b ⟨ha, hc⟩ hab
  have haccounted := ha.turn a.2
  have hconfig := (dropped_turn a.1 a.2).1
  rw [hab] at haccounted hconfig
  exact ⟨haccounted, hconfig.trans hc⟩

/-- A network without nodes shows no fault. -/
theorem faultAt_of_isEmpty (h : net.nodes.isEmpty = true) {t : Schedule}
    (ht : Turn.Reaches turn (net, ⟨0, false⟩) t) : faultAt t = none := by
  have hnone : net.nodes[0]? = none := by
    rw [Array.isEmpty_iff.1 h]
    rfl
  have hturn : turn (net, ⟨0, false⟩) = .done (net.counted, .error .allNodesStopped) := by
    have hlive : net.counted.anyLive = false := by
      show net.nodes.any Node.isLive = false
      simp [Array.isEmpty_iff.1 h]
    simp only [turn, hnone]
    exact if_neg (Bool.eq_false_iff.1 hlive)
  obtain rfl : t = (net, ⟨0, false⟩) := by
    refine ht.invariant (P := fun t => t = (net, ⟨0, false⟩)) rfl ?_
    rintro a b rfl hab
    rw [hturn] at hab
    cases hab
  simp only [faultAt, hnone]

/-- **The result of a run names a node exactly if its machine has shown this fault in the run** and
    failures are not isolated. -/
theorem run_node_iff (h : net.AllAccounted) {fuel : Nat} {r : Except Failure Report}
    (hr : run fuel net = some (net', r)) :
    r = .error (.node i e) ↔ net.config.isolateFailures = false ∧
      ∃ t, Turn.Reaches turn (net, ⟨0, false⟩) t ∧ faultAt t = some (i, e) := by
  unfold run at hr
  split at hr
  · rename_i hempty
    cases hr
    refine ⟨nofun, ?_⟩
    rintro ⟨-, t, ht, hfault⟩
    rw [faultAt_of_isEmpty hempty ht] at hfault
    cases hfault
  · constructor
    · rintro rfl
      refine Turn.run_invariant (P := Turn.Reaches turn (net, ⟨0, false⟩))
        (Q := fun r => r.2 = .error (.node i e) → net.config.isolateFailures = false ∧
          ∃ t, Turn.Reaches turn (net, ⟨0, false⟩) t ∧ faultAt t = some (i, e)) ?_ ?_ hr .start rfl
      · intro t t' ht htt'
        exact .step t t' ht htt'
      · rintro t ⟨net', r⟩ ht hdone rfl
        obtain ⟨haccounted, hconfig⟩ := reached_keeps h ht
        obtain ⟨hfault, hisolate⟩ := faultAt_of_done haccounted hdone
        exact ⟨hconfig ▸ hisolate, t, ht, hfault⟩
    · rintro ⟨hisolate, t, ht, hfault⟩
      obtain ⟨-, hconfig⟩ := reached_keeps h ht
      obtain ⟨n, m, -, -, hturn⟩ := turn_of_not_isolated (hconfig ▸ hisolate) hfault
      have hends := (ht.ends (.of_done hturn)).unique ⟨fuel, hr⟩
      exact (congrArg Prod.snd hends).symm

/-! ## 6. All runs -/

/-- **Stopped nodes are frozen, and failures are contained**, at every point of all the runs of a network of
    machines without a fault.

    No node is lost. One that has stopped stays exactly as it is, whatever comes later, and each packet that
    is completed for it later is dropped, unless it is for the monitor; the packets dropped are counted.

    If failures are isolated, no run ends with a node at fault, and a node has failed if and only if its
    machine has this fault; when a machine shows a fault, its node fails, and nothing else changes.

    If failures are not isolated, no node ever counts as failed. A fault that a machine shows ends the run,
    so the first one is the only one, and it is what the run comes out with, together with the number of the
    node. -/
theorem failures_contained (machines : List Machine) (config : Config)
    (sound : ∀ m ∈ machines, m.Reachable ∧ m.fault = none) (s : Schedule) (log : List Event)
    (h : Course (ofMachines machines config) s log) :
    (∀ (s' : Schedule) (new : List Event), Later s s' new →
      s'.1.nodes.size = s.1.nodes.size ∧
      s'.1.dropped = s.1.dropped + (droppedIn config.monitorAddress new).length ∧
      ∀ (i : Nat) (n : Node), s.1.nodes[i]? = some n → n.isLive = false →
        s'.1.nodes[i]? = some n ∧
        ∀ sender p live, .packet sender p live ∈ new → p.destination.toInt = (i : Int) →
          p.destination ≠ config.monitorAddress →
            (Event.packet sender p live).dropped? config.monitorAddress = some p) ∧
    (∀ fuel outcome, s.2 = ⟨0, false⟩ → run fuel s.1 = some outcome →
      ∃ new, Later s (outcome.1, ⟨0, false⟩) new) ∧
    (config.isolateFailures = true →
      (∀ (i : Nat) (n : Node) (e : Fault), s.1.nodes[i]? = some n →
        (n.status = .failed e ↔ n.machine.fault = some e)) ∧
      (∀ (i : Nat) (e : Fault), faultAt s = some (i, e) → ∃ n m, s.1.nodes[i]? = some n ∧
        n.machine.step = (m, .error e) ∧
        turn s = .more (s.1.place i { n with machine := m, status := .failed e }, ⟨i + 1, false⟩)) ∧
      ∀ fuel net r (i : Nat) (e : Fault), run fuel s.1 = some (net, r) → r ≠ .error (.node i e)) ∧
    (config.isolateFailures = false →
      (∀ (i : Nat) (n : Node) (e : Fault), s.1.nodes[i]? = some n → n.status ≠ .failed e) ∧
      (∀ (i : Nat) (e : Fault), faultAt s = some (i, e) → ∃ n m, s.1.nodes[i]? = some n ∧
        n.machine.step = (m, .error e) ∧
        turn s = .done (s.1.place i { n with machine := m }, .error (.node i e))) ∧
      ∀ fuel net r (i : Nat) (e : Fault), run fuel s.1 = some (net, r) →
        (r = .error (.node i e) ↔
          ∃ t, Turn.Reaches turn (s.1, ⟨0, false⟩) t ∧ faultAt t = some (i, e))) := by
  have hconfig : s.1.config.isolateFailures = config.isolateFailures ∧
      s.1.config.monitorAddress = config.monitorAddress := by
    rw [h.later.config]
    exact ⟨rfl, rfl⟩
  obtain ⟨hisolate, haddress⟩ := hconfig
  have hall := h.later.allAccounted (allAccounted_ofMachines sound)
  refine ⟨fun s' new hlater => ⟨hlater.size, ?_, fun i n hn hl => ⟨hlater.spares i n hn hl, ?_⟩⟩,
    fun fuel outcome hpos hr => Later.run hpos hr, fun hi => ⟨?_, ?_, ?_⟩, fun hi => ⟨?_, ?_, ?_⟩⟩
  · rw [← haddress]
    exact hlater.dropped
  · intro sender p live
    exact hlater.packet_dropped hn hl config.monitorAddress
  · intro i n e hn
    exact (hall i n hn).failed_iff (hisolate.trans hi) e
  · intro i e hfault
    exact turn_of_isolated (hisolate.trans hi) hfault
  · intro fuel net r i e hr hnode
    have hno := ((run_node_iff hall hr).1 hnode).1
    rw [hisolate, hi] at hno
    cases hno
  · intro i n e hn
    exact (hall i n hn).not_failed (hisolate.trans hi) e
  · intro i e hfault
    exact turn_of_not_isolated (hisolate.trans hi) hfault
  · intro fuel net r i e hr
    rw [run_node_iff hall hr]
    exact and_iff_right (hisolate.trans hi)

/-- Node 0 sends a packet to node 1 in each round, and node 1 comes to a word that is no instruction. The
    first run is over after one round, and the second one when node 0 has halted: node 1 has failed in the
    first and is left as it is by the second, which drops the packet. If failures are not isolated, the run
    comes out with the fault of node 1. -/
theorem failures_contained_second_packet_dropped :
    let machines := [Machine.ofProgram [3, 17, 104, 1, 104, 5, 104, 6, 3, 17, 104, 1, 104, 7, 104, 8, 99, 0],
      Machine.ofProgram [3, 3, 98, 0]]
    let isolated := ofMachines machines { maxRounds := some 1, isolateFailures := true }
    ∃ (first second : Outcome) (n : Node) (t : Schedule),
      run 20 isolated = some first ∧ run 20 first.1 = some second ∧
      first.1.nodes[1]? = some n ∧ n.status = .failed (.decode 98 2) ∧
      n.machine.fault = some (.decode 98 2) ∧ second.1.nodes[1]? = some n ∧
      first.1.dropped = 0 ∧ second.1.dropped = 1 ∧
      Turn.Reaches turn (ofMachines machines {}, ⟨0, false⟩) t ∧ faultAt t = some (1, .decode 98 2) := by
  intro machines isolated
  have hsound : ∀ m ∈ machines, m.Reachable ∧ m.fault = none := by
    intro m hm
    rcases List.mem_cons.1 hm with rfl | hm
    · exact ⟨⟨_, [], .none _⟩, rfl⟩
    · obtain rfl := List.mem_singleton.1 hm
      exact ⟨⟨_, [], .none _⟩, rfl⟩
  have hruns : (run 20 isolated).any (fun first => first.1.dropped = 0 ∧
      (first.1.nodes[1]?).any (fun n => n.status = .failed (.decode 98 2)) ∧
      (run 20 first.1).any fun second => second.1.dropped = 1) = true := by decide +kernel
  obtain ⟨first, hfirst, hleft⟩ := (Option.any_eq_true ..).1 hruns
  obtain ⟨hnone, hnode, hagain⟩ := of_decide_eq_true hleft
  obtain ⟨n, hn, hstatus⟩ := (Option.any_eq_true ..).1 hnode
  obtain ⟨second, hsecond, hone⟩ := (Option.any_eq_true ..).1 hagain
  have hstatus := of_decide_eq_true hstatus
  obtain ⟨log, hcourse⟩ := Course.run .start hfirst
  obtain ⟨hlater, hleaves, hisolating, -⟩ := failures_contained machines _ hsound _ _ hcourse
  obtain ⟨new, hnew⟩ := hleaves 20 second rfl hsecond
  have hstopped : n.isLive = false := by
    rw [Node.isLive, hstatus]
    rfl
  obtain ⟨-, -, hspared⟩ := hlater _ new hnew
  have hplain : (run 20 (ofMachines machines {})).any (fun outcome =>
      match outcome.2 with
      | .error failure => failure = .node 1 (.decode 98 2)
      | .ok _ => false) = true := by decide +kernel
  obtain ⟨⟨net, r⟩, hrun, hresult⟩ := (Option.any_eq_true ..).1 hplain
  obtain ⟨-, -, -, hplainly⟩ := failures_contained machines {} hsound _ _ .start
  have hr : r = .error (.node 1 (.decode 98 2)) := by
    cases r with
    | error failure => exact congrArg Except.error (of_decide_eq_true hresult)
    | ok report => cases hresult
  obtain ⟨t, ht, hfault⟩ := ((hplainly rfl).2.2 20 net r 1 (.decode 98 2) hrun).1 hr
  exact ⟨first, second, n, t, hfirst, hsecond, hn, hstatus, ((hisolating rfl).1 1 n _ hn).1 hstatus,
    (hspared 1 n hn hstopped).1, hnone, of_decide_eq_true hone, ht, hfault⟩

end Network

end WordMachine
