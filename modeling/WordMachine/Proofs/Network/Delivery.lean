import WordMachine.Proofs.Network.Containment
import WordMachine.Proofs.Network.Convergence

/-!
# Which deliveries are made

When a network is idle, its monitor decides to pass a pair on and counts it; after that it turns out
whether there is a live node 0 to take it. This file counts the pairs that have arrived.

* `Network.Runs` -- any number of runs, turn after turn, with the log of what has happened and the results
  of the runs that have ended; `Runs.run` says that what `Network.run` leaves is among them;
* `Network.arrived_turn` -- what arrives at a node in a turn is what the log says;
* `Network.counted_turn` -- what the monitor counts in a turn is the delivery that the log tells of, and
  one more if the run ends for want of node 0;
* `Network.deliveries_counted` -- so the count is ahead of the deliveries made by as many runs as have
  ended in this way.
-/

namespace WordMachine

namespace Network

variable {net : Network} {n n' : Node} {i : Nat}

/-! ## 1. Runs -/

/-- **The runs of a network**, one after the other: where the scheduler stands, all that has happened so
    far, and the results of the runs that have ended. A network without nodes ends its runs at once. -/
inductive Runs (start : Network) : Schedule → List Event → List (Except Failure Report) → Prop where
  | start : Runs start (start, ⟨0, false⟩) [] []
  | turn (s s' : Schedule) (log : List Event) (results : List (Except Failure Report))
      (h : Runs start s log results) (ht : turn s = .more s') : Runs start s' (log ++ events s) results
  | ended (s : Schedule) (net : Network) (r : Except Failure Report) (log : List Event)
      (results : List (Except Failure Report)) (h : Runs start s log results)
      (ht : turn s = .done (net, r)) :
      Runs start (net, ⟨0, false⟩) (log ++ events s) (results ++ [r])
  | empty (net : Network) (log : List Event) (results : List (Except Failure Report))
      (h : Runs start (net, ⟨0, false⟩) log results) (hn : net.nodes.isEmpty = true) :
      Runs start (net, ⟨0, false⟩) log (results ++ [.error .empty])

section

variable {start : Network} {s : Schedule} {log : List Event} {results : List (Except Failure Report)}
  {fuel : Nat} {outcome : Outcome}

theorem Runs.turns (h : Runs start s log results)
    (hr : Turn.run Network.turn fuel s = some outcome) :
    ∃ later, Runs start (outcome.1, ⟨0, false⟩) (log ++ later) (results ++ [outcome.2]) := by
  induction fuel generalizing s log with
  | zero => cases hr
  | succ fuel ih =>
    rw [Turn.run_succ] at hr
    cases ht : Network.turn s with
    | more s' =>
      rw [ht] at hr
      obtain ⟨later, hlater⟩ := ih (.turn s s' log results h ht) hr
      exact ⟨events s ++ later, List.append_assoc log _ _ ▸ hlater⟩
    | done outcome' =>
      rw [ht] at hr
      obtain rfl := Option.some.inj hr
      exact ⟨events s, .ended s _ _ log results h ht⟩

/-- **What a run leaves, and its result, belong to the runs.** -/
theorem Runs.run (h : Runs start (net, ⟨0, false⟩) log results)
    (hr : Network.run fuel net = some outcome) :
    ∃ later, Runs start (outcome.1, ⟨0, false⟩) (log ++ later) (results ++ [outcome.2]) := by
  unfold Network.run at hr
  split at hr
  · rename_i hn
    obtain rfl := Option.some.inj hr
    exact ⟨[], (List.append_nil log).symm ▸ .empty net log results h hn⟩
  · exact h.turns hr

end

/-! ## 2. What arrives -/

/-- All words that have ever arrived at the node with a number; none at a node that is not there. -/
def arrived (net : Network) (i : Nat) : List Word :=
  (net.nodes[i]?).elim [] fun n => n.inbound.sent.toList

theorem arrived_of_node (hn : net.nodes[i]? = some n) : net.arrived i = n.inbound.sent.toList := by
  unfold arrived
  rw [hn]
  rfl

/-- A node whose queue gets nothing. -/
theorem arrived_modify {f : Node → Node}
    (hf : ∀ n, net.nodes[i]? = some n → (f n).inbound.sent = n.inbound.sent) :
    (net.modify i f).arrived = net.arrived := by
  funext j
  unfold arrived
  rw [getElem?_modify]
  split
  · rename_i hij
    subst hij
    cases hn : net.nodes[i]? with
    | none => rfl
    | some n => exact congrArg Array.toList (hf n hn)
  · rfl

theorem arrived_place (hn : net.nodes[i]? = some n) (h : n'.inbound.sent = n.inbound.sent) :
    (net.place i n').arrived = net.arrived :=
  arrived_modify fun m hm => by
    obtain rfl := Option.some.inj (hn.symm.trans hm)
    exact h

theorem arrived_fail (net : Network) (i : Nat) (e : Fault) :
    (left (net.fail i e)).arrived = net.arrived := by
  unfold fail
  split
  · exact arrived_modify fun _ _ => rfl
  · rfl

theorem arrived_shutDown (net : Network) : net.shutDown.arrived = net.arrived := by
  funext j
  unfold arrived shutDown
  rw [Array.getElem?_map]
  cases net.nodes[j]? with
  | none => rfl
  | some n =>
    show (if n.isLive then _ else n : Node).inbound.sent.toList = n.inbound.sent.toList
    split <;> rfl

/-- The two words of a packet arrive at its live node. -/
theorem arrived_route (net : Network) (k : Nat) (p : Packet) (i : Nat) :
    (net.route p).arrived i =
      net.arrived i ++ arrivals net.config.monitorAddress i [.packet k p net.isLiveAt] := by
  have hnew : arrivals net.config.monitorAddress i [.packet k p net.isLiveAt] =
      if p.destination ≠ net.config.monitorAddress ∧ p.destination.toInt = i ∧ net.isLiveAt i = true
      then [p.x, p.y] else [] := List.append_nil _
  rw [hnew]
  unfold arrived
  rw [getElem?_route]
  cases hn : net.nodes[i]? with
  | none =>
    have hl : net.isLiveAt i = false := by
      unfold isLiveAt
      rw [hn]
      rfl
    rw [hl, if_neg (by simp)]
    rfl
  | some n =>
    simp only [Option.map_some, Option.elim_some]
    split
    · simp [Node.accept, Fifo.push]
    · exact (List.append_nil _).symm

/-- The two words of a delivery arrive at node 0. -/
theorem arrived_deliver (h : net.isLiveAt 0 = true) (x y : Word) (monitorAddress : Word) (i : Nat) :
    (net.modify 0 fun n => { n.accept x y with idle := false }).arrived i =
      net.arrived i ++ arrivals monitorAddress i [.delivery x y] := by
  have hnew : arrivals monitorAddress i [.delivery x y] = if i = 0 then [x, y] else [] :=
    List.append_nil _
  rw [hnew]
  unfold arrived
  rw [getElem?_modify]
  by_cases hi : i = 0
  · subst hi
    obtain ⟨n, hn, -⟩ := (Option.any_eq_true ..).1 h
    rw [if_pos rfl, if_pos rfl, hn]
    simp [Node.accept, Fifo.push]
  · rw [if_neg (Ne.symm hi), if_neg hi, List.append_nil]

theorem arrived_closeRound (net : Network) (i : Nat) :
    (left net.closeRound).arrived i =
      net.arrived i ++ arrivals net.config.monitorAddress i net.closeEvents := by
  have hclosing := net.closing
  generalize net.closeRound = t at hclosing ⊢
  generalize net.closeEvents = new at hclosing ⊢
  cases hclosing with
  | stopped | lost => exact (List.append_nil _).symm
  | busy | waiting =>
    rw [left_nextRound]
    exact (List.append_nil _).symm
  | passed x y hl hi hp hy h0 =>
    rw [left_nextRound]
    have hlive : (net.announced y).isLiveAt 0 = true := h0
    exact arrived_deliver hlive x y _ i
  | settled =>
    exact (congrFun (arrived_shutDown _) i).trans (List.append_nil _).symm

theorem sent_poll (n : Node) : n.poll.2.inbound.sent = n.inbound.sent := by
  unfold Node.poll
  split
  · split <;> rfl
  · rfl

/-- **What arrives at a node in a turn is what the log says.** -/
theorem arrived_turn (net : Network) (pos : Position) (i : Nat) :
    (left (turn (net, pos))).arrived i =
      net.arrived i ++ arrivals net.config.monitorAddress i (events (net, pos)) := by
  have hway := net.way pos
  generalize turn (net, pos) = t at hway ⊢
  generalize sights (net, pos) = seen at hway
  generalize events (net, pos) = new at hway ⊢
  have hnone : ∀ {net' : Network}, net'.arrived = net.arrived →
      net'.arrived i = net.arrived i ++ [] := fun h => (congrFun h i).trans (List.append_nil _).symm
  cases hway with
  | closed => exact net.arrived_closeRound i
  | skipped => exact hnone rfl
  | executed n m hn | gathered n m w hn | parked n m hn | halted n m hn =>
    exact hnone (arrived_place hn rfl)
  | answered n m m' hn => exact hnone (arrived_place hn (sent_poll n))
  | refused n m m' e hn => exact hnone ((arrived_fail _ _ e).trans (arrived_place hn (sent_poll n)))
  | failed n m e hn => exact hnone ((arrived_fail _ _ e).trans (arrived_place hn rfl))
  | sent n m w p hn hl =>
    have hlive : (net.place pos.node { n with machine := m, outgoing := [], idle := false }).isLiveAt =
        net.isLiveAt := isLiveAt_place hn rfl
    have hplace : (net.place pos.node { n with machine := m, outgoing := [], idle := false }).arrived =
        net.arrived := arrived_place hn rfl
    rw [← hlive, ← hplace]
    exact arrived_route _ pos.node p i

/-! ## 3. What is counted -/

/-- The result of the run that a turn ends. -/
def ended : Turn Schedule Outcome → List (Except Failure Report)
  | .more _ => []
  | .done (_, r) => [r]

/-- The failure of a run that ends because there is no live node 0 to pass a pair on to. -/
def isLoss : Except Failure Report → Bool
  | .error (.noOutput 0) => true
  | .error _ | .ok _ => false

/-- The number of runs that have ended in this way. -/
def losses (results : List (Except Failure Report)) : Nat := results.countP isLoss

@[simp] theorem losses_append (results later : List (Except Failure Report)) :
    losses (results ++ later) = losses results + losses later :=
  List.countP_append

theorem isLoss_iff (r : Except Failure Report) : isLoss r = true ↔ r = .error (.noOutput 0) := by
  unfold isLoss
  split
  · exact ⟨fun _ => rfl, fun _ => rfl⟩
  · rename_i failure hne
    exact ⟨nofun, fun h => absurd (Except.error.inj h) hne⟩
  · exact ⟨nofun, nofun⟩

theorem losses_eq_zero_iff (results : List (Except Failure Report)) :
    losses results = 0 ↔ .error (.noOutput 0) ∉ results := by
  unfold losses
  rw [List.countP_eq_zero]
  simp only [isLoss_iff]
  exact ⟨fun h hmem => h _ hmem rfl, fun h r hr hloss => h (hloss ▸ hr)⟩

theorem losses_fail (net : Network) (i : Nat) (e : Fault) : losses (ended (net.fail i e)) = 0 := by
  unfold fail
  split <;> rfl

theorem losses_nextRound (net : Network) : losses (ended net.nextRound) = 0 := by
  unfold nextRound
  split
  · split <;> rfl
  · rfl

theorem deliveries_route (net : Network) (p : Packet) :
    (net.route p).monitor.deliveries = net.monitor.deliveries := by
  unfold route
  split
  · rfl
  · split <;> rfl

/-- **What the monitor counts after a round.** -/
theorem counted_closeRound (net : Network) :
    (left net.closeRound).monitor.deliveries =
      net.monitor.deliveries + (deliveries net.closeEvents).length + losses (ended net.closeRound) := by
  have hclosing := net.closing
  generalize net.closeRound = t at hclosing ⊢
  generalize net.closeEvents = new at hclosing ⊢
  cases hclosing with
  | stopped | settled => rfl
  -- counted, and not made
  | lost => rfl
  | busy | waiting =>
    rw [left_nextRound, losses_nextRound]
    rfl
  | passed x y =>
    rw [left_nextRound, losses_nextRound]
    rfl

/-- **What the monitor counts in a turn**: the delivery that is made, and the one that is lost. -/
theorem counted_turn (net : Network) (pos : Position) :
    (left (turn (net, pos))).monitor.deliveries =
      net.monitor.deliveries + (deliveries (events (net, pos))).length +
        losses (ended (turn (net, pos))) := by
  have hway := net.way pos
  generalize turn (net, pos) = t at hway ⊢
  generalize sights (net, pos) = seen at hway
  generalize events (net, pos) = new at hway ⊢
  cases hway with
  | closed => exact net.counted_closeRound
  | skipped | executed | gathered | parked | answered | halted => rfl
  | sent n m w p => exact deliveries_route _ p
  | refused n m m' e | failed n m e =>
    rw [monitor_fail, losses_fail]
    rfl

theorem closeRound_loses_iff (net : Network) :
    (∃ net', net.closeRound = .done (net', .error (.noOutput 0))) ↔
      net.anyLive = true ∧ net.isIdle = true ∧ net.isLiveAt 0 = false ∧
        ∃ x y, net.monitor.pending = some (x, y) ∧ net.monitor.lastDelivered ≠ some y := by
  have hclosing := net.closing
  generalize net.closeRound = t at hclosing ⊢
  generalize net.closeEvents = new at hclosing
  constructor
  · rintro ⟨net', ht⟩
    cases hclosing with
    | stopped | settled => cases ht
    | busy | waiting | passed => cases stalled_of_nextRound ht
    | lost x y hl hi hp hy h0 => exact ⟨hl, hi, h0, x, y, hp, hy⟩
  · rintro ⟨hl, hi, h0, x, y, hp, hy⟩
    cases hclosing with
    | stopped hl' => cases hl.symm.trans hl'
    | busy _ hi' => cases hi.symm.trans hi'
    | waiting _ _ hp' => cases hp.symm.trans hp'
    | passed _ _ _ _ _ _ h0' => cases h0.symm.trans h0'
    | lost => exact ⟨_, rfl⟩
    | settled x' y' _ _ hp' hy' =>
      cases hp.symm.trans hp'
      exact absurd hy' hy

/-- Only the turn that closes a round can end a run for want of node 0. -/
theorem node_of_loses {s : Schedule} {net : Network}
    (h : turn s = .done (net, .error (.noOutput 0))) : s.1.nodes[s.2.node]? = none := by
  have hloss : losses (ended (turn s)) = 1 := by
    rw [h]
    rfl
  have hway := s.1.way s.2
  generalize turn (s.1, s.2) = t at hway hloss
  generalize sights (s.1, s.2) = seen at hway
  generalize events (s.1, s.2) = new at hway
  cases hway with
  | closed hn => exact hn
  | skipped | executed | gathered | sent | parked | answered | halted =>
    exact absurd hloss Nat.zero_ne_one
  | refused | failed =>
    rw [losses_fail] at hloss
    cases hloss

/-- **When a run ends for want of node 0.** -/
theorem loses_iff (s : Schedule) :
    (∃ net, turn s = .done (net, .error (.noOutput 0))) ↔
      s.1.nodes[s.2.node]? = none ∧ s.1.anyLive = true ∧ s.1.isIdle = true ∧
        s.1.isLiveAt 0 = false ∧
        ∃ x y, s.1.monitor.pending = some (x, y) ∧ s.1.monitor.lastDelivered ≠ some y := by
  rw [← closeRound_loses_iff]
  constructor
  · rintro ⟨net, ht⟩
    have hn := node_of_loses ht
    exact ⟨hn, net, (turn_of_size_le (Array.getElem?_eq_none_iff.1 hn)).symm.trans ht⟩
  · rintro ⟨hn, net, ht⟩
    exact ⟨net, (turn_of_size_le (Array.getElem?_eq_none_iff.1 hn)).trans ht⟩

/-! ## 4. All runs -/

/-- **The accounts of the deliveries.** -/
structure Delivered (monitorAddress : Word) (net : Network) (log : List Event)
    (results : List (Except Failure Report)) : Prop where
  address : net.config.monitorAddress = monitorAddress
  counted : net.monitor.deliveries = (deliveries log).length + losses results
  arrived : ∀ i, net.arrived i = arrivals monitorAddress i log

variable {monitorAddress : Word} {start : Network} {s : Schedule} {log : List Event}
  {results : List (Except Failure Report)}

/-- **Every turn keeps the accounts**, whether it ends a run or not. -/
theorem Delivered.turn (h : Delivered monitorAddress net log results) (pos : Position) :
    Delivered monitorAddress (left (turn (net, pos))) (log ++ events (net, pos))
      (results ++ ended (turn (net, pos))) where
  address := (congrArg Config.monitorAddress (dropped_turn net pos).1).trans h.address
  counted := by
    rw [counted_turn, h.counted, deliveries_append, List.length_append, losses_append]
    omega
  arrived i := by
    rw [arrived_turn, h.arrived, h.address, arrivals_append]

theorem Runs.delivered (h : Runs start s log results) (hstart : Delivered monitorAddress start [] []) :
    Delivered monitorAddress s.1 log results := by
  induction h with
  | start => exact hstart
  | turn s s' log results _ ht ih =>
    have hkept := ih.turn s.2
    rw [ht] at hkept
    exact List.append_nil results ▸ hkept
  | ended s net r log results _ ht ih =>
    have hkept := ih.turn s.2
    rw [ht] at hkept
    exact hkept
  | empty net log results _ hn ih =>
    refine ⟨ih.address, ?_, ih.arrived⟩
    rw [losses_append]
    exact ih.counted

theorem delivered_ofMachines (machines : List Machine) (config : Config) :
    Delivered config.monitorAddress (ofMachines machines config) [] [] where
  address := rfl
  counted := rfl
  arrived i := by
    unfold Network.arrived ofMachines
    rw [List.getElem?_toArray, List.getElem?_mapIdx]
    cases machines[i]? <;> rfl

/-- **The monitor counts a delivery before it is made.** At every point of any runs of any network: all
    that has ever arrived at a node is what the log says, packets and deliveries, word by word; the
    deliveries that the monitor has counted are those of the log, which are the pairs that have arrived
    at node 0, and one more for each run that has ended because node 0 was not live. So the two numbers
    are the same as long as no run has ended in this way. A run does end so when, after a round, some node
    is live and all that are live are idle, node 0 has stopped, and the monitor keeps a pair whose `y` it
    has not passed on last. What a run leaves belongs to the runs, with its result. -/
theorem deliveries_counted (machines : List Machine) (config : Config) (s : Schedule)
    (log : List Event) (results : List (Except Failure Report))
    (h : Runs (ofMachines machines config) s log results) :
    (∀ i n, s.1.nodes[i]? = some n →
      n.inbound.sent.toList = arrivals config.monitorAddress i log) ∧
    s.1.monitor.deliveries = (deliveries log).length + losses results ∧
    (s.1.monitor.deliveries = (deliveries log).length ↔ .error (.noOutput 0) ∉ results) ∧
    ((∃ net, turn s = .done (net, .error (.noOutput 0))) ↔
      s.1.nodes[s.2.node]? = none ∧ s.1.anyLive = true ∧ s.1.isIdle = true ∧
        s.1.isLiveAt 0 = false ∧
        ∃ x y, s.1.monitor.pending = some (x, y) ∧ s.1.monitor.lastDelivered ≠ some y) ∧
    ∀ fuel outcome, s.2 = ⟨0, false⟩ → run fuel s.1 = some outcome →
      ∃ later, Runs (ofMachines machines config) (outcome.1, ⟨0, false⟩) (log ++ later)
        (results ++ [outcome.2]) := by
  have hdelivered := h.delivered (delivered_ofMachines machines config)
  have hcounted := hdelivered.counted
  refine ⟨fun i n hn => ?_, hcounted, ?_, loses_iff s, fun fuel outcome hpos hrun => ?_⟩
  · rw [← arrived_of_node hn]
    exact hdelivered.arrived i
  · rw [← losses_eq_zero_iff]
    omega
  · obtain ⟨net, pos⟩ := s
    obtain rfl : pos = ⟨0, false⟩ := hpos
    exact h.run hrun

/-- A network that settles after two deliveries: both have been made. -/
theorem deliveries_counted_two_made :
    ∃ net report log, run 70 (ofMachines [Machine.ofProgram [3, 28, 104, 255, 104, 1, 104, 1, 3, 28, 1008,
        28, -1, 29, 1005, 29, 8, 3, 28, 104, 255, 104, 5, 104, 2, 1105, 1, 8, 0, 0],
        Machine.ofProgram [3, 7, 3, 7, 1105, 1, 2, 0]] {}) = some (net, .ok report) ∧
      net.monitor.deliveries = 2 ∧ (deliveries log).length = 2 ∧
      ∀ n, net.nodes[0]? = some n → n.inbound.sent.toList = arrivals 255 0 log := by
  have heval : (run 70 (ofMachines [Machine.ofProgram [3, 28, 104, 255, 104, 1, 104, 1, 3, 28, 1008, 28,
      -1, 29, 1005, 29, 8, 3, 28, 104, 255, 104, 5, 104, 2, 1105, 1, 8, 0, 0],
      Machine.ofProgram [3, 7, 3, 7, 1105, 1, 2, 0]] {})).any
      (fun outcome => outcome.2.toOption.isSome && decide (outcome.1.monitor.deliveries = 2)) = true := by
    decide +kernel
  obtain ⟨⟨net, r⟩, houtcome, hleft⟩ := (Option.any_eq_true ..).1 heval
  obtain ⟨hreport, hdecided⟩ := Bool.and_eq_true_iff.1 hleft
  have hcount : net.monitor.deliveries = 2 := of_decide_eq_true hdecided
  cases r with
  | error failure => cases hreport
  | ok report =>
    obtain ⟨later, hruns⟩ := Runs.start.run houtcome
    obtain ⟨harrived, -, hmade, -⟩ := deliveries_counted _ _ _ _ _ hruns
    exact ⟨net, report, _, houtcome, hcount, (hmade.2 (by simp)).symm.trans hcount, harrived 0⟩

/-- **A delivery is counted that is never made**: node 0 halts at once, and node 1 sends a packet to the
    monitor and listens. The first run ends because node 0 is not live; the second one settles, and its
    report tells of a delivery to node 0, whose queue has got nothing. -/
theorem deliveries_counted_unmade :
    ∃ net net' log,
      run 60 (ofMachines [Machine.ofProgram [99], Machine.ofProgram [3, 15, 104, 255, 104, 1, 104, 2, 3,
        15, 3, 15, 1105, 1, 2, 0]] {}) = some (net, .error (.noOutput 0)) ∧
      run 60 net = some (net', .ok ⟨2, some ⟨255, 1, 2⟩, 4, 1, 0⟩) ∧
      Runs (ofMachines [Machine.ofProgram [99], Machine.ofProgram [3, 15, 104, 255, 104, 1, 104, 2, 3, 15,
        3, 15, 1105, 1, 2, 0]] {}) (net, ⟨0, false⟩) log [.error (.noOutput 0)] ∧
      net.monitor.deliveries = 1 ∧ deliveries log = [] ∧
      (net'.nodes[0]?).map (fun n => n.inbound.sent) = some #[] := by
  have heval : (run 60 (ofMachines [Machine.ofProgram [99], Machine.ofProgram [3, 15, 104, 255, 104, 1,
      104, 2, 3, 15, 3, 15, 1105, 1, 2, 0]] {})).any (fun first =>
        isLoss first.2 && decide (first.1.monitor.deliveries = 1) && (run 60 first.1).any fun second =>
          decide (second.2.toOption = some ⟨2, some ⟨255, 1, 2⟩, 4, 1, 0⟩ ∧
            (second.1.nodes[0]?).map (fun n => n.inbound.sent) = some #[])) = true := by
    decide +kernel
  obtain ⟨⟨net, r⟩, hfirst, hleft⟩ := (Option.any_eq_true ..).1 heval
  obtain ⟨hloss, hrest⟩ := Bool.and_eq_true_iff.1 hleft
  obtain ⟨hloss, hdecided⟩ := Bool.and_eq_true_iff.1 hloss
  obtain ⟨⟨net', r'⟩, hsecond, hdecided'⟩ := (Option.any_eq_true ..).1 hrest
  obtain ⟨hreport, hqueue⟩ := of_decide_eq_true hdecided'
  have hcount : net.monitor.deliveries = 1 := of_decide_eq_true hdecided
  obtain rfl : r = .error (.noOutput 0) := (isLoss_iff r).1 hloss
  cases r' with
  | error failure => cases hreport
  | ok report =>
    obtain rfl := Option.some.inj hreport
    obtain ⟨later, hruns⟩ := Runs.start.run hfirst
    have hcounted := (hruns.delivered (delivered_ofMachines _ _)).counted
    have hlength : 1 = (deliveries later).length + 1 := hcount.symm.trans hcounted
    exact ⟨net, net', later, hfirst, hsecond, hruns, hcount,
      List.eq_nil_of_length_eq_zero (Nat.succ.inj hlength).symm, hqueue⟩

end Network

end WordMachine
