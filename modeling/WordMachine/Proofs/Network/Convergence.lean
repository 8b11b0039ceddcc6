import WordMachine.Proofs.Network.Idle

/-!
# What is told of a network that has settled

A run that ends with a report says which `y` the network has settled on, what the monitor received first
and how often it has passed on a pair. All of this can be read off the log of the run:

* `Network.received`, `Network.deliveries` -- what a log says of the monitor;
* `Network.Monitored` -- the monitor agrees with the log. Every turn of a run keeps this
  (`Monitored.turn`);
* `Network.terminated_of_settled` -- the nodes that are live when the network settles wait for input, so
  all of them can be told to end;
* `Network.converged_report` -- for the runs of all networks.
-/

namespace WordMachine

namespace Network

/-! ## 1. What a log says of the monitor -/

/-- The pair that the monitor passes on. -/
def Event.delivery? : Event → Option (Word × Word)
  | .delivery x y => some (x, y)
  | .packet .. | .answer .. => none

/-- The packets that the monitor has received. -/
def received (monitorAddress : Word) (log : List Event) : List Packet :=
  log.filterMap (Event.toMonitor? monitorAddress)

/-- The pairs that the monitor has passed on to node 0. -/
def deliveries (log : List Event) : List (Word × Word) := log.filterMap Event.delivery?

@[simp] theorem received_append (monitorAddress : Word) (log later : List Event) :
    received monitorAddress (log ++ later) =
      received monitorAddress log ++ received monitorAddress later :=
  List.filterMap_append

@[simp] theorem deliveries_append (log later : List Event) :
    deliveries (log ++ later) = deliveries log ++ deliveries later :=
  List.filterMap_append

theorem received_packet {monitorAddress : Word} {p : Packet} (hp : p.destination = monitorAddress)
    (i : Nat) (live : Nat → Bool) : received monitorAddress [.packet i p live] = [p] := by
  simp [received, Event.toMonitor?, hp]

theorem received_packet_of_ne {monitorAddress : Word} {p : Packet}
    (hp : p.destination ≠ monitorAddress) (i : Nat) (live : Nat → Bool) :
    received monitorAddress [.packet i p live] = [] := by
  simp [received, Event.toMonitor?, hp]

/-- No word comes twice in a row. -/
def Varied (words : List Word) : Prop :=
  ∀ (k : Nat) (w w' : Word), words[k]? = some w → words[k + 1]? = some w' → w ≠ w'

theorem Varied.concat {words : List Word} {w : Word} (h : Varied words)
    (hw : words.getLast? ≠ some w) : Varied (words ++ [w]) := by
  intro k a b ha hb
  by_cases hk : k + 1 < words.length
  · rw [List.getElem?_append_left (Nat.lt_of_succ_lt hk)] at ha
    rw [List.getElem?_append_left hk] at hb
    exact h k a b ha hb
  · have hlen := (List.getElem?_eq_some_iff.1 hb).1
    rw [List.length_append, List.length_singleton] at hlen
    have hlast : k + 1 = words.length := by omega
    rw [hlast, List.getElem?_concat_length] at hb
    obtain rfl := Option.some.inj hb
    rw [List.getElem?_append_left (by omega)] at ha
    intro hab
    apply hw
    rw [List.getLast?_eq_getElem?, ← hlast, ← hab]
    exact ha

/-! ## 2. The monitor agrees with the log -/

/-- **What the monitor knows of its last delivery**: which `y` it has passed on then, and the last packet
    that it has received since. -/
def Since (monitorAddress : Word) (monitor : Monitor) (log : List Event) : Prop :=
  ∃ before x y later, log = before ++ .delivery x y :: later ∧ deliveries later = [] ∧
    monitor.lastDelivered = some y ∧
    monitor.pending = (received monitorAddress later).getLast?.map fun p => (p.x, p.y)

/-- **The monitor agrees with the log.** -/
structure Monitored (monitorAddress : Word) (net : Network) (log : List Event) : Prop where
  address : net.config.monitorAddress = monitorAddress
  first : net.monitor.first = (received monitorAddress log).head?
  count : net.monitor.deliveries = (deliveries log).length
  varied : Varied ((deliveries log).map Prod.snd)
  since : (net.monitor.lastDelivered = none ∧ deliveries log = []) ∨
    Since monitorAddress net.monitor log

variable {monitorAddress : Word} {net net' : Network} {monitor : Monitor} {log new : List Event}

theorem Since.later (h : Since monitorAddress monitor log) (hr : received monitorAddress new = [])
    (hd : deliveries new = []) : Since monitorAddress monitor (log ++ new) := by
  obtain ⟨before, x, y, later, rfl, hlater, hlast, hpending⟩ := h
  refine ⟨before, x, y, later ++ new, ?_, ?_, hlast, ?_⟩
  · rw [List.append_assoc, List.cons_append]
  · rw [deliveries_append, hlater, hd]
    rfl
  · rw [received_append, hr, List.append_nil]
    exact hpending

theorem Since.receive (h : Since monitorAddress monitor log) {p : Packet}
    (hr : received monitorAddress new = [p]) (hd : deliveries new = []) :
    Since monitorAddress (monitor.receive p) (log ++ new) := by
  obtain ⟨before, x, y, later, rfl, hlater, hlast, -⟩ := h
  refine ⟨before, x, y, later ++ new, ?_, ?_, hlast, ?_⟩
  · rw [List.append_assoc, List.cons_append]
  · rw [deliveries_append, hlater, hd]
    rfl
  · rw [received_append, hr, List.getLast?_concat]
    rfl

/-- The last `y` that was passed on. -/
theorem Monitored.getLast? (h : Monitored monitorAddress net log) :
    ((deliveries log).map Prod.snd).getLast? = net.monitor.lastDelivered := by
  rcases h.since with ⟨hnone, hlog⟩ | ⟨before, x, y, later, hlog, hlater, hlast, -⟩
  · rw [hlog, hnone]
    rfl
  · have hone : deliveries (Event.delivery x y :: later) = [(x, y)] := by
      show (x, y) :: deliveries later = [(x, y)]
      rw [hlater]
    rw [hlog, deliveries_append, hone, List.map_append, hlast]
    exact List.getLast?_concat

/-- What does not concern the monitor changes nothing. -/
theorem Monitored.later (h : Monitored monitorAddress net log) (hm : net'.monitor = net.monitor)
    (hc : net'.config = net.config) (hr : received monitorAddress new = [])
    (hd : deliveries new = []) : Monitored monitorAddress net' (log ++ new) where
  address := hc ▸ h.address
  first := by
    rw [hm, received_append, hr, List.append_nil]
    exact h.first
  count := by
    rw [hm, deliveries_append, hd, List.append_nil]
    exact h.count
  varied := by
    rw [deliveries_append, hd, List.append_nil]
    exact h.varied
  since := by
    rw [hm, deliveries_append, hd, List.append_nil]
    rcases h.since with hnone | hsince
    · exact .inl hnone
    · exact .inr (hsince.later hr hd)

/-- The monitor receives a packet. -/
theorem Monitored.receive (h : Monitored monitorAddress net log) {p : Packet}
    (hm : net'.monitor = net.monitor.receive p) (hc : net'.config = net.config)
    (hr : received monitorAddress new = [p]) (hd : deliveries new = []) :
    Monitored monitorAddress net' (log ++ new) where
  address := hc ▸ h.address
  first := by
    rw [hm, received_append, hr, List.head?_append, ← h.first]
    rfl
  count := by
    rw [hm, deliveries_append, hd, List.append_nil]
    exact h.count
  varied := by
    rw [deliveries_append, hd, List.append_nil]
    exact h.varied
  since := by
    rw [hm, deliveries_append, hd, List.append_nil]
    rcases h.since with hnone | hsince
    · exact .inl hnone
    · exact .inr (hsince.receive hr hd)

/-- The monitor passes on another `y` than the time before. -/
theorem Monitored.deliver (h : Monitored monitorAddress net log) {x y : Word}
    (hy : net.monitor.lastDelivered ≠ some y) (hm : net'.monitor = (net.announced y).monitor)
    (hc : net'.config = net.config) :
    Monitored monitorAddress net' (log ++ [.delivery x y]) where
  address := hc ▸ h.address
  first := by
    rw [hm, received_append]
    exact h.first.trans (congrArg List.head? (List.append_nil _).symm)
  count := by
    rw [hm, deliveries_append, List.length_append, ← h.count]
    rfl
  varied := by
    rw [deliveries_append, List.map_append]
    refine h.varied.concat ?_
    rw [h.getLast?]
    exact hy
  since := by
    rw [hm]
    exact .inr ⟨log, x, y, [], rfl, rfl, rfl, rfl⟩

/-- A packet is received by the monitor if it is for the monitor. -/
theorem Monitored.route (h : Monitored monitorAddress net log) (i : Nat) (p : Packet)
    (live : Nat → Bool) : Monitored monitorAddress (net.route p) (log ++ [.packet i p live]) := by
  by_cases hp : p.destination = monitorAddress
  · have hroute : net.route p = { net with monitor := net.monitor.receive p } :=
      if_pos (hp.trans h.address.symm)
    exact h.receive (congrArg Network.monitor hroute) (config_route net p) (received_packet hp i live)
      rfl
  · have hmonitor : (net.route p).monitor = net.monitor := by
      unfold Network.route
      rw [h.address, if_neg hp]
      split
      · rfl
      · rfl
    exact h.later hmonitor (config_route net p) (received_packet_of_ne hp i live) rfl

theorem Monitored.place (h : Monitored monitorAddress net log) (i : Nat) (n : Node) :
    Monitored monitorAddress (net.place i n) log :=
  ⟨h.address, h.first, h.count, h.varied, h.since⟩

theorem Monitored.fail (h : Monitored monitorAddress net log) {i : Nat} {e : Fault} {s' : Schedule}
    (ht : net.fail i e = .more s') (hr : received monitorAddress new = [])
    (hd : deliveries new = []) : Monitored monitorAddress s'.1 (log ++ new) := by
  unfold Network.fail at ht
  split at ht
  · obtain rfl := Turn.more.inj ht
    exact h.later rfl rfl hr hd
  · cases ht

/-- What comes after a round, if a next one begins. -/
theorem Monitored.closeRound (h : Monitored monitorAddress net log) {s' : Schedule}
    (ht : net.closeRound = .more s') : Monitored monitorAddress s'.1 (log ++ net.closeEvents) := by
  have hclosing := net.closing
  generalize net.closeRound = t at hclosing ht
  generalize net.closeEvents = new at hclosing ⊢
  cases hclosing with
  -- a pair that is lost is counted without a delivery, but then the run is over
  | stopped | lost | settled => cases ht
  | busy | waiting =>
    obtain rfl := eq_of_nextRound ht
    exact h.later rfl rfl rfl rfl
  | passed x y hl hi hp hy h0 =>
    obtain rfl := eq_of_nextRound ht
    exact h.deliver hy rfl rfl

/-- **Every turn of a run keeps the monitor and the log in agreement.** -/
theorem Monitored.turn {pos : Position} {s' : Schedule} (h : Monitored monitorAddress net log)
    (ht : turn (net, pos) = .more s') :
    Monitored monitorAddress s'.1 (log ++ events (net, pos)) := by
  have hway := net.way pos
  generalize Network.turn (net, pos) = t at hway ht
  generalize sights (net, pos) = seen at hway
  generalize events (net, pos) = new at hway ⊢
  cases hway with
  | closed hn => exact h.closeRound ht
  | skipped | executed | gathered | parked | answered | halted =>
    obtain rfl := Turn.more.inj ht
    exact h.later rfl rfl rfl rfl
  | sent n m w p hn hl hm hw =>
    obtain rfl := Turn.more.inj ht
    exact (h.place _ _).route pos.node p net.isLiveAt
  | refused | failed => exact (h.place _ _).fail ht rfl rfl

theorem monitored_ofMachines (machines : List Machine) (config : Config) :
    Monitored config.monitorAddress (ofMachines machines config) [] :=
  ⟨rfl, rfl, rfl, nofun, .inl ⟨rfl, rfl⟩⟩

/-! ## 3. The end of every node -/

theorem getElem?_settled (net : Network) (i : Nat) :
    net.settled.nodes[i]? = (net.nodes[i]?).map fun n =>
      if n.isLive then { n with machine := (n.machine.supply .terminate).1, status := .halted } else n :=
  Array.getElem?_map

theorem isLive_settled {i : Nat} {n : Node} (hn : net.settled.nodes[i]? = some n) :
    n.isLive = false := by
  rw [getElem?_settled] at hn
  obtain ⟨n', hn', rfl⟩ := Option.map_eq_some_iff.1 hn
  split
  · rfl
  · rename_i hl
    exact Bool.eq_false_iff.2 hl

/-- **Every live node can be told to end** when the round is over, as it waits for input. -/
theorem terminated_of_settled {s : Schedule} {past round : List Sight} (h : InRound s past round)
    (hend : s.1.nodes.size ≤ s.2.node) {i : Nat} {n : Node} (hn : s.1.nodes[i]? = some n)
    (hl : n.isLive = true) :
    (n.machine.supply .terminate).2 = .ok () ∧
      ∃ n', s.1.settled.nodes[i]? = some n' ∧ n'.status = .halted ∧
        n'.machine.fault = none ∧ n'.machine.status = .halted := by
  obtain ⟨⟨hfault, hstatus⟩, -⟩ := h.atEnd hend hn hl
  have hsupply := Machine.supply_terminate hfault hstatus
  refine ⟨congrArg Prod.snd hsupply,
    { n with machine := { n.machine with status := .halted }, status := .halted }, ?_, rfl, hfault, rfl⟩
  rw [getElem?_settled, hn, Option.map_some, if_pos hl, hsupply]

/-! ## 4. The report -/

/-- A run that ends with a report, with the log of the run and the state of its last turn. -/
theorem logged_of_run {start net : Network} {fuel : Nat} {report : Report}
    (hstart : Monitored monitorAddress start []) (h : run fuel start = some (net, .ok report)) :
    ∃ log s, Turn.run (Turn.noted events turn) fuel ((start, ⟨0, false⟩), #[]) =
        some ((net, .ok report), List.toArray log) ∧
      Turn.Reaches turn (start, ⟨0, false⟩) s ∧ turn s = .done (net, .ok report) ∧
      Monitored monitorAddress s.1 log := by
  have hrun : Turn.run turn fuel (start, ⟨0, false⟩) = some (net, .ok report) := by
    unfold run at h
    split at h
    · cases h
    · exact h
  have hkeep : ∀ (s s' : Schedule) (log : List Event),
      Turn.Reaches turn (start, ⟨0, false⟩) s ∧ Monitored monitorAddress s.1 log →
      turn s = .more s' →
      Turn.Reaches turn (start, ⟨0, false⟩) s' ∧ Monitored monitorAddress s'.1 (log ++ events s) :=
    fun s s' log hs ht => ⟨.step s s' hs.1 ht, hs.2.turn ht⟩
  obtain ⟨s, log, ⟨hreaches, hmonitored⟩, hdone, hnoted⟩ :=
    Turn.run_noted_invariant hkeep #[] hrun ⟨.start, hstart⟩
  obtain ⟨-, -, hevents, -⟩ := settled_of_turn hdone
  rw [hevents, List.append_nil] at hnoted
  exact ⟨log, s, hnoted, hreaches, hdone, hmonitored⟩

/-- What the monitor knows when it would pass on the same `y` again. -/
theorem Monitored.converged (h : Monitored monitorAddress net log) {x y : Word}
    (hp : net.monitor.pending = some (x, y)) (hy : net.monitor.lastDelivered = some y) :
    1 ≤ (deliveries log).length ∧ ((received monitorAddress log).head?).isSome = true ∧
      ∃ before x' later, log = before ++ .delivery x' y :: later ∧ deliveries later = [] ∧
        (received monitorAddress later).getLast?.map Packet.y = some y := by
  rcases h.since with ⟨hnone, -⟩ | ⟨before, x', y', later, hlog, hlater, hlast, hpending⟩
  · rw [hnone] at hy
    cases hy
  · obtain rfl := Option.some.inj (hlast.symm.trans hy)
    obtain ⟨p, hp', hpair⟩ := Option.map_eq_some_iff.1 (hpending.symm.trans hp)
    have hpacket : p ∈ received monitorAddress log := by
      rw [hlog, received_append]
      exact List.mem_append_right _ (List.mem_of_getLast? hp')
    refine ⟨?_, ?_, before, x', later, hlog, hlater, ?_⟩
    · rw [hlog, deliveries_append, List.length_append]
      show 1 ≤ (deliveries before).length + ((deliveries later).length + 1)
      omega
    · exact List.isSome_head?.2 (List.ne_nil_of_mem hpacket)
    · rw [hp']
      exact congrArg (fun pair => some pair.2) hpair

/-- **What is told of a network that has settled is true of the run.** Take the log of the run and the
    state in which it has settled. The monitor has passed on as many pairs as are told, at least one, and
    never the same `y` twice in a row. The packet told of is the first one that it has received. The `y`
    that the network has settled on is the one that was passed on last, and it is also the one of the last
    packet that the monitor has received since. No node is live afterwards, and all that were live could
    be told to end, and their machines have halted. -/
theorem converged_report (machines : List Machine) (config : Config) (fuel : Nat) (net : Network)
    (report : Report) (h : run fuel (ofMachines machines config) = some (net, .ok report)) :
    ∃ (log : List Event) (s : Schedule),
      Turn.run (Turn.noted events turn) fuel ((ofMachines machines config, ⟨0, false⟩), #[]) =
        some ((net, .ok report), log.toArray) ∧
      Turn.Reaches turn (ofMachines machines config, ⟨0, false⟩) s ∧
      turn s = .done (net, .ok report) ∧
      1 ≤ report.deliveries ∧ report.deliveries = (deliveries log).length ∧
      report.firstPacket = (received config.monitorAddress log).head? ∧
      report.firstPacket.isSome = true ∧
      (∃ before x later, log = before ++ .delivery x report.convergedY :: later ∧
        deliveries later = [] ∧
        (received config.monitorAddress later).getLast?.map Packet.y = some report.convergedY) ∧
      Varied ((deliveries log).map Prod.snd) ∧
      (∀ (i : Nat) (n : Node), net.nodes[i]? = some n → n.isLive = false) ∧
      ∀ (i : Nat) (n : Node), s.1.nodes[i]? = some n → n.isLive = true →
        (n.machine.supply .terminate).2 = .ok () ∧
          ∃ n', net.nodes[i]? = some n' ∧ n'.status = .halted ∧
            n'.machine.fault = none ∧ n'.machine.status = .halted := by
  obtain ⟨log, s, hnoted, hreaches, hdone, hmonitored⟩ :=
    logged_of_run (monitored_ofMachines machines config) h
  obtain ⟨hend, -, -, x, y, hp, hy, rfl, rfl⟩ := settled_of_turn hdone
  obtain ⟨hpos, hsome, hlast⟩ := hmonitored.converged hp hy
  obtain ⟨past, round, hwatch⟩ := hreaches.invariant (P := fun s => ∃ past round,
    Watch (ofMachines machines config) s past round) ⟨[], [], .start⟩
    fun _ _ ⟨_, _, hs⟩ ht => hs.more ht
  have hround := (hwatch.inRound (waking_ofMachines machines config)).2
  refine ⟨log, s, hnoted, hreaches, hdone, ?_, hmonitored.count, hmonitored.first, ?_, hlast,
    hmonitored.varied, fun i n hn => isLive_settled hn,
    fun i n hn hl => terminated_of_settled hround hend hn hl⟩
  · rw [← hmonitored.count] at hpos
    exact hpos
  · rw [← hmonitored.first] at hsome
    exact hsome

/-- Node 0 sends a packet to the monitor at its start and another one for each pair that it gets, and
    node 1 only listens: the monitor passes on 1, then 2, and then would pass on 2 again. -/
theorem converged_report_two_deliveries :
    ∃ (net : Network) (report : Report) (log : List Event),
      run 70 (ofMachines [Machine.ofProgram [3, 28, 104, 255, 104, 1, 104, 1, 3, 28, 1008, 28, -1, 29,
        1005, 29, 8, 3, 28, 104, 255, 104, 5, 104, 2, 1105, 1, 8, 0, 0],
        Machine.ofProgram [3, 7, 3, 7, 1105, 1, 2, 0]] {}) = some (net, .ok report) ∧
      report = ⟨2, some ⟨255, 1, 1⟩, 8, 2, 0⟩ ∧
      (deliveries log).length = 2 ∧ (received 255 log).head? = some ⟨255, 1, 1⟩ ∧
      Varied ((deliveries log).map Prod.snd) ∧
      ∀ (i : Nat) (n : Node), net.nodes[i]? = some n → n.isLive = false := by
  have hrun : (run 70 (ofMachines [Machine.ofProgram [3, 28, 104, 255, 104, 1, 104, 1, 3, 28, 1008, 28,
      -1, 29, 1005, 29, 8, 3, 28, 104, 255, 104, 5, 104, 2, 1105, 1, 8, 0, 0],
      Machine.ofProgram [3, 7, 3, 7, 1105, 1, 2, 0]] {})).any
      (fun outcome => outcome.2.toOption = some ⟨2, some ⟨255, 1, 1⟩, 8, 2, 0⟩) = true := by
    decide +kernel
  obtain ⟨⟨net, r⟩, houtcome, hreport⟩ := (Option.any_eq_true ..).1 hrun
  have hreport := of_decide_eq_true hreport
  cases r with
  | error failure => cases hreport
  | ok report =>
    obtain rfl := Option.some.inj hreport
    obtain ⟨log, s, -, -, -, -, hcount, hfirst, -, -, hvaried, hlive, -⟩ :=
      converged_report _ _ _ _ _ houtcome
    exact ⟨net, _, log, houtcome, rfl, hcount.symm, hfirst.symm, hvaried, hlive⟩

end Network

end WordMachine
