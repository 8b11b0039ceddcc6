import WordMachine.Proofs.Network.Ways
import WordMachine.Proofs.Transition

/-!
# No word of a packet is lost

The log of a course (`Network.Course`) says what has been completed, handed out and passed on. The
network itself has only the outputs of its machines, its queues and a count. They agree:

* `Node.Written`, `Node.Read` -- the accounts of a node: what it has put out, what it has been given;
* `Network.Tallied` -- the accounts of the monitor and of the packets dropped;
* `Network.Kept` -- all of these. Every operation keeps them, so a turn does (`Kept.turn`), so a
  course does (`Course.kept`);
* `Network.pending_turn`, `Network.SinceAsked.pending` -- which pair the monitor keeps;
* `Network.packets_conserved` -- for networks of fresh machines.
-/

namespace WordMachine

/-! ## 1. Nodes -/

namespace Node

/-- **What a node has put out**: its packets one after the other, then the words of the next one. -/
structure Written (i : Nat) (n : Node) (log : List Network.Event) : Prop where
  output : n.machine.output.toList =
    (Network.completed i log).flatMap Packet.words ++ n.outgoing
  short : n.outgoing.length < 3

/-- **What a node has been given**: its number first, then all that has arrived, except what still
    waits. -/
structure Read (monitorAddress : Word) (i : Nat) (n : Node) (log : List Network.Event) : Prop where
  id : n.id = i
  queue : n.inbound.Sound
  booted : n.booted = !(Network.answers i log).isEmpty
  first : ∀ a, (Network.answers i log).head? = some a → a = .value (Int64.ofNat i)
  rest : (Network.answers i log).tail.filterMap Answer.value? ++ n.inbound.toList =
    Network.arrivals monitorAddress i log

variable {monitorAddress : Word} {i : Nat} {n n' : Node} {log new : List Network.Event}

theorem Written.later (h : n.Written i log) (he : Network.completed i new = []) :
    n.Written i (log ++ new) := by
  refine ⟨?_, h.short⟩
  rw [Network.completed_append, he, List.append_nil]
  exact h.output

theorem Read.later (h : n.Read monitorAddress i log) (ha : Network.answers i new = [])
    (hr : Network.arrivals monitorAddress i new = []) : n.Read monitorAddress i (log ++ new) := by
  have hanswers : Network.answers i (log ++ new) = Network.answers i log := by
    rw [Network.answers_append, ha, List.append_nil]
  refine ⟨h.id, h.queue, hanswers ▸ h.booted, hanswers ▸ h.first, ?_⟩
  rw [hanswers, Network.arrivals_append, hr, List.append_nil]
  exact h.rest

/-- What a node has put out does not depend on its queue. -/
theorem Written.of_same (h : n.Written i log) (hm : n'.machine.output = n.machine.output)
    (ho : n'.outgoing = n.outgoing) : n'.Written i log := by
  refine ⟨?_, ?_⟩
  · rw [hm, ho]
    exact h.output
  · rw [ho]
    exact h.short

/-- What a node has been given does not depend on its machine. -/
theorem Read.of_same (h : n.Read monitorAddress i log) (hid : n'.id = n.id)
    (hq : n'.inbound = n.inbound) (hb : n'.booted = n.booted) : n'.Read monitorAddress i log := by
  refine ⟨hid.trans h.id, ?_, hb.trans h.booted, h.first, ?_⟩
  · rw [hq]
    exact h.queue
  · rw [hq]
    exact h.rest

/-- The first poll hands out the number of the node. -/
theorem Read.poll_of_not_booted (h : n.Read monitorAddress i log) (hb : n.booted = false) :
    n.poll.2.Read monitorAddress i (log ++ [.answer i n.poll.1]) := by
  have hpoll : n.poll = (.value (Int64.ofNat n.id), { n with booted := true }) := by
    simp only [Node.poll, hb, Bool.false_eq_true, if_false]
  have hnone : Network.answers i log = [] := by
    have hbooted := h.booted
    rw [hb] at hbooted
    exact List.isEmpty_iff.1 (Bool.not_eq_eq_eq_not.1 hbooted.symm)
  have hrest := h.rest
  rw [hnone] at hrest
  rw [hpoll, h.id]
  refine ⟨rfl, h.queue, ?_, ?_, ?_⟩
  · rw [Network.answers_concat_answer, hnone]
    rfl
  · rw [Network.answers_concat_answer, hnone]
    intro a ha
    exact (Option.some.inj ha).symm
  · rw [Network.answers_concat_answer, Network.arrivals_concat_answer, hnone]
    exact hrest

/-- A later poll hands out the next word that waits, if there is one. -/
theorem Read.poll_of_booted (h : n.Read monitorAddress i log) (hb : n.booted = true) :
    n.poll.2.Read monitorAddress i (log ++ [.answer i n.poll.1]) := by
  have hsome : ∃ a as, Network.answers i log = a :: as := by
    have hbooted := h.booted
    rw [hb] at hbooted
    cases hl : Network.answers i log with
    | nil =>
      rw [hl] at hbooted
      cases hbooted
    | cons a as => exact ⟨a, as, rfl⟩
  obtain ⟨a, as, has⟩ := hsome
  have hrest := h.rest
  have hfirst := h.first
  rw [has] at hrest hfirst
  cases hnext : n.inbound.next? with
  | some value =>
    have hpoll : n.poll = (.value value, { n with inbound := n.inbound.tail, idle := false }) := by
      simp only [Node.poll, hb, if_true, hnext]
    rw [hpoll]
    refine ⟨h.id, Fifo.Sound.tail hnext, ?_, ?_, ?_⟩
    · rw [Network.answers_concat_answer, has]
      exact hb
    · rw [Network.answers_concat_answer, has]
      exact hfirst
    · rw [Network.answers_concat_answer, Network.arrivals_concat_answer, has, ← hrest,
        Fifo.toList_of_next? hnext]
      simp [Answer.value?]
  | none =>
    have hpoll : n.poll = (.noValue, { n with idle := true }) := by
      simp only [Node.poll, hb, if_true, hnext]
    rw [hpoll]
    refine ⟨h.id, h.queue, ?_, ?_, ?_⟩
    · rw [Network.answers_concat_answer, has]
      exact hb
    · rw [Network.answers_concat_answer, has]
      exact hfirst
    · rw [Network.answers_concat_answer, Network.arrivals_concat_answer, has, ← hrest]
      simp [Answer.value?]

/-- **A poll hands out what it takes from the queue.** -/
theorem Read.poll (h : n.Read monitorAddress i log) :
    n.poll.2.Read monitorAddress i (log ++ [.answer i n.poll.1]) := by
  cases hb : n.booted with
  | false => exact h.poll_of_not_booted hb
  | true => exact h.poll_of_booted hb

/-- A pair that arrives waits behind all others. -/
theorem Read.accept (h : n.Read monitorAddress i log) (x y : Word)
    (ha : Network.answers i new = []) (hr : Network.arrivals monitorAddress i new = [x, y]) :
    (n.accept x y).Read monitorAddress i (log ++ new) := by
  have hanswers : Network.answers i (log ++ new) = Network.answers i log := by
    rw [Network.answers_append, ha, List.append_nil]
  refine ⟨h.id, (h.queue.push x).push y, hanswers ▸ h.booted, hanswers ▸ h.first, ?_⟩
  show _ ++ ((n.inbound.push x).push y).toList = _
  rw [hanswers, Network.arrivals_append, hr, ← h.rest, Fifo.toList_push _ _ (h.queue.push x),
    Fifo.toList_push _ _ h.queue]
  simp only [List.append_assoc, List.cons_append, List.nil_append]

end Node

namespace Network

/-! ## 2. The monitor and the packets dropped -/

/-- **Every packet has one fate**: it goes to the monitor, to a live node, or is dropped. The monitor
    keeps the first one that it has received. -/
structure Tallied (monitorAddress : Word) (monitor : Monitor) (dropped : Nat) (log : List Event) :
    Prop where
  fates : (log.filterMap Event.packet?).length =
    (log.filterMap (Event.toMonitor? monitorAddress)).length +
      (log.filterMap (Event.toNode? monitorAddress)).length + dropped
  first : monitor.first = (log.filterMap (Event.toMonitor? monitorAddress)).head?

variable {monitorAddress : Word} {monitor : Monitor} {dropped : Nat} {log : List Event}

theorem filterMap_concat {f : Event → Option Packet} {e : Event} (log : List Event) :
    (log ++ [e]).filterMap f = log.filterMap f ++ (f e).toList := by
  rw [List.filterMap_append]
  cases hf : f e <;> simp [hf]

/-- What is no packet changes nothing. -/
theorem Tallied.later (h : Tallied monitorAddress monitor dropped log) {e : Event}
    (he : e.packet? = none) : Tallied monitorAddress monitor dropped (log ++ [e]) := by
  have hm : e.toMonitor? monitorAddress = none := by
    cases e with
    | packet => cases he
    | answer | delivery => rfl
  have hn : e.toNode? monitorAddress = none := by
    cases e with
    | packet => cases he
    | answer | delivery => rfl
  have hlog : (log ++ [e]).filterMap (Event.toMonitor? monitorAddress) =
      log.filterMap (Event.toMonitor? monitorAddress) := by
    rw [filterMap_concat, hm]
    exact List.append_nil _
  refine ⟨?_, hlog ▸ h.first⟩
  rw [hlog, filterMap_concat, filterMap_concat, he, hn]
  simp only [Option.toList_none, List.append_nil]
  exact h.fates

/-- What the monitor does when the network is idle leaves the tally. -/
theorem Tallied.onIdle (h : Tallied monitorAddress monitor dropped log) :
    Tallied monitorAddress monitor.onIdle.2 dropped log := by
  have hfirst : monitor.onIdle.2.first = monitor.first := by
    unfold Monitor.onIdle
    split
    · rfl
    · split <;> rfl
  exact ⟨h.fates, hfirst.trans h.first⟩

/-- A packet for the monitor is received. -/
theorem Tallied.received (h : Tallied monitorAddress monitor dropped log) {e : Event} {p : Packet}
    (he : e.packet? = some p) (hm : e.toMonitor? monitorAddress = some p)
    (hn : e.toNode? monitorAddress = none) :
    Tallied monitorAddress (monitor.receive p) dropped (log ++ [e]) := by
  have hfates := h.fates
  refine ⟨?_, ?_⟩
  · rw [filterMap_concat, filterMap_concat, filterMap_concat, he, hm, hn]
    simp only [Option.toList_some, Option.toList_none, List.append_nil, List.length_append,
      List.length_singleton]
    omega
  · show monitor.first.or (some p) = _
    rw [filterMap_concat, hm, Option.toList_some, List.head?_append, h.first]
    rfl

/-- Any other packet goes to a live node or counts as dropped. -/
theorem Tallied.passed (h : Tallied monitorAddress monitor dropped log) {e : Event} {p : Packet}
    (he : e.packet? = some p) (hm : e.toMonitor? monitorAddress = none) {k : Nat}
    (hn : (e.toNode? monitorAddress).toList.length + k = 1) :
    Tallied monitorAddress monitor (dropped + k) (log ++ [e]) := by
  have hfates := h.fates
  have hlog : (log ++ [e]).filterMap (Event.toMonitor? monitorAddress) =
      log.filterMap (Event.toMonitor? monitorAddress) := by
    rw [filterMap_concat, hm]
    exact List.append_nil _
  refine ⟨?_, hlog ▸ h.first⟩
  rw [hlog, filterMap_concat, filterMap_concat, he]
  simp only [Option.toList_some, List.length_append, List.length_singleton]
  omega

/-- **A packet that is routed is tallied.** -/
theorem Tallied.route (net : Network)
    (h : Tallied net.config.monitorAddress net.monitor net.dropped log) (sender : Nat) (p : Packet) :
    Tallied net.config.monitorAddress (net.route p).monitor (net.route p).dropped
      (log ++ [.packet sender p net.isLiveAt]) := by
  unfold Network.route
  by_cases hm : p.destination = net.config.monitorAddress
  · rw [if_pos hm]
    exact h.received rfl (if_pos hm) (if_neg fun hn => hn.1 hm)
  · have hto : (Event.packet sender p net.isLiveAt).toMonitor? net.config.monitorAddress = none :=
      if_neg hm
    have hany := net.receiver?_isSome p
    rw [if_neg hm]
    cases hr : net.receiver? p with
    | some i =>
      rw [hr] at hany
      have hnode : (Event.packet sender p net.isLiveAt).toNode? net.config.monitorAddress = some p :=
        if_pos ⟨hm, hany.symm⟩
      exact h.passed (k := 0) rfl hto (by rw [hnode]; rfl)
    | none =>
      rw [hr] at hany
      have hnode : (Event.packet sender p net.isLiveAt).toNode? net.config.monitorAddress = none := by
        refine if_neg fun hn => ?_
        rw [← hany] at hn
        cases hn.2
      exact h.passed rfl hto (by rw [hnode]; rfl)

/-! ## 3. The whole network -/

/-- **Nothing is lost**: what the log says of a network that started as `start` is what its nodes have
    put out and have been given, and what its monitor and its count of dropped packets say. -/
structure Kept (start net : Network) (log : List Event) : Prop where
  size : net.nodes.size = start.nodes.size
  config : net.config = start.config
  written : ∀ (i : Nat) (n : Node), net.nodes[i]? = some n → n.Written i log
  read : ∀ (i : Nat) (n : Node), net.nodes[i]? = some n → n.Read start.config.monitorAddress i log
  tallied : Tallied start.config.monitorAddress net.monitor net.dropped log

variable {start net : Network} {i : Nat} {n n' : Node}

/-- A node is changed and keeps its accounts. -/
theorem Kept.modify (h : Kept start net log) {f : Node → Node}
    (hw : ∀ n, net.nodes[i]? = some n → (f n).Written i log)
    (hr : ∀ n, net.nodes[i]? = some n → (f n).Read start.config.monitorAddress i log) :
    Kept start (net.modify i f) log where
  size := Array.size_modify.trans h.size
  config := h.config
  written := forall_modify (fun j n _ => h.written j n) hw
  read := forall_modify (fun j n _ => h.read j n) hr
  tallied := h.tallied

/-- A node is replaced by one with the same accounts. -/
theorem Kept.place (h : Kept start net log) (hw : n'.Written i log)
    (hr : n'.Read start.config.monitorAddress i log) : Kept start (net.place i n') log :=
  h.modify (fun _ _ => hw) fun _ _ => hr

/-- A node is answered. -/
theorem Kept.answer (h : Kept start net log) (a : Answer) (hw : n'.Written i log)
    (hr : n'.Read start.config.monitorAddress i (log ++ [.answer i a])) :
    Kept start (net.place i n') (log ++ [.answer i a]) where
  size := Array.size_modify.trans h.size
  config := h.config
  written := forall_modify (fun j n _ hj => (h.written j n hj).later rfl) fun _ _ => hw.later rfl
  read := by
    refine forall_modify (fun j n hij hj => ?_) fun _ _ => hr
    have hnone : answers j [.answer i a] = [] := by simp [answers, Event.answerTo, hij]
    exact (h.read j n hj).later hnone rfl
  tallied := h.tallied.later rfl

/-- A node completes a packet. -/
theorem Kept.packet (h : Kept start net log) (hn : net.nodes[i]? = some n) {p : Packet}
    (hw : n'.Written i (log ++ [.packet i p net.isLiveAt])) (hl : n'.isLive = n.isLive)
    (hr : n'.Read start.config.monitorAddress i log) :
    Kept start ((net.place i n').route p) (log ++ [.packet i p net.isLiveAt]) := by
  have hlive := isLiveAt_place hn hl
  have hconfig : (net.place i n').config = start.config := h.config
  have hwritten := forall_modify (P := fun j n => n.Written j (log ++ [.packet i p net.isLiveAt]))
    (fun j n hij hj => (h.written j n hj).later (by simp [completed, Event.packetOf, hij]))
    fun _ _ => hw
  have hread := forall_modify (fun j n _ => h.read j n) fun _ _ => hr
  refine ⟨?_, (config_route ..).trans hconfig, ?_, ?_, ?_⟩
  · rw [size_route]
    exact Array.size_modify.trans h.size
  · intro j nj hj
    rw [getElem?_route] at hj
    obtain ⟨nk, hk, rfl⟩ := Option.map_eq_some_iff.1 hj
    have hwk := hwritten j nk hk
    split
    · exact hwk.of_same rfl rfl
    · exact hwk
  · intro j nj hj
    rw [getElem?_route, hconfig, hlive] at hj
    obtain ⟨nk, hk, rfl⟩ := Option.map_eq_some_iff.1 hj
    have hrk := hread j nk hk
    split
    · rename_i hfor
      exact hrk.accept p.x p.y rfl ((List.append_nil _).trans (if_pos hfor))
    · rename_i hnot
      exact hrk.later rfl ((List.append_nil _).trans (if_neg hnot))
  · have ht := Tallied.route (net.place i n') (hconfig ▸ h.tallied) i p
    rw [hlive, hconfig] at ht
    exact ht

/-- A node is at fault. -/
theorem Kept.fail (h : Kept start net log) (i : Nat) (e : Fault) :
    Kept start (left (net.fail i e)) log := by
  unfold Network.fail
  split
  · exact h.modify (fun n hn => (h.written i n hn).of_same rfl rfl)
      fun n hn => (h.read i n hn).of_same rfl rfl rfl
  · exact h

/-- The node puts out a word. -/
theorem Kept.emit (h : Kept start net log) (hn : net.nodes[i]? = some n)
    (hr : n'.Read start.config.monitorAddress i log) (hl : n'.isLive = n.isLive) {value : Word}
    (hout : n'.machine.output.toList = n.machine.output.toList ++ [value])
    (hgoing : n'.outgoing = n.outgoing) :
    Kept start (net.emit i n' value) (log ++
      match n'.collect value with
      | (some p, _) => [.packet i p net.isLiveAt]
      | (none, _) => []) := by
  have hwritten := h.written i n hn
  have houtput : n'.machine.output.toList =
      (completed i log).flatMap Packet.words ++ (n'.outgoing ++ [value]) := by
    rw [hout, hwritten.output, hgoing, List.append_assoc]
  have hshort := hwritten.short
  unfold Network.emit
  rcases n'.collect_cases value with ⟨p, hc, hp⟩ | ⟨hc, hlen⟩
  · rw [hc]
    have hone : completed i [.packet i p net.isLiveAt] = [p] := by simp [completed, Event.packetOf]
    have hdone : Node.Written i { n' with outgoing := [], idle := false }
        (log ++ [.packet i p net.isLiveAt]) := by
      refine ⟨?_, Nat.zero_lt_succ 2⟩
      rw [completed_append, hone, List.flatMap_append, List.flatMap_singleton, List.append_nil]
      exact hp ▸ houtput
    exact h.packet hn hdone hl (hr.of_same rfl rfl rfl)
  · rw [hc, List.append_nil]
    have hmore : Node.Written i { n' with outgoing := n'.outgoing ++ [value], idle := false } log := by
      refine ⟨houtput, ?_⟩
      show (n'.outgoing ++ [value]).length < 3
      rw [List.length_append, List.length_singleton, hgoing] at hlen ⊢
      omega
    exact h.place hmore (hr.of_same rfl rfl rfl)

/-- The node asks and is answered. -/
theorem Kept.reply (h : Kept start net log) (hw : n'.Written i log)
    (hr : n'.Read start.config.monitorAddress i log) :
    Kept start (left (net.reply i n')) (log ++ [.answer i n'.poll.1]) := by
  have hpoll := hr.poll
  have houtput : n'.poll.2.machine = n'.machine ∧ n'.poll.2.outgoing = n'.outgoing := by
    unfold Node.poll
    split
    · split <;> exact ⟨rfl, rfl⟩
    · exact ⟨rfl, rfl⟩
  have hkept : Kept start
      (net.place i { n'.poll.2 with machine := (n'.poll.2.machine.supply n'.poll.1).1 })
      (log ++ [.answer i n'.poll.1]) := by
    refine h.answer _ (hw.of_same ?_ houtput.2) (hpoll.of_same rfl rfl rfl)
    rw [Machine.output_supply, houtput.1]
  unfold Network.reply
  simp only
  split
  · exact hkept
  · exact hkept.fail i _

/-- **The step of a node loses nothing.** -/
theorem Kept.serve (h : Kept start net log) {pos : Position} (hn : net.nodes[pos.node]? = some n) :
    Kept start (left (net.serve n pos)) (log ++ net.serveEvents n pos) := by
  have hwritten := h.written pos.node n hn
  have hread := h.read pos.node n hn
  have hout := n.machine.output_step
  unfold Network.serve serveEvents
  rw [Node.step_eq]
  generalize n.machine.step.1 = m at hout
  generalize n.machine.step.2 = r at hout
  -- a step that puts nothing out leaves the accounts of the node
  have hsilent : Machine.Step.word? r = none → Node.Written pos.node { n with machine := m } log := by
    intro hr
    refine hwritten.of_same ?_ rfl
    rw [hr, Option.toList_none, List.append_nil] at hout
    exact Array.toList_inj.1 hout
  have hsame : Node.Read start.config.monitorAddress pos.node { n with machine := m } log :=
    hread.of_same rfl rfl rfl
  cases r with
  | error e =>
    rw [List.append_nil]
    exact (h.place (hsilent rfl) hsame).fail _ _
  | ok s =>
    cases s with
    | executed =>
      rw [List.append_nil]
      exact h.place (hsilent rfl) hsame
    | halted =>
      rw [List.append_nil]
      exact h.place ((hsilent rfl).of_same rfl rfl) (hsame.of_same rfl rfl rfl)
    | needsInput =>
      simp only
      split
      · rw [List.append_nil]
        exact h.place (hsilent rfl) hsame
      · exact h.reply (hsilent rfl) hsame
    | output value => exact h.emit hn hsame rfl hout rfl

/-- What the monitor passes on arrives at node 0. -/
theorem Kept.deliver (h : Kept start net log) {x y : Word} {net' : Network}
    (hd : net.deliver x y = .ok net') :
    net.isLiveAt 0 = true ∧ Kept start net' (log ++ [.delivery x y]) := by
  unfold Network.deliver at hd
  split at hd
  · rename_i hl
    obtain rfl := Except.ok.inj hd
    refine ⟨hl, Array.size_modify.trans h.size, h.config, ?_, ?_, h.tallied.later rfl⟩
    · exact forall_modify (fun j n _ hj => (h.written j n hj).later rfl)
        fun n hn => ((h.written 0 n hn).later rfl).of_same rfl rfl
    · refine forall_modify (fun j n h0 hj => ?_) fun n hn => ?_
      · exact (h.read j n hj).later rfl ((List.append_nil _).trans (if_neg (Ne.symm h0)))
      · exact ((h.read 0 n hn).accept x y rfl rfl).of_same rfl rfl rfl
  · cases hd

/-- Ending every node loses nothing. -/
theorem Kept.shutDown (h : Kept start net log) : Kept start net.shutDown log := by
  refine ⟨Array.size_map.trans h.size, h.config, ?_, ?_, h.tallied⟩
  · intro j nj hj
    unfold Network.shutDown at hj
    rw [Array.getElem?_map] at hj
    obtain ⟨nk, hk, rfl⟩ := Option.map_eq_some_iff.1 hj
    split
    · exact (h.written j nk hk).of_same (Machine.output_supply _ _) rfl
    · exact h.written j nk hk
  · intro j nj hj
    unfold Network.shutDown at hj
    rw [Array.getElem?_map] at hj
    obtain ⟨nk, hk, rfl⟩ := Option.map_eq_some_iff.1 hj
    split
    · exact (h.read j nk hk).of_same rfl rfl rfl
    · exact h.read j nk hk

/-- What the monitor does loses nothing. -/
theorem Kept.consult (h : Kept start net log) :
    Kept start (left net.consult) (log ++
      if net.isIdle then
        match net.monitor.onIdle.1 with
        | .deliver x y => if net.isLiveAt 0 then [.delivery x y] else []
        | .wait | .converged _ => []
      else []) := by
  unfold Network.consult
  split
  · have hmonitor : Kept start { net with monitor := net.monitor.onIdle.2 } log :=
      ⟨h.size, h.config, h.written, h.read, h.tallied.onIdle⟩
    rcases hidle : net.monitor.onIdle with ⟨action, monitor⟩
    rw [hidle] at hmonitor
    cases action with
    | wait =>
      rw [List.append_nil]
      simp only [left_nextRound]
      exact hmonitor
    | converged y =>
      rw [List.append_nil]
      exact hmonitor.shutDown
    | deliver x y =>
      simp only
      cases hd : Network.deliver { net with monitor := monitor } x y with
      | ok net' =>
        obtain ⟨hl, hkept⟩ := hmonitor.deliver hd
        have hl : net.isLiveAt 0 = true := hl
        simp only [left_nextRound, hl, if_true]
        exact hkept
      | error failure =>
        have hl : ¬ net.isLiveAt 0 = true := by
          intro hl
          have hl : isLiveAt { net with monitor := monitor } 0 = true := hl
          unfold Network.deliver at hd
          rw [if_pos hl] at hd
          cases hd
        rw [if_neg hl, List.append_nil]
        exact hmonitor
  · rw [List.append_nil, left_nextRound]
    exact h

/-- **What comes after a round loses nothing.** -/
theorem Kept.closeRound (h : Kept start net log) :
    Kept start (left net.closeRound) (log ++ net.closeEvents) := by
  have hrounds : Kept start { net with rounds := net.rounds + 1 } log :=
    ⟨h.size, h.config, h.written, h.read, h.tallied⟩
  unfold Network.closeRound closeEvents
  by_cases hl : net.anyLive = true
  · have hl' : anyLive { net with rounds := net.rounds + 1 } = true := hl
    simp only [hl', hl, if_true, Bool.true_and]
    exact hrounds.consult
  · have hl' : ¬ anyLive { net with rounds := net.rounds + 1 } = true := hl
    simp only [hl', hl, Bool.false_and, Bool.false_eq_true, if_false, List.append_nil]
    exact hrounds

/-- **A turn loses nothing.** -/
theorem Kept.turn (h : Kept start net log) (pos : Position) :
    Kept start (left (turn (net, pos))) (log ++ events (net, pos)) := by
  cases hn : net.nodes[pos.node]? with
  | none =>
    simp only [Network.turn, events, hn]
    exact h.closeRound
  | some n =>
    by_cases hl : n.isLive = true
    · rw [turn_of_live hn hl]
      simp only [events, hn, hl, if_true]
      exact h.serve hn
    · simp only [Network.turn, events, hn, hl, if_false, List.append_nil, Bool.false_eq_true]
      exact h

/-- **A course loses nothing.** -/
theorem Course.kept {s : Schedule} {log : List Event} (h : Course start s log)
    (hstart : Kept start start []) : Kept start s.1 log := by
  induction h with
  | start => exact hstart
  | turn s s' log _ ht ih =>
    have hkept := ih.turn s.2
    rw [ht] at hkept
    exact hkept
  | again s net r log _ ht ih =>
    have hkept := ih.turn s.2
    rw [ht] at hkept
    exact hkept

/-! ## 4. What the monitor keeps -/

/-- The pair of the last packet of a log that goes to the monitor. -/
def lastPair (monitorAddress : Word) (log : List Event) : Option (Word × Word) :=
  (log.filterMap (Event.toMonitor? monitorAddress)).getLast?.map fun p => (p.x, p.y)

theorem lastPair_packet (monitorAddress : Word) (log : List Event) (sender : Nat) (p : Packet)
    (live : Nat → Bool) : lastPair monitorAddress (log ++ [.packet sender p live]) =
      if p.destination = monitorAddress then some (p.x, p.y) else lastPair monitorAddress log := by
  unfold lastPair
  rw [filterMap_concat]
  by_cases hm : p.destination = monitorAddress
  · have hto : (Event.packet sender p live).toMonitor? monitorAddress = some p := if_pos hm
    rw [hto, if_pos hm, Option.toList_some, List.getLast?_concat]
    rfl
  · have hto : (Event.packet sender p live).toMonitor? monitorAddress = none := if_neg hm
    rw [hto, if_neg hm, Option.toList_none, List.append_nil]

/-- An answer is no packet. -/
theorem lastPair_answer (monitorAddress : Word) (log : List Event) (i : Nat) (a : Answer) :
    lastPair monitorAddress (log ++ [.answer i a]) = lastPair monitorAddress log := by
  have hto : (Event.answer i a).toMonitor? monitorAddress = none := rfl
  unfold lastPair
  rw [filterMap_concat, hto, Option.toList_none, List.append_nil]

/-- The last pair of a part of a log is the last one of the whole, if there is one. -/
theorem lastPair_of_suffix {recent : List Event} (h : recent <:+ log) {pair : Word × Word}
    (hp : lastPair monitorAddress recent = some pair) : lastPair monitorAddress log = some pair := by
  obtain ⟨before, rfl⟩ := h
  unfold lastPair at hp ⊢
  obtain ⟨p, hlast, hpair⟩ := Option.map_eq_some_iff.1 hp
  rw [List.filterMap_append, List.getLast?_append, hlast]
  exact congrArg some hpair

theorem pending_route (net : Network) (p : Packet) :
    (net.route p).monitor.pending =
      if p.destination = net.config.monitorAddress then some (p.x, p.y) else net.monitor.pending := by
  unfold Network.route
  split
  · rfl
  · split <;> rfl

/-- After a round: if the monitor is asked what to do, it keeps nothing. -/
theorem pending_closeRound {recent : List Event}
    (h : net.monitor.pending = lastPair net.config.monitorAddress recent) :
    (left net.closeRound).monitor.pending =
      lastPair net.config.monitorAddress
        (if net.anyLive && net.isIdle then [] else recent ++ net.closeEvents) := by
  have hclosing := net.closing
  generalize net.closeRound = t at hclosing ⊢
  generalize net.closeEvents = new at hclosing ⊢
  cases hclosing with
  | stopped hl =>
    rw [hl, Bool.false_and, if_neg Bool.false_ne_true, List.append_nil]
    exact h
  | busy hl hi =>
    rw [hl, hi, Bool.and_false, if_neg Bool.false_ne_true, List.append_nil, left_nextRound]
    exact h
  | waiting hl hi hp =>
    rw [hl, hi, Bool.and_self, if_pos rfl, left_nextRound]
    exact hp
  | passed x y hl hi =>
    rw [hl, hi, Bool.and_self, if_pos rfl, left_nextRound]
    rfl
  | lost x y hl hi | settled x y hl hi =>
    rw [hl, hi, Bool.and_self, if_pos rfl]
    rfl

/-- **After every turn the monitor keeps the last pair that has been sent to it since it was asked.** -/
theorem pending_turn {recent : List Event} (pos : Position)
    (h : net.monitor.pending = lastPair net.config.monitorAddress recent) :
    (left (turn (net, pos))).monitor.pending =
      lastPair net.config.monitorAddress (sinceAsked (net, pos) recent) := by
  cases hnode : net.nodes[pos.node]? with
  | none =>
    simp only [sinceAsked, asks, Network.turn, events, hnode, Option.isNone_none, Bool.true_and]
    exact pending_closeRound h
  | some n =>
    have hsince : sinceAsked (net, pos) recent = recent ++ events (net, pos) := by
      simp only [sinceAsked, asks, hnode, Option.isNone_some, Bool.false_and, Bool.false_eq_true, if_false]
    have hway := net.way pos
    rw [hsince]
    generalize Network.turn (net, pos) = t at hway ⊢
    generalize sights (net, pos) = seen at hway
    generalize events (net, pos) = new at hway ⊢
    cases hway with
    | closed hn =>
      rw [hnode] at hn
      cases hn
    | skipped | executed | gathered | parked | halted =>
      rw [List.append_nil]
      exact h
    | sent n m w p =>
      rw [lastPair_packet, ← h]
      exact pending_route _ p
    | answered =>
      rw [lastPair_answer]
      exact h
    | refused n m m' e =>
      rw [lastPair_answer, monitor_fail]
      exact h
    | failed n m e =>
      rw [List.append_nil, monitor_fail]
      exact h

/-- **The monitor keeps the last pair that has been sent to it since it was asked**, on every course. -/
theorem SinceAsked.pending {s : Schedule} {recent : List Event} (h : SinceAsked start s log recent)
    (hstart : Kept start start []) (hnone : start.monitor.pending = none) :
    s.1.monitor.pending = lastPair start.config.monitorAddress recent := by
  induction h with
  | start => exact hnone
  | turn s s' log recent hs ht ih =>
    have hconfig := (hs.course.kept hstart).config
    have hturn := pending_turn s.2 (ih.trans (by rw [hconfig]))
    rw [ht, hconfig] at hturn
    exact hturn
  | again s net r log recent hs ht ih =>
    have hconfig := (hs.course.kept hstart).config
    have hturn := pending_turn s.2 (ih.trans (by rw [hconfig]))
    rw [ht, hconfig] at hturn
    exact hturn

/-! ## 5. Networks of fresh machines -/

theorem kept_ofMachines {machines : List Machine} (fresh : ∀ m ∈ machines, m.output = #[])
    (config : Config) :
    Kept (ofMachines machines config) (ofMachines machines config) [] := by
  have hnode : ∀ i n, (ofMachines machines config).nodes[i]? = some n →
      ∃ m ∈ machines, n = enrol config i m := by
    intro i n hn
    unfold ofMachines at hn
    rw [List.getElem?_toArray, List.getElem?_mapIdx] at hn
    obtain ⟨m, hm, rfl⟩ := Option.map_eq_some_iff.1 hn
    exact ⟨m, List.mem_of_getElem? hm, rfl⟩
  refine ⟨rfl, rfl, ?_, ?_, rfl, rfl⟩
  · intro i n hn
    obtain ⟨m, hm, rfl⟩ := hnode i n hn
    refine ⟨?_, Nat.zero_lt_succ 2⟩
    have houtput : (enrol config i m).machine.output = m.output := by
      unfold enrol
      cases config.stepLimit <;> rfl
    rw [houtput, fresh m hm]
    rfl
  · intro i n hn
    obtain ⟨m, hm, rfl⟩ := hnode i n hn
    exact ⟨rfl, Nat.le_refl 0, rfl, nofun, rfl⟩

/-- **No word of a packet is lost, doubled, moved or split.** In every course of a network of fresh
    machines: what a node has put out is its packets, one after the other, and fewer than three words
    of the next one. A node is first given its number; what it is given then, followed by what waits
    for it, is what has arrived at it, in this order. The packets are those that the monitor has
    received, those that have gone to live nodes and those that were dropped. The monitor keeps the
    first packet that it has received, and the pair of the last one that it has received since it was
    asked last what to do; if there is none, it keeps no pair. What a run leaves belongs to the course,
    too. -/
theorem packets_conserved (machines : List Machine) (config : Config)
    (fresh : ∀ m ∈ machines, m.output = #[]) (s : Schedule) (log : List Event)
    (h : Course (ofMachines machines config) s log) :
    s.1.nodes.size = machines.length ∧
    (∀ (i : Nat) (n : Node), s.1.nodes[i]? = some n →
      n.machine.output.toList = (completed i log).flatMap Packet.words ++ n.outgoing ∧
      n.outgoing.length < 3 ∧
      (∀ a, (answers i log).head? = some a → a = .value (Int64.ofNat i)) ∧
      (answers i log).tail.filterMap Answer.value? ++ n.inbound.toList =
        arrivals config.monitorAddress i log) ∧
    (log.filterMap Event.packet?).length =
      (log.filterMap (Event.toMonitor? config.monitorAddress)).length +
        (log.filterMap (Event.toNode? config.monitorAddress)).length + s.1.dropped ∧
    s.1.monitor.first = (log.filterMap (Event.toMonitor? config.monitorAddress)).head? ∧
    (∀ pair, s.1.monitor.pending = some pair →
      (log.filterMap (Event.toMonitor? config.monitorAddress)).getLast?.map
        (fun p => (p.x, p.y)) = some pair) ∧
    ((∃ recent, SinceAsked (ofMachines machines config) s log recent) ∧
      ∀ recent, SinceAsked (ofMachines machines config) s log recent → recent <:+ log ∧
        s.1.monitor.pending =
          (recent.filterMap (Event.toMonitor? config.monitorAddress)).getLast?.map
            fun p => (p.x, p.y)) ∧
    (∀ fuel outcome, s.2 = ⟨0, false⟩ → run fuel s.1 = some outcome →
      ∃ later, Course (ofMachines machines config) (outcome.1, ⟨0, false⟩) (log ++ later)) := by
  have hstart := kept_ofMachines fresh config
  have hkept := h.kept hstart
  obtain ⟨recent, hrecent⟩ := h.exists_sinceAsked
  have hpending : ∀ recent, SinceAsked (ofMachines machines config) s log recent →
      s.1.monitor.pending = lastPair config.monitorAddress recent := fun _ hr => hr.pending hstart rfl
  have hsize : (ofMachines machines config).nodes.size = machines.length := by
    unfold ofMachines
    rw [List.size_toArray, List.length_mapIdx]
  refine ⟨hkept.size.trans hsize, ?_, hkept.tallied.fates, hkept.tallied.first,
    fun pair hpair => lastPair_of_suffix hrecent.suffix ((hpending recent hrecent).symm.trans hpair),
    ⟨⟨recent, hrecent⟩, fun recent hr => ⟨hr.suffix, hpending recent hr⟩⟩, ?_⟩
  · intro i n hn
    have hwritten := hkept.written i n hn
    have hread := hkept.read i n hn
    exact ⟨hwritten.output, hwritten.short, hread.first, hread.rest⟩
  · intro fuel outcome hpos hrun
    obtain ⟨net, pos⟩ := s
    obtain rfl : pos = ⟨0, false⟩ := hpos
    exact h.run hrun

/-- Node 0 sends a packet to node 1, one to a node that is not there and one to the monitor, and
    halts; node 1 reads its number and the pair. The monitor keeps its pair to the end. -/
theorem packets_conserved_three_fates :
    ∃ outcome log,
      run 60 (ofMachines [Machine.ofProgram [104, 1, 104, 5, 104, 6, 104, 7, 104, 0, 104, 0,
        104, 255, 104, 8, 104, 9, 99], Machine.ofProgram [3, 0, 3, 0, 3, 0, 99]] {}) = some outcome ∧
      outcome.1.dropped = 1 ∧
      (log.filterMap Event.packet?).length =
        (log.filterMap (Event.toMonitor? 255)).length + (log.filterMap (Event.toNode? 255)).length + 1 ∧
      (answers 1 log).tail.filterMap Answer.value? = arrivals 255 1 log ∧
      ∃ recent, recent <:+ log ∧
        (recent.filterMap (Event.toMonitor? 255)).getLast?.map (fun p => (p.x, p.y)) = some (8, 9) := by
  have hrun : (run 60 (ofMachines [Machine.ofProgram [104, 1, 104, 5, 104, 6, 104, 7, 104, 0, 104, 0,
      104, 255, 104, 8, 104, 9, 99], Machine.ofProgram [3, 0, 3, 0, 3, 0, 99]] {})).any
      (fun outcome => outcome.1.dropped = 1 ∧ outcome.1.monitor.pending = some (8, 9) ∧
        (outcome.1.nodes[1]?).map (fun n => n.inbound.toList) = some []) = true := by
    decide +kernel
  obtain ⟨outcome, houtcome, hleft⟩ := (Option.any_eq_true ..).1 hrun
  obtain ⟨hdropped, hpending, hinbound⟩ := of_decide_eq_true hleft
  obtain ⟨n, hn, hempty⟩ := Option.map_eq_some_iff.1 hinbound
  have hfresh : ∀ m ∈ [Machine.ofProgram [104, 1, 104, 5, 104, 6, 104, 7, 104, 0, 104, 0, 104, 255,
      104, 8, 104, 9, 99], Machine.ofProgram [3, 0, 3, 0, 3, 0, 99]], m.output = #[] := by
    simp [Machine.ofProgram, Machine.ofMemory]
  obtain ⟨log, hlog⟩ := Course.run .start houtcome
  obtain ⟨-, hnodes, hfates, -, -, ⟨⟨recent, hrecent⟩, hkeeps⟩, -⟩ := packets_conserved _ {} hfresh _ _ hlog
  obtain ⟨hsuffix, hlast⟩ := hkeeps recent hrecent
  obtain ⟨-, -, -, hread⟩ := hnodes 1 n hn
  rw [hempty, List.append_nil] at hread
  exact ⟨outcome, [] ++ log, houtcome, hdropped, hdropped ▸ hfates, hread, recent, hsuffix,
    hlast.symm.trans hpending⟩

end Network

end WordMachine
