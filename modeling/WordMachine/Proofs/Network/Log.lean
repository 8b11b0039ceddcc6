import WordMachine.Network

/-!
# What happens in a network

A network keeps no record of the packets that have passed through it. Here it is given one, beside the
turns that it takes:

* `Network.Event` -- a node completes a packet or is answered, or the monitor passes a pair on;
* `Network.events` -- what happens in the turn that the scheduler is about to take;
* `Network.Course` -- the networks that any number of runs lead through, each with the log of what has
  happened so far;
* `Network.Course.run` -- what `Network.run` leaves is among them;
* `Network.SinceAsked` -- the part of the log since the monitor was asked last what to do;
* `Network.completed`, `Network.answers`, `Network.arrivals` -- what a log says of one node.
-/

namespace WordMachine

/-- The value that an answer gives. -/
def Answer.value? : Answer → Option Word
  | .value w => some w
  | .noValue | .terminate => none

namespace Network

/-! ## 1. Events -/

/-- What happens in a network. -/
inductive Event where
  /-- A node completes a packet; it is known which nodes are live then. -/
  | packet (sender : Nat) (p : Packet) (live : Nat → Bool)
  /-- A node that asks is answered. -/
  | answer (node : Nat) (a : Answer)
  /-- The monitor passes a pair on to node 0. -/
  | delivery (x y : Word)

/-- What happens in a step of the node at its turn. -/
def serveEvents (net : Network) (node : Node) (pos : Position) : List Event :=
  match node.step with
  | (node, .ok (.output value)) =>
    match node.collect value with
    | (some p, _) => [.packet pos.node p net.isLiveAt]
    | (none, _) => []
  | (node, .ok .needsInput) => if pos.answered then [] else [.answer pos.node node.poll.1]
  | (_, .ok .executed) | (_, .ok .halted) | (_, .error _) => []

/-- What happens after a round. -/
def closeEvents (net : Network) : List Event :=
  if net.anyLive && net.isIdle then
    match net.monitor.onIdle.1 with
    | .deliver x y => if net.isLiveAt 0 then [.delivery x y] else []
    | .wait | .converged _ => []
  else []

/-- **What happens in the turn** that the scheduler is about to take. -/
def events : Schedule → List Event
  | (net, pos) =>
    match net.nodes[pos.node]? with
    | none => net.closeEvents
    | some node => if node.isLive then net.serveEvents node pos else []

/-! ## 2. Courses -/

/-- **The courses of a network**: turn after turn of any number of runs, with the log of all that has
    happened. A run that has ended may be followed by another one. -/
inductive Course (start : Network) : Schedule → List Event → Prop where
  | start : Course start (start, ⟨0, false⟩) []
  | turn (s s' : Schedule) (log : List Event) (h : Course start s log) (ht : turn s = .more s') :
      Course start s' (log ++ events s)
  | again (s : Schedule) (net : Network) (r : Except Failure Report) (log : List Event)
      (h : Course start s log) (ht : turn s = .done (net, r)) :
      Course start (net, ⟨0, false⟩) (log ++ events s)

theorem Course.turns {start : Network} {fuel : Nat} {s : Schedule} {log : List Event}
    {outcome : Outcome} (h : Course start s log) (hr : Turn.run Network.turn fuel s = some outcome) :
    ∃ later, Course start (outcome.1, ⟨0, false⟩) (log ++ later) := by
  induction fuel generalizing s log with
  | zero => cases hr
  | succ fuel ih =>
    rw [Turn.run_succ] at hr
    cases ht : Network.turn s with
    | more s' =>
      rw [ht] at hr
      obtain ⟨later, hlater⟩ := ih (.turn s s' log h ht) hr
      exact ⟨events s ++ later, List.append_assoc log _ _ ▸ hlater⟩
    | done outcome' =>
      rw [ht] at hr
      obtain rfl := Option.some.inj hr
      exact ⟨events s, .again s _ _ log h ht⟩

/-- What a run leaves belongs to the course. -/
theorem Course.run {start net : Network} {log : List Event} {fuel : Nat} {outcome : Outcome}
    (h : Course start (net, ⟨0, false⟩) log) (hr : Network.run fuel net = some outcome) :
    ∃ later, Course start (outcome.1, ⟨0, false⟩) (log ++ later) := by
  unfold Network.run at hr
  split at hr
  · obtain rfl := Option.some.inj hr
    exact ⟨[], (List.append_nil log).symm ▸ h⟩
  · exact h.turns hr

/-- Whether the monitor is asked what to do in the turn that the scheduler is about to take: the round is
    over, some node is live, and the network is idle. -/
def asks : Schedule → Bool
  | (net, pos) => (net.nodes[pos.node]?).isNone && net.anyLive && net.isIdle

/-- What has happened since the monitor was asked last, once there has been one more turn. -/
def sinceAsked (s : Schedule) (recent : List Event) : List Event :=
  if asks s then [] else recent ++ events s

/-- **The part of the log of a course since the monitor was asked last**, or since the start if it has not
    been asked. -/
inductive SinceAsked (start : Network) : Schedule → List Event → List Event → Prop where
  | start : SinceAsked start (start, ⟨0, false⟩) [] []
  | turn (s s' : Schedule) (log recent : List Event) (h : SinceAsked start s log recent)
      (ht : turn s = .more s') : SinceAsked start s' (log ++ events s) (sinceAsked s recent)
  | again (s : Schedule) (net : Network) (r : Except Failure Report) (log recent : List Event)
      (h : SinceAsked start s log recent) (ht : turn s = .done (net, r)) :
      SinceAsked start (net, ⟨0, false⟩) (log ++ events s) (sinceAsked s recent)

/-- Every course has such a part. -/
theorem Course.exists_sinceAsked {start : Network} {s : Schedule} {log : List Event}
    (h : Course start s log) : ∃ recent, SinceAsked start s log recent := by
  induction h with
  | start => exact ⟨[], .start⟩
  | turn s s' log _ ht ih =>
    obtain ⟨recent, hrecent⟩ := ih
    exact ⟨_, .turn s s' log recent hrecent ht⟩
  | again s net r log _ ht ih =>
    obtain ⟨recent, hrecent⟩ := ih
    exact ⟨_, .again s net r log recent hrecent ht⟩

theorem SinceAsked.course {start : Network} {s : Schedule} {log recent : List Event}
    (h : SinceAsked start s log recent) : Course start s log := by
  induction h with
  | start => exact .start
  | turn s s' log _ _ ht ih => exact .turn s s' log ih ht
  | again s net r log _ _ ht ih => exact .again s net r log ih ht

theorem suffix_sinceAsked {log recent : List Event} (h : recent <:+ log) (s : Schedule) :
    sinceAsked s recent <:+ log ++ events s := by
  unfold sinceAsked
  split
  · exact List.nil_suffix
  · obtain ⟨before, rfl⟩ := h
    exact ⟨before, (List.append_assoc ..).symm⟩

theorem SinceAsked.suffix {start : Network} {s : Schedule} {log recent : List Event}
    (h : SinceAsked start s log recent) : recent <:+ log := by
  induction h with
  | start => exact List.suffix_refl _
  | turn s s' log recent _ _ ih => exact suffix_sinceAsked ih s
  | again s net r log recent _ _ ih => exact suffix_sinceAsked ih s

/-! ## 3. What a log says of a node -/

/-- The packet that the node with a number completes. -/
def Event.packetOf (i : Nat) : Event → Option Packet
  | .packet sender p _ => if sender = i then some p else none
  | .answer .. | .delivery .. => none

/-- The answer that the node with a number gets. -/
def Event.answerTo (i : Nat) : Event → Option Answer
  | .answer node a => if node = i then some a else none
  | .packet .. | .delivery .. => none

/-- The words that arrive at the node with a number: those of a packet for it, completed while it is
    live, which is not for the monitor; and those that the monitor passes on to node 0. -/
def Event.arrival (monitorAddress : Word) (i : Nat) : Event → List Word
  | .packet _ p live =>
    if p.destination ≠ monitorAddress ∧ p.destination.toInt = i ∧ live i = true then [p.x, p.y]
    else []
  | .delivery x y => if i = 0 then [x, y] else []
  | .answer .. => []

/-- The packets that a node has completed. -/
def completed (i : Nat) (log : List Event) : List Packet := log.filterMap (Event.packetOf i)

/-- The answers that a node has got. -/
def answers (i : Nat) (log : List Event) : List Answer := log.filterMap (Event.answerTo i)

/-- The words that have arrived at a node. -/
def arrivals (monitorAddress : Word) (i : Nat) (log : List Event) : List Word :=
  log.flatMap (Event.arrival monitorAddress i)

@[simp] theorem completed_append (i : Nat) (log later : List Event) :
    completed i (log ++ later) = completed i log ++ completed i later :=
  List.filterMap_append

@[simp] theorem answers_append (i : Nat) (log later : List Event) :
    answers i (log ++ later) = answers i log ++ answers i later :=
  List.filterMap_append

@[simp] theorem arrivals_append (monitorAddress : Word) (i : Nat) (log later : List Event) :
    arrivals monitorAddress i (log ++ later) =
      arrivals monitorAddress i log ++ arrivals monitorAddress i later :=
  List.flatMap_append

theorem answers_concat_answer (i : Nat) (log : List Event) (a : Answer) :
    answers i (log ++ [.answer i a]) = answers i log ++ [a] := by
  rw [answers_append]
  unfold answers
  simp [Event.answerTo]

theorem arrivals_concat_answer (monitorAddress : Word) (i j : Nat) (log : List Event) (a : Answer) :
    arrivals monitorAddress i (log ++ [.answer j a]) = arrivals monitorAddress i log := by
  rw [arrivals_append]
  exact List.append_nil _

/-! ## 4. What a log says of the packets -/

/-- The packet that is completed, by whatever node. -/
def Event.packet? : Event → Option Packet
  | .packet _ p _ => some p
  | .answer .. | .delivery .. => none

/-- The packet that goes to the monitor. -/
def Event.toMonitor? (monitorAddress : Word) : Event → Option Packet
  | .packet _ p _ => if p.destination = monitorAddress then some p else none
  | .answer .. | .delivery .. => none

/-- The packet that goes to a live node. -/
def Event.toNode? (monitorAddress : Word) : Event → Option Packet
  | .packet _ p live =>
    if p.destination ≠ monitorAddress ∧ (Word.address? p.destination).any live = true then some p
    else none
  | .answer .. | .delivery .. => none

end Network

end WordMachine
