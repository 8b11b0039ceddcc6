import WordMachine.Proofs.Network.Idle
import WordMachine.Proofs.Schedule
import WordMachine.Proofs.StepLimit

/-!
# The instructions of a network are limited

With a step limit for the nodes, a run of a network ends: nothing but instructions takes time, and a node
that is not at its end executes at least one in every round.

* `Network.Serving` -- what a turn does to the machine of the node at its turn, and that it does nothing
  to the others. Every turn of a round is such (`serving`), and it leaves the node fewer turns or passes
  to the next one (`Serving.lower`);
* `Network.Paying` -- what a round has cost each node so far. Every turn of a round keeps it
  (`Paying.turn`), and so at the end of the round every live node has paid for it;
* `Network.Charged` -- after so many rounds a live node has executed so many instructions;
* `Network.rounds_within_step_limit` -- so services, rounds and runs end, and a run has one round more at
  most than the nodes have instructions.
-/

namespace WordMachine

namespace Network

/-! ## 1. Turns of a round -/

/-- **What a turn does to the node at its turn**, as far as its machine is concerned. -/
inductive Serves (n n' : Node) (pos : Position) : Position → Prop where
  /-- The node has stopped. -/
  | stopped (hl : n'.isLive = false) : Serves n n' pos ⟨pos.node + 1, false⟩
  /-- The node goes on. -/
  | acted (s : Machine.Step) (hl : n.isLive = true) (hm : n.machine.step = (n'.machine, .ok s))
      (hs : s.status = .running) : Serves n n' pos pos
  /-- The node asks and is answered. -/
  | answered (asking : Machine) (hl : n.isLive = true)
      (hm : n.machine.step = (asking, .ok .needsInput))
      (hs : asking.supply n.poll.1 = (n'.machine, .ok ())) : Serves n n' pos ⟨pos.node, true⟩
  /-- The node asks again. -/
  | parked (hl : n.isLive = true) (hm : n.machine.step = (n'.machine, .ok .needsInput))
      (ha : pos.answered = true) : Serves n n' pos ⟨pos.node + 1, false⟩

/-- **A turn of a round** serves the node at its turn. The machines of the others are left as they are,
    and so is the number of rounds. -/
structure Serving (net : Network) (pos : Position) (net' : Network) (pos' : Position) : Prop where
  size : net'.nodes.size = net.nodes.size
  rounds : net'.rounds = net.rounds
  others : ∀ (i : Nat) (n' : Node), i ≠ pos.node → net'.nodes[i]? = some n' →
    ∃ n, net.nodes[i]? = some n ∧ n'.machine = n.machine ∧ n'.isLive = n.isLive
  self : ∃ n n', net.nodes[pos.node]? = some n ∧ net'.nodes[pos.node]? = some n' ∧ Serves n n' pos pos'

variable {net net' : Network} {pos pos' : Position} {n n' : Node} {most : Nat}

theorem Serves.of_same {n'' : Node} (h : Serves n n' pos pos') (hm : n''.machine = n'.machine)
    (hl : n''.isLive = n'.isLive) : Serves n n'' pos pos' := by
  cases h with
  | stopped hstop => exact .stopped (hl.trans hstop)
  | acted s hlive hstep hs => exact .acted s hlive (hm ▸ hstep) hs
  | answered asking hlive hstep hs => exact .answered asking hlive hstep (hm ▸ hs)
  | parked hlive hstep ha => exact .parked hlive (hm ▸ hstep) ha

theorem serving_place (hn : net.nodes[pos.node]? = some n) (h : Serves n n' pos pos') :
    Serving net pos (net.place pos.node n') pos' where
  size := Array.size_modify
  rounds := rfl
  others i n' hi hn' := by
    rw [getElem?_place hn, if_neg (Ne.symm hi)] at hn'
    exact ⟨n', hn', rfl, rfl⟩
  self := ⟨n, n', hn, by rw [getElem?_place hn, if_pos rfl], h⟩

theorem rounds_route (net : Network) (p : Packet) : (net.route p).rounds = net.rounds := by
  unfold route
  split
  · rfl
  · split <;> rfl

/-- A packet changes no machine. -/
theorem Serving.route (h : Serving net pos net' pos') (p : Packet) :
    Serving net pos (net'.route p) pos' := by
  have hrouted : ∀ (i : Nat) (n'' : Node), (net'.route p).nodes[i]? = some n'' →
      ∃ n', net'.nodes[i]? = some n' ∧ n''.machine = n'.machine ∧ n''.isLive = n'.isLive := by
    intro i n'' hn''
    rw [getElem?_route] at hn''
    obtain ⟨n', hn', rfl⟩ := Option.map_eq_some_iff.1 hn''
    refine ⟨n', hn', ?_⟩
    split <;> exact ⟨rfl, rfl⟩
  refine ⟨(size_route net' p).trans h.size, (rounds_route net' p).trans h.rounds, ?_, ?_⟩
  · intro i n'' hi hn''
    obtain ⟨n', hn', hm, hl⟩ := hrouted i n'' hn''
    obtain ⟨n, hn, hm', hl'⟩ := h.others i n' hi hn'
    exact ⟨n, hn, hm.trans hm', hl.trans hl'⟩
  · obtain ⟨n, n', hn, hn', hserves⟩ := h.self
    have hsize : pos.node < (net'.route p).nodes.size := by
      rw [size_route]
      exact (Array.getElem?_eq_some_iff.1 hn').1
    obtain ⟨n₁, hn₁, hm, hl⟩ := hrouted pos.node _ (Array.getElem?_eq_getElem hsize)
    obtain rfl := Option.some.inj (hn'.symm.trans hn₁)
    exact ⟨n, _, hn, Array.getElem?_eq_getElem hsize, hserves.of_same hm hl⟩

theorem serving_fail (hn : net.nodes[pos.node]? = some n) {e : Fault} {s' : Schedule}
    (ht : (net.place pos.node n').fail pos.node e = .more s') : Serving net pos s'.1 s'.2 := by
  unfold Network.fail at ht
  split at ht
  · rw [modify_place] at ht
    obtain rfl := Turn.more.inj ht
    exact serving_place hn (.stopped rfl)
  · cases ht

/-- **Every turn of a round serves a node.** -/
theorem serving {s' : Schedule} (hlt : pos.node < net.nodes.size)
    (ht : turn (net, pos) = .more s') : Serving net pos s'.1 s'.2 := by
  have hway := net.way pos
  generalize Network.turn (net, pos) = t at hway ht
  generalize sights (net, pos) = seen at hway
  generalize events (net, pos) = new at hway
  cases hway with
  | closed hn => exact absurd (Array.getElem?_eq_none_iff.1 hn) (Nat.not_le.2 hlt)
  | skipped n hn hl =>
    obtain rfl := Turn.more.inj ht
    exact ⟨rfl, rfl, fun i n _ hi => ⟨n, hi, rfl, rfl⟩, n, n, hn, hn, .stopped hl⟩
  | executed n m hn hl hm =>
    obtain rfl := Turn.more.inj ht
    exact serving_place hn (.acted _ hl hm rfl)
  | gathered n m w hn hl hm =>
    obtain rfl := Turn.more.inj ht
    exact serving_place hn (.acted _ hl hm rfl)
  | sent n m w p hn hl hm =>
    obtain rfl := Turn.more.inj ht
    exact (serving_place hn (.acted _ hl hm rfl)).route p
  | parked n m hn hl hm ha =>
    obtain rfl := Turn.more.inj ht
    exact serving_place hn (.parked hl hm ha)
  | answered n m m' hn hl hm ha hs =>
    obtain rfl := Turn.more.inj ht
    exact serving_place hn (.answered m hl hm hs)
  | halted n m hn hl hm =>
    obtain rfl := Turn.more.inj ht
    exact serving_place hn (.stopped rfl)
  | refused n m m' e hn hl hm ha hs => exact serving_fail hn ht
  | failed n m e hn hl hm => exact serving_fail hn ht

/-! ## 2. The end of a service -/

/-- The step limit of every node. -/
def Limited (most : Nat) (net : Network) : Prop := net.Every fun n => n.machine.stepLimit = some most

theorem lasting_limited (most : Nat) : Lasting fun n => n.machine.stepLimit = some most where
  step n h := (Machine.stepLimit_step n.machine).trans h
  answer n h := (Machine.stepLimit_supply n.machine n.poll.1).trans h
  outgoing _ _ h := h
  accept _ _ _ h := h
  status _ _ h := h
  terminate n h := (Machine.stepLimit_supply n.machine .terminate).trans h

theorem Limited.turn {s' : Schedule} (h : net.Limited most) (ht : turn (net, pos) = .more s') :
    s'.1.Limited most := by
  have hkept := (lasting_limited most).turn h pos
  rw [ht] at hkept
  exact hkept

theorem limited_ofMachines {config : Config} (machines : List Machine)
    (h : config.stepLimit = some most) : (ofMachines machines config).Limited most := by
  intro i n hn
  unfold ofMachines at hn
  rw [List.getElem?_toArray, List.getElem?_mapIdx] at hn
  obtain ⟨m, hm, rfl⟩ := Option.map_eq_some_iff.1 hn
  simp only [enrol, h]
  rfl

theorem Watch.limited {start : Network} {s : Schedule} {past seen : List Sight}
    (h : Watch start s past seen) (hl : start.Limited most) : s.1.Limited most := by
  induction h with
  | start => exact hl
  | turn s s' past seen _ _ ht ih => exact ih.turn ht
  | next s s' past seen _ _ ht ih => exact ih.turn ht
  | again s net r past seen _ ht ih =>
    have hkept := (lasting_limited most).turn ih s.2
    rw [ht] at hkept
    exact hkept

/-- What is left of a round: the nodes whose turn has not passed, and the turns that the node at its turn
    has left. -/
def rank (most : Nat) (s : Schedule) : Nat × Nat :=
  (s.1.nodes.size - s.2.node, ((s.1.nodes[s.2.node]?).map (·.machine.unspent most)).getD 0)

/-- The order of ranks. -/
def Lower : Nat × Nat → Nat × Nat → Prop := Prod.Lex (· < ·) (· < ·)

theorem lower_wellFounded : WellFounded Lower := (Prod.lex Nat.lt_wfRel Nat.lt_wfRel).wf

/-- **A turn of a round leaves less of it.** -/
theorem Serving.lower (h : Serving net pos net' pos') (hl : net.Limited most) :
    Lower (rank most (net', pos')) (rank most (net, pos)) := by
  obtain ⟨n, n', hn, hn', hserves⟩ := h.self
  have hlt : pos.node < net.nodes.size := (Array.getElem?_eq_some_iff.1 hn).1
  have hsize := h.size
  have pass : Lower (rank most (net', ⟨pos.node + 1, false⟩)) (rank most (net, pos)) := by
    refine Prod.Lex.left _ _ ?_
    show net'.nodes.size - (pos.node + 1) < net.nodes.size - pos.node
    omega
  have stay : ∀ answered, n'.machine.unspent most < n.machine.unspent most →
      Lower (rank most (net', ⟨pos.node, answered⟩)) (rank most (net, pos)) := by
    intro answered hless
    simp only [rank, hn, hn', hsize]
    exact Prod.Lex.right _ hless
  cases hserves with
  | stopped => exact pass
  | parked => exact pass
  | acted s hlive hm hs => exact stay pos.answered (Machine.unspent_of_step (hl _ n hn) hm hs).1
  | answered asking hlive hm hs => exact stay true (Machine.unspent_of_answer (hl _ n hn) hm hs).1

/-- The turns of the node with a number, up to where its turn passes. -/
def service (i : Nat) : Schedule → Turn Schedule (Schedule ⊕ Outcome) :=
  Turn.upTo (fun s => s.2.node ≠ i) turn

theorem Serves.position_eq (h : Serves n n' pos pos') :
    pos'.node = pos.node ∨ pos' = ⟨pos.node + 1, false⟩ := by
  cases h with
  | stopped => exact .inr rfl
  | acted => exact .inl rfl
  | answered => exact .inl rfl
  | parked => exact .inr rfl

theorem Serves.live (h : Serves n n' pos pos') (hl : n'.isLive = true) : n.isLive = true := by
  cases h with
  | stopped hstop =>
    rw [hl] at hstop
    cases hstop
  | acted _ hlive | answered _ hlive => exact hlive
  | parked hlive => exact hlive

/-- **Every service ends**, and the turn passes to the next node unless the run is over. -/
theorem ends_service {s : Schedule} (hl : s.1.Limited most) (hlt : s.2.node < s.1.nodes.size) :
    ∃ r, Turn.Ends (service s.2.node) s r ∧ ∀ s', r = .inl s' → s'.2 = ⟨s.2.node + 1, false⟩ := by
  have hends := Turn.ends_upTo (fun t => t.2.node ≠ s.2.node) turn lower_wellFounded (rank most) (s := s)
    (P := fun t => t.1.Limited most ∧ t.1.nodes.size = s.1.nodes.size ∧
      (t.2.node = s.2.node ∨ t.2 = ⟨s.2.node + 1, false⟩))
    ?_ ⟨hl, rfl, .inl rfl⟩
  · obtain ⟨r, hr, hend⟩ := hends
    refine ⟨r, hr, fun s' hs' => ?_⟩
    obtain ⟨hstop, -, -, hpos⟩ := hend s' hs'
    rcases hpos with hsame | hpassed
    · exact absurd hsame (of_decide_eq_true hstop)
    · exact hpassed
  · intro t t' ht hstop hturn
    obtain ⟨hl, hsize, -⟩ := ht
    have hnode : t.2.node = s.2.node := of_decide_eq_true (by simpa using hstop)
    have hserving : Serving t.1 t.2 t'.1 t'.2 := serving (by omega) hturn
    refine ⟨hserving.lower hl, hl.turn hturn, hserving.size.trans hsize, ?_⟩
    obtain ⟨n, n', -, -, hserves⟩ := hserving.self
    rw [← hnode]
    exact hserves.position_eq

/-! ## 3. The cost of a round -/

end Network

namespace Node

/-- **What a round has cost a live node** when the scheduler stands at a position: its machine has gone on,
    it does not wait once it has been answered, and it has executed an instruction when its turn is
    over. -/
structure Paid (most : Nat) (pos : Network.Position) (i : Nat) (before n : Node) : Prop where
  live : before.isLive = true
  steps : before.machine.steps ≤ n.machine.steps
  awake : i = pos.node → pos.answered = true → n.machine.status ≠ .awaitingInput
  paid : i < pos.node → before.machine.steps < n.machine.steps ∧ n.machine.steps ≤ most

variable {most i : Nat} {pos pos' : Network.Position} {before n n' : Node}

/-- The turn of one node costs the others nothing. -/
theorem Paid.other (h : Paid most pos i before n) (hi : i ≠ pos.node) (hm : n'.machine = n.machine)
    (hpos : pos'.node = pos.node ∨ pos' = ⟨pos.node + 1, false⟩) : Paid most pos' i before n' := by
  refine ⟨h.live, hm ▸ h.steps, fun heq ha => ?_, fun hlt => ?_⟩
  · rcases hpos with hsame | rfl
    · exact absurd (heq.trans hsame) hi
    · cases ha
  · rw [hm]
    refine h.paid ?_
    rcases hpos with hsame | rfl
    · omega
    · have hle : i < pos.node + 1 := hlt
      omega

/-- The turn of a node costs it an instruction in the end. -/
theorem Paid.self (h : Paid most pos pos.node before n) (hl : n.machine.stepLimit = some most)
    (hs : Network.Serves n n' pos pos') (hlive : n'.isLive = true) :
    Paid most pos' pos.node before n' := by
  cases hs with
  | stopped hstop =>
    rw [hlive] at hstop
    cases hstop
  | acted s _ hm hs =>
    obtain ⟨-, hsteps, hawake⟩ := Machine.unspent_of_step hl hm hs
    exact ⟨h.live, Nat.le_trans h.steps hsteps, fun _ _ => hawake, fun hlt => absurd hlt (Nat.lt_irrefl _)⟩
  | answered asking _ hm hs =>
    obtain ⟨-, hsteps, hawake⟩ := Machine.unspent_of_answer hl hm hs
    exact ⟨h.live, Nat.le_trans h.steps hsteps, fun _ _ => hawake, fun hlt => absurd hlt (Nat.lt_irrefl _)⟩
  | parked _ hm ha =>
    -- it did not wait since it was answered, so that to ask again was an instruction
    obtain ⟨hlt, hle⟩ := Machine.cost_of_request hl hm (h.awake rfl ha)
    have hsteps := h.steps
    refine ⟨h.live, by omega, nofun, fun _ => ⟨by omega, hle⟩⟩

end Node

namespace Network

variable {net net' start : Network} {pos pos' : Position} {most : Nat}

/-- **A round that costs something**, under way since `start`. -/
structure Paying (most : Nat) (start : Network) (s : Schedule) : Prop where
  limited : s.1.Limited most
  within : s.2.node ≤ s.1.nodes.size
  rounds : s.1.rounds = start.rounds
  nodes : ∀ (i : Nat) (n : Node), s.1.nodes[i]? = some n → n.isLive = true →
    ∃ before, start.nodes[i]? = some before ∧ before.Paid most s.2 i n

theorem paying_start (h : net.Limited most) : Paying most net (net, ⟨0, false⟩) where
  limited := h
  within := Nat.zero_le _
  rounds := rfl
  nodes i n hn hl := ⟨n, hn, hl, Nat.le_refl _, nofun, fun hlt => absurd hlt (Nat.not_lt_zero i)⟩

/-- **Every turn of a round keeps the accounts.** -/
theorem Paying.turn {s' : Schedule} (h : Paying most start (net, pos))
    (hlt : pos.node < net.nodes.size) (ht : turn (net, pos) = .more s') : Paying most start s' := by
  have hserving := serving hlt ht
  obtain ⟨n, n', hn, hn', hserves⟩ := hserving.self
  have hpos := hserves.position_eq
  refine ⟨h.limited.turn ht, ?_, hserving.rounds.trans h.rounds, fun i n₁ hn₁ hlive => ?_⟩
  · rw [hserving.size]
    rcases hpos with hsame | hpassed
    · omega
    · rw [hpassed]
      exact hlt
  · by_cases hi : i = pos.node
    · subst hi
      obtain rfl := Option.some.inj (hn'.symm.trans hn₁)
      obtain ⟨before, hstart, hpaid⟩ := h.nodes _ n hn (hserves.live hlive)
      exact ⟨before, hstart, hpaid.self (h.limited _ n hn) hserves hlive⟩
    · obtain ⟨n₀, hn₀, hm, hl⟩ := hserving.others i n₁ hi hn₁
      obtain ⟨before, hstart, hpaid⟩ := h.nodes i n₀ hn₀ (hl ▸ hlive)
      exact ⟨before, hstart, hpaid.other hi hm hpos⟩

/-- The turns of a round, up to where the turn of the last node passes. -/
def round : Schedule → Turn Schedule (Schedule ⊕ Outcome) :=
  Turn.upTo (fun s => s.1.nodes.size ≤ s.2.node) turn

/-- **Every round ends**, and each node that is live then has paid for it. -/
theorem ends_round (h : net.Limited most) :
    ∃ r, Turn.Ends round (net, ⟨0, false⟩) r ∧ ∀ s', r = .inl s' →
      s'.1.nodes.size ≤ s'.2.node ∧ Paying most net s' := by
  have hends := Turn.ends_upTo (fun t => t.1.nodes.size ≤ t.2.node) turn lower_wellFounded (rank most)
    (P := Paying most net) ?_ (paying_start h)
  · obtain ⟨r, hr, hend⟩ := hends
    refine ⟨r, hr, fun s' hs' => ?_⟩
    obtain ⟨hstop, hpaying⟩ := hend s' hs'
    exact ⟨of_decide_eq_true hstop, hpaying⟩
  · intro t t' hpaying hstop hturn
    have hlt : t.2.node < t.1.nodes.size := Nat.lt_of_not_le (of_decide_eq_false hstop)
    exact ⟨(serving hlt hturn).lower hpaying.limited, hpaying.turn hlt hturn⟩

/-! ## 4. The rounds of a run -/

/-- **After so many rounds**, each live node has executed as many instructions, which are allowed. -/
structure Charged (most k : Nat) (net : Network) : Prop where
  within : k ≤ most
  nodes : ∀ (i : Nat) (n : Node), net.nodes[i]? = some n → n.isLive = true → k ≤ n.machine.steps

theorem rounds_fail (net : Network) (i : Nat) (e : Fault) :
    (left (net.fail i e)).rounds = net.rounds := by
  unfold fail
  split <;> rfl

/-- A turn counts one round at most. -/
theorem rounds_turn (net : Network) (pos : Position) :
    (left (turn (net, pos))).rounds ≤ net.rounds + 1 := by
  have hway := net.way pos
  generalize turn (net, pos) = t at hway ⊢
  generalize sights (net, pos) = seen at hway
  generalize events (net, pos) = new at hway
  cases hway with
  | closed hn =>
    have hclosing := net.closing
    generalize net.closeRound = t at hclosing ⊢
    generalize net.closeEvents = new at hclosing
    cases hclosing with
    | stopped | lost | settled => exact Nat.le_refl _
    | busy | waiting | passed =>
      rw [left_nextRound]
      exact Nat.le_refl _
  | skipped | executed | gathered | parked | answered | halted => exact Nat.le_succ _
  | sent =>
    simp only [left, rounds_route]
    exact Nat.le_succ _
  | refused | failed =>
    rw [rounds_fail]
    exact Nat.le_succ _

/-- **The next round begins** with the machines of the one before, and some node is live. -/
theorem next_of_closeRound {s' : Schedule} (h : net.closeRound = .more s') :
    s'.2 = ⟨0, false⟩ ∧ s'.1.rounds = net.rounds + 1 ∧ net.anyLive = true ∧
      ∀ (i : Nat) (n' : Node), s'.1.nodes[i]? = some n' →
        ∃ n, net.nodes[i]? = some n ∧ n'.machine = n.machine ∧ n'.isLive = n.isLive := by
  have hclosing := net.closing
  generalize net.closeRound = t at hclosing h
  generalize net.closeEvents = new at hclosing
  cases hclosing with
  | stopped | lost | settled => cases h
  | busy hl | waiting hl =>
    obtain rfl := eq_of_nextRound h
    exact ⟨rfl, rfl, hl, fun i n hn => ⟨n, hn, rfl, rfl⟩⟩
  | passed x y hl =>
    obtain rfl := eq_of_nextRound h
    refine ⟨rfl, rfl, hl, forall_modify (fun j n _ hn => ?_) fun n hn => ?_⟩
    · exact ⟨n, hn, rfl, rfl⟩
    · exact ⟨n, hn, rfl, rfl⟩

theorem exists_of_anyLive (h : net.anyLive = true) :
    ∃ (i : Nat) (n : Node), net.nodes[i]? = some n ∧ n.isLive = true := by
  unfold anyLive at h
  obtain ⟨i, hi, hl⟩ := Array.any_eq_true.1 h
  exact ⟨i, net.nodes[i], Array.getElem?_eq_getElem hi, hl⟩

/-- **A round that is over has been paid for** by every node that is live in the next one. -/
theorem Charged.next {k : Nat} {s s' : Schedule} (h : Charged most k start)
    (hp : Paying most start s) (hend : s.1.nodes.size ≤ s.2.node)
    (ht : s.1.closeRound = .more s') : Charged most (k + 1) s'.1 := by
  obtain ⟨-, -, hany, hsame⟩ := next_of_closeRound ht
  have hpaid : ∀ (i : Nat) (n : Node), s.1.nodes[i]? = some n → n.isLive = true →
      k + 1 ≤ n.machine.steps ∧ n.machine.steps ≤ most := by
    intro i n hn hl
    have hi : i < s.1.nodes.size := (Array.getElem?_eq_some_iff.1 hn).1
    obtain ⟨before, hbefore, hcost⟩ := hp.nodes i n hn hl
    obtain ⟨hlt, hle⟩ := hcost.paid (by omega)
    have hk := h.nodes i before hbefore hcost.live
    omega
  refine ⟨?_, fun i n' hn' hl' => ?_⟩
  · obtain ⟨i, n, hn, hl⟩ := exists_of_anyLive hany
    have hcost := hpaid i n hn hl
    omega
  · obtain ⟨n, hn, hm, hl⟩ := hsame i n' hn'
    rw [hm]
    exact (hpaid i n hn (hl ▸ hl')).1

/-- A run under way: `k` rounds are over, the next one is under way, and so much is left. -/
def UnderWay (most before : Nat) (a : Nat × Nat × Nat) (s : Schedule) : Prop :=
  ∃ k start, Charged most k start ∧ Paying most start s ∧ start.rounds = before + k ∧
    a = (most - k, rank most s)

/-- **Every turn leaves less of a run.** -/
theorem UnderWay.turn {before : Nat} {a : Nat × Nat × Nat} {s s' : Schedule}
    (h : UnderWay most before a s) (ht : turn s = .more s') :
    ∃ b, Prod.Lex (· < ·) Lower b a ∧ UnderWay most before b s' := by
  obtain ⟨k, start, hcharged, hpaying, hrounds, rfl⟩ := h
  by_cases hlt : s.2.node < s.1.nodes.size
  · have hlower := (serving hlt ht).lower hpaying.limited
    exact ⟨_, Prod.Lex.right _ hlower, k, start, hcharged, hpaying.turn hlt ht, hrounds, rfl⟩
  · have hend := Nat.le_of_not_lt hlt
    have hclose : s.1.closeRound = .more s' := (turn_of_size_le hend).symm.trans ht
    obtain ⟨hpos, hcount, -, -⟩ := next_of_closeRound hclose
    have hnext := hcharged.next hpaying hend hclose
    have hwithin := hnext.within
    have hbefore := hpaying.rounds
    have hstart : Paying most s'.1 s' := by
      have hfresh := paying_start (hpaying.limited.turn ht)
      rw [← hpos] at hfresh
      exact hfresh
    refine ⟨_, Prod.Lex.left _ _ ?_, k + 1, s'.1, hnext, hstart, by omega, rfl⟩
    omega

theorem UnderWay.done {before : Nat} {a : Nat × Nat × Nat} {s : Schedule} {outcome : Outcome}
    (h : UnderWay most before a s) (ht : Network.turn s = .done outcome) :
    outcome.1.rounds ≤ before + (most + 1) := by
  obtain ⟨k, start, hcharged, hpaying, hrounds, -⟩ := h
  have hcount : (left (Network.turn s)).rounds ≤ s.1.rounds + 1 := rounds_turn s.1 s.2
  rw [ht] at hcount
  have hleft : outcome.1.rounds ≤ s.1.rounds + 1 := hcount
  have hwithin := hcharged.within
  have hbefore := hpaying.rounds
  omega

/-- **Every run ends**, with one round more at most than instructions are allowed. -/
theorem ends_run (h : net.Limited most) :
    ∃ fuel outcome, run fuel net = some outcome ∧ outcome.1.rounds ≤ net.rounds + (most + 1) := by
  by_cases hempty : net.nodes.isEmpty = true
  · exact ⟨0, (net, .error .empty), if_pos hempty, Nat.le_add_right _ _⟩
  · have hcharged : Charged most 0 net := ⟨Nat.zero_le _, fun _ _ _ _ => Nat.zero_le _⟩
    obtain ⟨outcome, ⟨fuel, hrun⟩, hrounds⟩ := Turn.ends_of_rank
      (Prod.lex Nat.lt_wfRel ⟨Lower, lower_wellFounded⟩).wf (P := UnderWay most net.rounds)
      (fun _ _ _ hway ht => hway.turn ht) (fun _ _ _ hway ht => hway.done ht)
      ⟨0, net, hcharged, paying_start h, rfl, rfl⟩
    exact ⟨fuel, outcome, (if_neg hempty).trans hrun, hrounds⟩

/-- **A step limit for the nodes limits the network.** Let the nodes be any machines, with or without a
    limit of rounds and with or without failures being isolated. The run ends, with one round more at most
    than the limit. The same goes for every run that follows, and at every point of all these runs: the
    service of the node at its turn ends, and the turn passes unless the run is over; and from the
    beginning of every round, the round ends, and every node that is live then was live before and has
    executed at least one more instruction in it. -/
theorem rounds_within_step_limit (machines : List Machine) (config : Config) (most : Nat)
    (h : config.stepLimit = some most) :
    (∃ fuel outcome, run fuel (ofMachines machines config) = some outcome ∧
      outcome.1.rounds ≤ most + 1) ∧
    ∀ (s : Schedule) (past seen : List Sight), Watch (ofMachines machines config) s past seen →
      (s.2.node < s.1.nodes.size → ∃ r, Turn.Ends (service s.2.node) s r ∧
        ∀ s', r = .inl s' → s'.2 = ⟨s.2.node + 1, false⟩) ∧
      (s.2 = ⟨0, false⟩ →
        (∃ r, Turn.Ends round s r ∧ ∀ s', r = .inl s' → s'.2.node = s'.1.nodes.size ∧
          ∀ (i : Nat) (n' : Node), s'.1.nodes[i]? = some n' → n'.isLive = true →
            ∃ n, s.1.nodes[i]? = some n ∧ n.isLive = true ∧
              n.machine.steps < n'.machine.steps ∧ n'.machine.steps ≤ most) ∧
        ∃ fuel outcome, run fuel s.1 = some outcome ∧
          outcome.1.rounds ≤ s.1.rounds + (most + 1)) := by
  have hlimited := limited_ofMachines machines h
  refine ⟨?_, fun s past seen hwatch => ?_⟩
  · obtain ⟨fuel, outcome, hrun, hrounds⟩ := ends_run hlimited
    refine ⟨fuel, outcome, hrun, ?_⟩
    have hnone : (ofMachines machines config).rounds = 0 := rfl
    omega
  · have hl := hwatch.limited hlimited
    refine ⟨ends_service hl, fun hpos => ?_⟩
    obtain ⟨net, pos⟩ := s
    obtain rfl : pos = ⟨0, false⟩ := hpos
    refine ⟨?_, ends_run hl⟩
    obtain ⟨r, hr, hend⟩ := ends_round hl
    refine ⟨r, hr, fun s' hs' => ?_⟩
    obtain ⟨hover, hpaying⟩ := hend s' hs'
    refine ⟨Nat.le_antisymm hpaying.within hover, fun i n' hn' hlive => ?_⟩
    have hi : i < s'.1.nodes.size := (Array.getElem?_eq_some_iff.1 hn').1
    obtain ⟨before, hbefore, hcost⟩ := hpaying.nodes i n' hn' hlive
    obtain ⟨hlt, hle⟩ := hcost.paid (by omega)
    exact ⟨before, hbefore, hcost.live, hlt, hle⟩

/-- Node 0 listens forever, and node 1 halts at once. With 5 instructions each, node 0 is still live after
    the first round and has executed some of them; it is left out in the third round, which is the last. -/
theorem rounds_within_step_limit_listener :
    let config : Config := { stepLimit := some 5, isolateFailures := true }
    let net := ofMachines [Machine.ofProgram [3, 5, 1105, 1, 0, 0], Machine.ofProgram [99]] config
    ∃ fuel outcome s n, run fuel net = some outcome ∧ outcome.1.rounds ≤ 6 ∧
      (run 20 net).any (fun o => o.2.isOk = false ∧ o.1.rounds = 3) = true ∧
      Turn.Ends round (net, ⟨0, false⟩) (.inl s) ∧ s.2.node = 2 ∧
      s.1.nodes[0]? = some n ∧ n.isLive = true ∧ 0 < n.machine.steps := by
  intro config net
  obtain ⟨⟨fuel, outcome, hrun, hrounds⟩, hpoints⟩ := rounds_within_step_limit
    [Machine.ofProgram [3, 5, 1105, 1, 0, 0], Machine.ofProgram [99]] config 5 rfl
  obtain ⟨-, hbegin⟩ := hpoints (net, ⟨0, false⟩) [] [] .start
  obtain ⟨⟨r, hround, hpaid⟩, -⟩ := hbegin rfl
  have heval : (Turn.run round 8 (net, ⟨0, false⟩)).any (fun r =>
      match r with
      | .inl s => s.1.nodes.size = 2 ∧ (s.1.nodes[0]?).any Node.isLive
      | .inr _ => false) = true := by decide +kernel
  obtain ⟨r', hrun', hleft⟩ := (Option.any_eq_true ..).1 heval
  obtain rfl : r = r' := hround.unique ⟨8, hrun'⟩
  cases r with
  | inr o => cases hleft
  | inl s =>
    obtain ⟨hsize, hany⟩ := of_decide_eq_true hleft
    obtain ⟨n, hn, hlive⟩ := (Option.any_eq_true ..).1 hany
    obtain ⟨hend, hcost⟩ := hpaid s rfl
    obtain ⟨before, -, -, hlt, -⟩ := hcost 0 n hn hlive
    exact ⟨fuel, outcome, s, n, hrun, hrounds, by decide +kernel, hround, hend.trans hsize, hn, hlive,
      by omega⟩

end Network

end WordMachine
