import WordMachine.Network

/-!
# What the operations of a network do

One description for each operation, as far as it concerns the nodes:

* `Node.collect_cases` -- a word that a node puts out completes a packet, or waits for others;
* `Network.forall_modify` -- what is known of all nodes after one of them was changed;
* `Network.turn_of_live` -- the turn of a live node, whose place is not vacant after all;
* `Network.turn_of_size_le`, `Network.stalled_of_nextRound` -- the end of a round;
* `Network.getElem?_route` -- which node a packet goes to;
* `Network.left` -- the network that a turn leaves, whether it goes on or not.
-/

namespace WordMachine

/-! ## 1. Nodes -/

/-- The words of a packet, as they are put out. -/
def Packet.words (p : Packet) : List Word := [p.destination, p.x, p.y]

namespace Node

theorem step_eq (n : Node) : n.step = ({ n with machine := n.machine.step.1 }, n.machine.step.2) := rfl

/-- A word that is collected completes a packet or waits for others. -/
theorem collect_cases (n : Node) (value : Word) :
    (∃ p, n.collect value = (some p, { n with outgoing := [], idle := false }) ∧
      n.outgoing ++ [value] = p.words) ∨
    (n.collect value = (none, { n with outgoing := n.outgoing ++ [value], idle := false }) ∧
      (n.outgoing ++ [value]).length ≠ 3) := by
  unfold collect
  split
  · rename_i destination x y h
    exact .inl ⟨⟨destination, x, y⟩, rfl, h⟩
  · rename_i h
    refine .inr ⟨rfl, ?_⟩
    generalize n.outgoing ++ [value] = words at h
    intro hlen
    match words, hlen with
    | [a, b, c], _ => exact h a b c rfl

end Node

namespace Network

/-! ## 2. Places -/

theorem getElem?_modify (net : Network) (i : Nat) (f : Node → Node) (j : Nat) :
    (net.modify i f).nodes[j]? = if i = j then (net.nodes[j]?).map f else net.nodes[j]? :=
  Array.getElem?_modify

theorem getElem?_place {net : Network} {i : Nat} {n : Node} (h : net.nodes[i]? = some n) (n' : Node)
    (j : Nat) : (net.place i n').nodes[j]? = if i = j then some n' else net.nodes[j]? := by
  unfold place
  rw [getElem?_modify]
  split
  · rename_i hij
    rw [← hij, h]
    rfl
  · rfl

/-- What holds of the node that is changed and of all others holds of every node. -/
theorem forall_modify {net : Network} {i : Nat} {f : Node → Node} {P : Nat → Node → Prop}
    (hothers : ∀ j n, i ≠ j → net.nodes[j]? = some n → P j n)
    (hself : ∀ n, net.nodes[i]? = some n → P i (f n)) (j : Nat) (n : Node)
    (hj : (net.modify i f).nodes[j]? = some n) : P j n := by
  rw [getElem?_modify] at hj
  split at hj
  · rename_i hij
    subst hij
    obtain ⟨n', hn', rfl⟩ := Option.map_eq_some_iff.1 hj
    exact hself n' hn'
  · rename_i hij
    exact hothers j n hij hj

theorem modify_place (net : Network) (i : Nat) (n : Node) (f : Node → Node) :
    (net.place i n).modify i f = net.place i (f n) := by
  have hnodes : ((net.place i n).modify i f).nodes = (net.place i (f n)).nodes := by
    apply Array.ext_getElem?
    intro j
    unfold place
    rw [getElem?_modify, getElem?_modify, getElem?_modify]
    split
    · cases net.nodes[j]? <;> rfl
    · rfl
  exact congrArg (fun nodes => { net with nodes := nodes }) hnodes

theorem place_place (net : Network) (i : Nat) (n n' : Node) :
    (net.place i n).place i n' = net.place i n' :=
  modify_place net i n fun _ => n'

theorem isLiveAt_place {net : Network} {i : Nat} {n n' : Node} (h : net.nodes[i]? = some n)
    (hl : n'.isLive = n.isLive) : (net.place i n').isLiveAt = net.isLiveAt := by
  funext j
  unfold isLiveAt
  rw [getElem?_place h]
  split
  · rename_i hij
    rw [← hij, h]
    exact hl
  · rfl

/-- The place of a node at its turn may as well not be vacant. -/
theorem serve_place (net : Network) (n n' : Node) (pos : Position) :
    (net.place pos.node n).serve n' pos = net.serve n' pos := by
  unfold serve emit reply
  simp only [place_place]

theorem turn_of_live {net : Network} {pos : Position} {n : Node} (h : net.nodes[pos.node]? = some n)
    (hl : n.isLive = true) : turn (net, pos) = net.serve n pos := by
  simp only [turn, h, hl, if_true, serve_place]

/-- The turn after the last node closes the round. -/
theorem turn_of_size_le {s : Schedule} (h : s.1.nodes.size ≤ s.2.node) : turn s = s.1.closeRound := by
  obtain ⟨net, pos⟩ := s
  simp only [turn, Array.getElem?_eq_none h]

/-- Nothing but the limit of rounds can keep a round from being followed by another. -/
theorem stalled_of_nextRound {net net' : Network} {r : Except Failure Report}
    (h : net.nextRound = .done (net', r)) : r = .error (.stalled net.rounds) := by
  unfold nextRound at h
  split at h
  · split at h
    · cases h
      rfl
    · cases h
  · cases h

/-! ## 3. Packets -/

theorem receiver?_eq_some_iff (net : Network) (p : Packet) (i : Nat) :
    net.receiver? p = some i ↔ p.destination.toInt = i ∧ net.isLiveAt i = true := by
  rw [← Word.address?_eq_some_iff]
  unfold receiver?
  cases Word.address? p.destination with
  | none => simp
  | some j =>
    by_cases hl : net.isLiveAt j = true
    · simp only [hl, if_true, Option.some.injEq]
      constructor
      · rintro rfl
        exact ⟨rfl, hl⟩
      · exact And.left
    · simp only [hl, if_false, reduceCtorEq, Option.some.injEq, false_iff]
      rintro ⟨rfl, h⟩
      exact hl h

/-- **The words of a packet go to its live node**, unless it is for the monitor. -/
theorem getElem?_route (net : Network) (p : Packet) (j : Nat) :
    (net.route p).nodes[j]? = (net.nodes[j]?).map fun n =>
      if p.destination ≠ net.config.monitorAddress ∧ p.destination.toInt = j ∧ net.isLiveAt j = true
      then n.accept p.x p.y else n := by
  unfold route
  by_cases hm : p.destination = net.config.monitorAddress
  · rw [if_pos hm]
    simp [hm]
  · rw [if_neg hm]
    cases hr : net.receiver? p with
    | some i =>
      obtain ⟨hi, hl⟩ := (receiver?_eq_some_iff net p i).1 hr
      simp only
      rw [getElem?_modify]
      by_cases hij : i = j
      · subst hij
        simp [hm, hi, hl]
      · have hne : ¬ p.destination.toInt = (j : Int) := by omega
        simp [hij, hne]
    | none =>
      have hno : ¬ (p.destination.toInt = j ∧ net.isLiveAt j = true) := by
        rw [← receiver?_eq_some_iff, hr]
        nofun
      simp [hno]

theorem receiver?_isSome (net : Network) (p : Packet) :
    (net.receiver? p).isSome = (Word.address? p.destination).any net.isLiveAt := by
  unfold receiver?
  cases Word.address? p.destination with
  | none => rfl
  | some i => cases h : net.isLiveAt i <;> simp [h]

theorem config_route (net : Network) (p : Packet) : (net.route p).config = net.config := by
  unfold route
  split
  · rfl
  · split <;> rfl

theorem size_route (net : Network) (p : Packet) : (net.route p).nodes.size = net.nodes.size := by
  unfold route
  split
  · rfl
  · split
    · exact Array.size_modify
    · rfl

/-! ## 4. Turns -/

/-- The network that a turn leaves. -/
def left : Turn Schedule Outcome → Network
  | .more (net, _) => net
  | .done (net, _) => net

theorem left_nextRound (net : Network) : left net.nextRound = net := by
  unfold nextRound
  split
  · split <;> rfl
  · rfl

theorem monitor_fail (net : Network) (i : Nat) (e : Fault) :
    (left (net.fail i e)).monitor = net.monitor := by
  unfold fail
  split <;> rfl

end Network

end WordMachine
