import WordMachine.Proofs.Network.Ways
import WordMachine.Proofs.Transition

/-!
# When a network is idle

The scheduler takes a network for idle by a flag that each node keeps. This file says what the flag is
worth at the end of a round, in terms of what could be seen of the nodes.

* `Network.answersTo`, `Network.wordsSince` -- what has been seen of one node;
* `Network.Watch` -- the networks that any number of runs lead through, with what has been seen in the
  rounds before and in this one;
* `Network.InRound` -- the nodes before the one at its turn have been answered once in this round and wait
  again, and the flag of an answered node is exact. Every turn of a round keeps this (`InRound.turn`);
* `Network.MonitorActs` -- the monitor does something in a turn, other than to receive a packet;
* `Network.idle_exact` -- so the verdict at the end of a round is exact, and the monitor acts on no other.
-/

namespace WordMachine

/-! ## 1. Polling -/

namespace Node

theorem booted_poll (n : Node) : n.poll.2.booted = true := by
  unfold poll
  split
  · rename_i hb
    cases n.inbound.next? <;> exact hb
  · rfl

/-- **A poll sets the flag exactly if it finds nothing**, provided that a node is not taken for idle
    before it has read its number: the first poll leaves the flag as it is. -/
theorem idle_poll {n : Node} (h : n.booted = false → n.idle = false) :
    n.poll.2.idle = true ↔ n.poll.1 = .noValue := by
  unfold poll
  split
  · cases n.inbound.next? with
    | some w => exact ⟨nofun, nofun⟩
    | none => exact ⟨fun _ => rfl, fun _ => rfl⟩
  · rename_i hb
    have hidle := h (Bool.eq_false_iff.2 hb)
    simp only [hidle]
    exact ⟨nofun, nofun⟩

end Node

namespace Network

/-! ## 2. What has been seen of a node -/

/-- The answer that the node with a number is seen to get. -/
def Sight.answerTo (i : Nat) : Sight → Option Answer
  | .answer node a => if node = i then some a else none
  | .word .. => none

/-- The words of the node with a number since its last answer, once something more is seen. -/
def Sight.words (i : Nat) (words : List Word) : Sight → List Word
  | .answer node _ => if node = i then [] else words
  | .word node w => if node = i then words ++ [w] else words

/-- The answers that a node has got. -/
def answersTo (i : Nat) (log : List Sight) : List Answer := log.filterMap (Sight.answerTo i)

/-- The words that a node has put out since its last answer. -/
def wordsSince (i : Nat) (log : List Sight) : List Word := log.foldl (Sight.words i) []

@[simp] theorem answersTo_append (i : Nat) (log later : List Sight) :
    answersTo i (log ++ later) = answersTo i log ++ answersTo i later :=
  List.filterMap_append

theorem answersTo_answer (i : Nat) (a : Answer) : answersTo i [.answer i a] = [a] := by
  simp [answersTo, Sight.answerTo]

theorem answersTo_word (i j : Nat) (w : Word) : answersTo i [.word j w] = [] := rfl

theorem wordsSince_answer (i : Nat) (log : List Sight) (a : Answer) :
    wordsSince i (log ++ [.answer i a]) = [] := by
  simp [wordsSince, Sight.words]

theorem wordsSince_word (i : Nat) (log : List Sight) (w : Word) :
    wordsSince i (log ++ [.word i w]) = wordsSince i log ++ [w] := by
  simp [wordsSince, Sight.words]

/-- What is seen of other nodes says nothing of a node. -/
theorem answersTo_of_ne {i : Nat} {seen : List Sight} (h : ∀ e ∈ seen, e.node ≠ i) :
    answersTo i seen = [] := by
  refine List.filterMap_eq_nil_iff.2 fun e he => ?_
  cases e with
  | answer node a => exact if_neg (h _ he)
  | word node w => rfl

theorem wordsSince_of_ne {i : Nat} {seen : List Sight} (h : ∀ e ∈ seen, e.node ≠ i)
    (log : List Sight) : wordsSince i (log ++ seen) = wordsSince i log := by
  unfold wordsSince
  rw [List.foldl_append]
  generalize log.foldl (Sight.words i) [] = words
  induction seen with
  | nil => rfl
  | cons e rest ih =>
    have he : Sight.words i words e = words := by
      have hne := h e List.mem_cons_self
      cases e with
      | answer node a => exact if_neg hne
      | word node w => exact if_neg hne
    rw [List.foldl_cons, he]
    exact ih fun e' he' => h e' (List.mem_cons_of_mem _ he')

/-! ## 3. Nodes before their first answer -/

/-- A node that has not read its number is not taken for idle. -/
def Waking (net : Network) : Prop :=
  ∀ (i : Nat) (n : Node), net.nodes[i]? = some n → n.booted = false → n.idle = false

variable {net : Network} {pos : Position}

/-- The first poll of a node comes before all that could raise its flag. -/
theorem lasting_waking : Lasting fun n => n.booted = false → n.idle = false where
  step _ h := h
  answer n _ hb := by
    have hbooted : n.poll.2.booted = false := hb
    rw [n.booted_poll] at hbooted
    cases hbooted
  outgoing _ _ _ _ := rfl
  accept _ _ _ h := h
  status _ _ h := h
  terminate _ h := h

/-- **A turn wakes no node before its first answer.** -/
theorem Waking.turn (h : net.Waking) (pos : Position) : (left (turn (net, pos))).Waking :=
  lasting_waking.turn h pos

/-! ## 4. In a round -/

/-- Whether the node with a number has been answered in this round, or its turn is over. -/
def Position.HasServed (pos : Position) (i : Nat) : Prop :=
  i < pos.node ∨ (i = pos.node ∧ pos.answered = true)

/-- The positions that a turn of a round leads to. -/
inductive Position.Advances (pos : Position) : Position → Prop where
  | stay : Advances pos pos
  | answer : Advances pos ⟨pos.node, true⟩
  | pass : Advances pos ⟨pos.node + 1, false⟩

theorem Position.Advances.served {pos pos' : Position} (h : pos.Advances pos') {i : Nat}
    (hs : pos.HasServed i) : pos'.HasServed i := by
  cases h with
  | stay => exact hs
  | answer =>
    rcases hs with hlt | ⟨heq, -⟩
    · exact .inl hlt
    · exact .inr ⟨heq, rfl⟩
  | pass =>
    rcases hs with hlt | ⟨heq, -⟩
    · exact .inl (Nat.lt_succ_of_lt hlt)
    · exact .inl (heq ▸ Nat.lt_succ_self _)

/-- Only the node at its turn is served by a turn. -/
theorem Position.Advances.lt_of_served {pos pos' : Position} (h : pos.Advances pos') {i : Nat}
    (hi : i ≠ pos.node) (hs : pos'.HasServed i) : i < pos.node := by
  cases h with
  | stay | answer =>
    rcases hs with hlt | ⟨heq, -⟩
    · exact hlt
    · exact absurd heq hi
  | pass =>
    rcases hs with hlt | ⟨-, ha⟩
    · exact Nat.lt_of_le_of_ne (Nat.le_of_lt_succ hlt) hi
    · cases ha

/-- Unless the scheduler stays where it is, the node at its turn is served. -/
theorem Position.Advances.eq_of_not_served {pos pos' : Position} (h : pos.Advances pos')
    (hs : ¬ pos'.HasServed pos.node) : pos' = pos := by
  cases h with
  | stay => rfl
  | answer => exact absurd (.inr ⟨rfl, rfl⟩) hs
  | pass => exact absurd (.inl (Nat.lt_succ_self _)) hs

end Network

namespace Node

/-- **A node has been served**: it has been answered once in this round, and its flag says exactly
    whether it found nothing then and has put out nothing since. -/
structure Served (i : Nat) (n : Node) (past round : List Network.Sight) : Prop where
  booted : n.booted = true
  once : ∃ a, Network.answersTo i round = [a]
  idle : n.idle = true ↔
    (Network.answersTo i (past ++ round)).getLast? = some .noValue ∧
      Network.wordsSince i (past ++ round) = []

/-- **A node is quiet**: at its last request it found nothing, it has put out no word since, and nothing
    waits for it. -/
structure Quiet (i : Nat) (n : Node) (log : List Network.Sight) : Prop where
  answer : (Network.answersTo i log).getLast? = some .noValue
  words : Network.wordsSince i log = []
  inbound : n.inbound.toList = []

/-- What holds of a live node when the scheduler stands at a position: once its turn is over it waits for
    input, and once it has been answered it has been served. -/
structure Tended (pos : Network.Position) (past round : List Network.Sight) (i : Nat) (n : Node) :
    Prop where
  parked : n.isLive = true → i < pos.node →
    n.machine.fault = none ∧ n.machine.status = .awaitingInput
  served : n.isLive = true → pos.HasServed i → n.Served i past round

variable {i : Nat} {n n' : Node} {past round seen : List Network.Sight} {pos pos' : Network.Position}

theorem Served.of_same (h : n.Served i past round) (hb : n'.booted = n.booted)
    (hi : n'.idle = n.idle) : n'.Served i past round where
  booted := hb.trans h.booted
  once := h.once
  idle := by
    rw [hi]
    exact h.idle

/-- What is seen of others changes nothing. -/
theorem Served.later (h : n.Served i past round) (hseen : ∀ e ∈ seen, e.node ≠ i) :
    n.Served i past (round ++ seen) where
  booted := h.booted
  once := by
    rw [Network.answersTo_append, Network.answersTo_of_ne hseen, List.append_nil]
    exact h.once
  idle := by
    rw [← List.append_assoc, Network.answersTo_append, Network.answersTo_of_ne hseen, List.append_nil,
      Network.wordsSince_of_ne hseen]
    exact h.idle

/-- A node that puts out a word is not idle. -/
theorem Served.word (h : n.Served i past round) (m : Machine) (outgoing : List Word) (w : Word) :
    Served i { n with machine := m, outgoing := outgoing, idle := false } past
      (round ++ [.word i w]) where
  booted := h.booted
  once := by
    rw [Network.answersTo_append, Network.answersTo_word, List.append_nil]
    exact h.once
  idle := by
    rw [← List.append_assoc, Network.wordsSince_word]
    refine ⟨nofun, fun hno => ?_⟩
    have hne : Network.wordsSince i (past ++ round) ++ [w] ≠ [] := List.append_ne_nil_of_right_ne_nil _ nofun
    exact absurd hno.2 hne

/-- A node that is answered has been served. -/
theorem served_poll (h : n.booted = false → n.idle = false) (hnone : Network.answersTo i round = [])
    (hb : n'.booted = n.poll.2.booted) (hi : n'.idle = n.poll.2.idle) :
    n'.Served i past (round ++ [.answer i n.poll.1]) where
  booted := hb.trans n.booted_poll
  once := by
    rw [Network.answersTo_append, hnone, Network.answersTo_answer]
    exact ⟨_, rfl⟩
  idle := by
    rw [hi, idle_poll h, ← List.append_assoc, Network.wordsSince_answer, Network.answersTo_append,
      Network.answersTo_answer, List.getLast?_concat]
    exact ⟨fun ha => ⟨congrArg some ha, rfl⟩, fun ha => Option.some.inj ha.1⟩

theorem tended_of_not_live (h : n.isLive = false) : n.Tended pos past round i := by
  refine ⟨fun hl => ?_, fun hl => ?_⟩
  · rw [h] at hl
    cases hl
  · rw [h] at hl
    cases hl

/-- The turn of one node leaves what holds of the others. -/
theorem Tended.other (h : n.Tended pos past round i) (hi : i ≠ pos.node) (hpos : pos.Advances pos')
    (hseen : ∀ e ∈ seen, e.node = pos.node) : n.Tended pos' past (round ++ seen) i where
  parked hl hlt := h.parked hl (hpos.lt_of_served hi (.inl hlt))
  served hl hs := by
    refine (h.served hl (.inl (hpos.lt_of_served hi hs))).later fun e he hne => ?_
    rw [hseen e he] at hne
    exact hi hne.symm

/-- A node that goes on with its turn. -/
theorem Tended.goOn (h : n.Tended pos past round pos.node) (hl : n.isLive = true)
    (hserved : n.Served pos.node past round → n'.Served pos.node past (round ++ seen)) :
    n'.Tended pos past (round ++ seen) pos.node where
  parked _ hlt := absurd hlt (Nat.lt_irrefl _)
  served _ hs := hserved (h.served hl hs)

/-- Words that arrive change nothing. -/
theorem Tended.accept (h : n.Tended pos past round i) (x y : Word) :
    (n.accept x y).Tended pos past round i where
  parked := h.parked
  served hl hs := (h.served hl hs).of_same rfl rfl

end Node

namespace Network

/-- **A round under way**: the nodes are tended, and a node that has not been served has not been answered
    in this round. -/
structure InRound (s : Schedule) (past round : List Sight) : Prop where
  tended : ∀ (i : Nat) (n : Node), s.1.nodes[i]? = some n → n.Tended s.2 past round i
  ahead : ∀ i, ¬ s.2.HasServed i → answersTo i round = []

variable {net net' : Network} {pos pos' : Position} {past round seen : List Sight}

theorem inRound_start (net : Network) (past : List Sight) : InRound (net, ⟨0, false⟩) past [] where
  tended i n _ := by
    refine ⟨fun _ hlt => absurd hlt (Nat.not_lt_zero i), fun _ hs => ?_⟩
    rcases hs with hlt | ⟨-, ha⟩
    · exact absurd hlt (Nat.not_lt_zero i)
    · cases ha
  ahead _ _ := rfl

/-- A turn that changes the node at its turn only. -/
theorem InRound.advance (h : InRound (net, pos) past round) (hpos : pos.Advances pos')
    (hseen : ∀ e ∈ seen, e.node = pos.node) (hstay : pos' = pos → answersTo pos.node seen = [])
    (hothers : ∀ i n, i ≠ pos.node → net'.nodes[i]? = some n → net.nodes[i]? = some n)
    (hself : ∀ n, net'.nodes[pos.node]? = some n → n.Tended pos' past (round ++ seen) pos.node) :
    InRound (net', pos') past (round ++ seen) := by
  refine ⟨fun i n hn => ?_, fun i hi => ?_⟩
  · by_cases hip : i = pos.node
    · subst hip
      exact hself n hn
    · exact (h.tended i n (hothers i n hip hn)).other hip hpos hseen
  · have hi : ¬ pos'.HasServed i := hi
    -- a node that is not served yet has not been answered in this turn either
    have hnew : answersTo i seen = [] := by
      by_cases hip : i = pos.node
      · subst hip
        exact hstay (hpos.eq_of_not_served hi)
      · refine answersTo_of_ne fun e he hne => ?_
        rw [hseen e he] at hne
        exact hip hne.symm
    rw [answersTo_append, h.ahead i fun hs => hi (hpos.served hs), hnew]
    rfl

theorem InRound.modify (h : InRound (net, pos) past round) (hpos : pos.Advances pos')
    (hseen : ∀ e ∈ seen, e.node = pos.node) (hstay : pos' = pos → answersTo pos.node seen = [])
    {f : Node → Node}
    (hself : ∀ n, net.nodes[pos.node]? = some n → (f n).Tended pos' past (round ++ seen) pos.node) :
    InRound (net.modify pos.node f, pos') past (round ++ seen) := by
  refine h.advance hpos hseen hstay (fun i n hi hn => ?_) fun n hn => ?_
  · rw [getElem?_modify, if_neg (Ne.symm hi)] at hn
    exact hn
  · rw [getElem?_modify, if_pos rfl] at hn
    obtain ⟨n', hn', rfl⟩ := Option.map_eq_some_iff.1 hn
    exact hself n' hn'

/-- A node that is at fault, or halts, is no longer live when the turn passes. -/
theorem InRound.stop (h : InRound (net, pos) past round) (hseen : ∀ e ∈ seen, e.node = pos.node)
    {n' : Node} (hl : n'.isLive = false) :
    InRound (net.place pos.node n', ⟨pos.node + 1, false⟩) past (round ++ seen) :=
  h.modify .pass hseen (fun heq => absurd (congrArg Position.node heq) (Nat.succ_ne_self _))
    fun _ _ => Node.tended_of_not_live hl

theorem InRound.fail (h : InRound (net, pos) past round) (hseen : ∀ e ∈ seen, e.node = pos.node)
    {n' : Node} {e : Fault} {s' : Schedule}
    (ht : (net.place pos.node n').fail pos.node e = .more s') : InRound s' past (round ++ seen) := by
  unfold Network.fail at ht
  split at ht
  · rw [modify_place] at ht
    obtain rfl := Turn.more.inj ht
    exact h.stop hseen rfl
  · cases ht

/-- A packet changes nothing but queues. -/
theorem InRound.route (h : InRound (net, pos) past round) (p : Packet) :
    InRound (net.route p, pos) past round where
  tended i n hn := by
    rw [getElem?_route] at hn
    obtain ⟨n', hn', rfl⟩ := Option.map_eq_some_iff.1 hn
    split
    · exact (h.tended i n' hn').accept p.x p.y
    · exact h.tended i n' hn'
  ahead := h.ahead

/-- **A turn of a node keeps the round in order.** -/
theorem InRound.turn {s' : Schedule} (h : InRound (net, pos) past round) (hw : net.Waking)
    (hlt : pos.node < net.nodes.size) (ht : turn (net, pos) = .more s') :
    InRound s' past (round ++ sights (net, pos)) := by
  have hway := net.way pos
  have hseen := hway.node_eq
  generalize Network.turn (net, pos) = t at hway ht
  generalize sights (net, pos) = seen at hway hseen ⊢
  generalize events (net, pos) = new at hway
  cases hway with
  | closed hn => exact absurd (Array.getElem?_eq_none_iff.1 hn) (Nat.not_le.2 hlt)
  | skipped n hn hl =>
    obtain rfl := Turn.more.inj ht
    refine h.advance .pass hseen (fun _ => rfl) (fun _ _ _ hi => hi) fun n' hn' => ?_
    rw [hn] at hn'
    obtain rfl := Option.some.inj hn'
    exact Node.tended_of_not_live hl
  | executed n m hn hl hm =>
    obtain rfl := Turn.more.inj ht
    refine h.modify .stay hseen (fun _ => rfl) fun _ _ => (h.tended _ n hn).goOn hl fun hserved => ?_
    rw [List.append_nil]
    exact hserved.of_same rfl rfl
  | gathered n m w hn hl hm hout =>
    obtain rfl := Turn.more.inj ht
    refine h.modify .stay hseen (fun _ => rfl) fun _ _ => (h.tended _ n hn).goOn hl fun hserved => ?_
    exact hserved.word m _ w
  | sent n m w p hn hl hm hout =>
    obtain rfl := Turn.more.inj ht
    refine InRound.route ?_ p
    refine h.modify .stay hseen (fun _ => rfl) fun _ _ => (h.tended _ n hn).goOn hl fun hserved => ?_
    exact hserved.word m _ w
  | parked n m hn hl hm ha =>
    obtain rfl := Turn.more.inj ht
    refine h.modify .pass hseen (fun _ => rfl) fun _ _ => ?_
    refine ⟨fun _ _ => Machine.awaiting_of_needsInput hm, fun hl' _ => ?_⟩
    rw [List.append_nil]
    exact ((h.tended _ n hn).served hl' (.inr ⟨rfl, ha⟩)).of_same rfl rfl
  | answered n m m' hn hl hm ha hs =>
    obtain rfl := Turn.more.inj ht
    have hnot : ¬ pos.HasServed pos.node := by
      intro hs'
      rcases hs' with hlt' | ⟨-, ha'⟩
      · exact Nat.lt_irrefl _ hlt'
      · rw [ha] at ha'
        cases ha'
    have hmoved : (⟨pos.node, true⟩ : Position) ≠ pos := by
      intro heq
      rw [← heq] at ha
      cases ha
    -- the first poll of a node leaves its flag, so the flag must have been down before
    refine h.modify .answer hseen (fun heq => absurd heq hmoved) fun _ _ => ?_
    refine ⟨fun _ hlt' => absurd hlt' (Nat.lt_irrefl _), fun _ _ => ?_⟩
    exact Node.served_poll (hw _ n hn) (h.ahead _ hnot) rfl rfl
  | refused n m m' e hn hl hm ha hs => exact h.fail hseen ht
  | halted n m hn hl hm =>
    obtain rfl := Turn.more.inj ht
    exact h.stop hseen rfl
  | failed n m e hn hl hm => exact h.fail hseen ht

/-! ## 5. Round after round -/

/-- **The networks that any number of runs lead through**, with what has been seen of the nodes: in the
    rounds before, and in the one under way. A run that has ended may be followed by another one. -/
inductive Watch (start : Network) : Schedule → List Sight → List Sight → Prop where
  | start : Watch start (start, ⟨0, false⟩) [] []
  /-- A node has taken its turn. -/
  | turn (s s' : Schedule) (past round : List Sight) (h : Watch start s past round)
      (hlt : s.2.node < s.1.nodes.size) (ht : turn s = .more s') :
      Watch start s' past (round ++ sights s)
  /-- The round is over, and the next one begins. -/
  | next (s s' : Schedule) (past round : List Sight) (h : Watch start s past round)
      (hle : s.1.nodes.size ≤ s.2.node) (ht : turn s = .more s') :
      Watch start s' (past ++ round) []
  /-- The run is over, and the next one begins. -/
  | again (s : Schedule) (net : Network) (r : Except Failure Report) (past round : List Sight)
      (h : Watch start s past round) (ht : turn s = .done (net, r)) :
      Watch start (net, ⟨0, false⟩) (past ++ (round ++ sights s)) []

/-- Every turn can be watched. -/
theorem Watch.more {start : Network} {s s' : Schedule} {past round : List Sight}
    (h : Watch start s past round) (ht : Network.turn s = .more s') :
    ∃ past' round', Watch start s' past' round' := by
  by_cases hlt : s.2.node < s.1.nodes.size
  · exact ⟨_, _, .turn s s' past round h hlt ht⟩
  · exact ⟨_, _, .next s s' past round h (Nat.le_of_not_lt hlt) ht⟩

/-- Every run can be watched, up to the turn that gives the result. -/
theorem Watch.run {start : Network} {fuel : Nat} {s : Schedule} {past round : List Sight}
    {outcome : Outcome} (h : Watch start s past round)
    (hr : Turn.run Network.turn fuel s = some outcome) :
    ∃ s' past' round', Watch start s' past' round' ∧ Network.turn s' = .done outcome := by
  refine Turn.run_invariant (P := fun s => ∃ past round, Watch start s past round)
    (Q := fun r => ∃ s' past' round', Watch start s' past' round' ∧ Network.turn s' = .done r)
    ?_ ?_ hr ⟨_, _, h⟩
  · intro s s' hs ht
    obtain ⟨past, round, hs⟩ := hs
    exact hs.more ht
  · intro s r hs ht
    obtain ⟨past, round, hs⟩ := hs
    exact ⟨s, past, round, hs, ht⟩

theorem eq_of_nextRound {net : Network} {s' : Schedule} (h : net.nextRound = .more s') :
    s' = (net, ⟨0, false⟩) := by
  unfold nextRound at h
  split at h
  · split at h
    · cases h
    · exact (Turn.more.inj h).symm
  · exact (Turn.more.inj h).symm

/-- A round begins with node 0. -/
theorem position_closeRound {net : Network} {s' : Schedule} (h : net.closeRound = .more s') :
    s'.2 = ⟨0, false⟩ := by
  have hclosing := net.closing
  generalize net.closeRound = t at hclosing h
  generalize net.closeEvents = new at hclosing
  cases hclosing with
  | stopped | lost | settled => cases h
  | busy | waiting | passed => rw [eq_of_nextRound h]

theorem waking_ofMachines (machines : List Machine) (config : Config) :
    (ofMachines machines config).Waking := by
  intro i n hn _
  unfold ofMachines at hn
  rw [List.getElem?_toArray, List.getElem?_mapIdx] at hn
  obtain ⟨m, hm, rfl⟩ := Option.map_eq_some_iff.1 hn
  rfl

/-- **Rounds are in order, one after the other.** -/
theorem Watch.inRound {start : Network} {s : Schedule} {past round : List Sight}
    (h : Watch start s past round) (hw : start.Waking) : s.1.Waking ∧ InRound s past round := by
  induction h with
  | start => exact ⟨hw, inRound_start start []⟩
  | turn s s' past round _ hlt ht ih =>
    have hwaking := ih.1.turn s.2
    rw [ht] at hwaking
    exact ⟨hwaking, ih.2.turn ih.1 hlt ht⟩
  | next s s' past round _ hle ht ih =>
    have hwaking := ih.1.turn s.2
    rw [ht] at hwaking
    have hclose : s.1.closeRound = .more s' := (turn_of_size_le hle).symm.trans ht
    obtain ⟨net, pos⟩ := s'
    obtain rfl : pos = ⟨0, false⟩ := position_closeRound hclose
    exact ⟨hwaking, inRound_start net _⟩
  | again s net r past round _ ht ih =>
    have hwaking := ih.1.turn s.2
    rw [ht] at hwaking
    exact ⟨hwaking, inRound_start net _⟩

/-! ## 6. The monitor -/

/-- **The monitor acts in a turn**: what it has kept is gone, or it counts a delivery, or the network
    has settled. -/
def MonitorActs (s : Schedule) : Prop :=
  (s.1.monitor.pending.isSome = true ∧ (left (turn s)).monitor.pending = none) ∨
  (left (turn s)).monitor.deliveries ≠ s.1.monitor.deliveries ∨
  ∃ net report, turn s = .done (net, .ok report)

/-- The monitor has no part in a turn, unless it receives a packet. -/
structure Unattended (monitor : Monitor) (t : Turn Schedule Outcome) : Prop where
  pending : monitor.pending.isSome = true → (left t).monitor.pending.isSome = true
  deliveries : (left t).monitor.deliveries = monitor.deliveries
  result : ∀ net r, t = .done (net, r) → ∃ failure, r = .error failure

theorem unattended_more {monitor : Monitor} {net : Network} (h : net.monitor = monitor)
    (pos : Position) : Unattended monitor (.more (net, pos)) := by
  subst h
  refine ⟨id, rfl, fun _ _ hdone => ?_⟩
  cases hdone

theorem unattended_error {monitor : Monitor} {net : Network} (h : net.monitor = monitor)
    (failure : Failure) : Unattended monitor (.done (net, .error failure)) := by
  subst h
  refine ⟨id, rfl, fun net' r hdone => ?_⟩
  cases hdone
  exact ⟨_, rfl⟩

theorem unattended_fail {monitor : Monitor} {net : Network} (h : net.monitor = monitor) (i : Nat)
    (e : Fault) : Unattended monitor (net.fail i e) := by
  unfold Network.fail
  split
  · apply unattended_more
    exact h
  · exact unattended_error h _

theorem unattended_route {monitor : Monitor} {net : Network} (h : net.monitor = monitor) (p : Packet)
    (pos : Position) : Unattended monitor (.more (net.route p, pos)) := by
  unfold route
  split
  · subst h
    refine ⟨fun _ => rfl, rfl, fun _ _ hdone => ?_⟩
    cases hdone
  · split
    · apply unattended_more
      exact h
    · apply unattended_more
      exact h

theorem unattended_nextRound (net : Network) : Unattended net.monitor net.nextRound := by
  unfold nextRound
  split
  · split
    · exact unattended_error rfl _
    · exact unattended_more rfl _
  · exact unattended_more rfl _

/-- **The monitor acts only after a round in which the network was idle.** -/
theorem idle_of_monitorActs {s : Schedule} (h : MonitorActs s) :
    s.1.nodes.size ≤ s.2.node ∧ s.1.isIdle = true := by
  obtain ⟨net, pos⟩ := s
  have hattended : ¬ Unattended net.monitor (Network.turn (net, pos)) := by
    intro hno
    rcases h with ⟨hsome, hnone⟩ | hne | ⟨net', report, hdone⟩
    · have hkept := hno.pending hsome
      rw [hnone] at hkept
      cases hkept
    · exact hne hno.deliveries
    · obtain ⟨failure, hfailure⟩ := hno.result _ _ hdone
      cases hfailure
  have hway := net.way pos
  -- only the end of a round with an idle network is left, as nothing else concerns the monitor
  generalize Network.turn (net, pos) = t at hway hattended
  generalize sights (net, pos) = seen at hway
  generalize events (net, pos) = new at hway
  cases hway with
  | closed hn =>
    refine ⟨Array.getElem?_eq_none_iff.1 hn, ?_⟩
    have hclosing := net.closing
    generalize net.closeRound = t at hclosing hattended
    generalize net.closeEvents = new at hclosing
    cases hclosing with
    | stopped hl =>
      refine (hattended ?_).elim
      apply unattended_error
      rfl
    | busy hl hi => exact (hattended (unattended_nextRound net.counted)).elim
    | waiting hl hi | passed x y hl hi | lost x y hl hi | settled x y hl hi => exact hi
  | skipped | executed | gathered | parked | answered | halted =>
    refine (hattended ?_).elim
    apply unattended_more
    rfl
  | sent =>
    refine (hattended ?_).elim
    apply unattended_route
    rfl
  | refused | failed =>
    refine (hattended ?_).elim
    apply unattended_fail
    rfl

/-- **When a run ends with a report**: a round is over, some node is live, and the monitor would pass on
    the `y` that it has passed on last. -/
theorem settled_of_turn {s : Schedule} {net : Network} {report : Report}
    (h : turn s = .done (net, .ok report)) :
    s.1.nodes.size ≤ s.2.node ∧ s.1.anyLive = true ∧ events s = [] ∧
      ∃ x y, s.1.monitor.pending = some (x, y) ∧ s.1.monitor.lastDelivered = some y ∧
        net = s.1.settled ∧ report = s.1.settled.report y := by
  have hend := (idle_of_monitorActs (.inr (.inr ⟨net, report, h⟩))).1
  have hclose : s.1.closeRound = .done (net, .ok report) := (turn_of_size_le hend).symm.trans h
  have hevents : events s = s.1.closeEvents := by
    simp only [events, Array.getElem?_eq_none hend]
  have hclosing := s.1.closing
  rw [hevents]
  generalize s.1.closeRound = t at hclosing hclose
  generalize s.1.closeEvents = new at hclosing ⊢
  cases hclosing with
  | stopped | lost => cases hclose
  | busy | waiting | passed => cases stalled_of_nextRound hclose
  | settled x y hl hi hp hy =>
    cases hclose
    exact ⟨hend, hl, rfl, x, y, hp, hy, rfl, rfl⟩

/-! ## 7. The verdict -/

theorem isIdle_iff (net : Network) :
    net.isIdle = true ↔ ∀ (i : Nat) (n : Node), net.nodes[i]? = some n → n.isLive = true →
      n.idle = true ∧ n.inbound.toList = [] := by
  unfold isIdle
  rw [Array.all_eq_true_iff_forall_mem]
  have hnode : ∀ n : Node, (!n.isLive || (n.idle && n.inbound.isEmpty)) = true ↔
      (n.isLive = true → n.idle = true ∧ n.inbound.toList = []) := by
    intro n
    rw [← Fifo.next?_eq_none_iff, ← Option.isNone_iff_eq_none]
    show _ ↔ (_ → _ ∧ n.inbound.isEmpty = true)
    cases n.isLive <;> simp
  constructor
  · intro h i n hn
    exact (hnode n).1 (h n (Array.mem_of_getElem? hn))
  · intro h n hn
    obtain ⟨i, hi⟩ := Array.mem_iff_getElem?.1 hn
    exact (hnode n).2 (h i n hi)

/-- At the end of a round, all nodes have been served and wait. -/
theorem InRound.atEnd {s : Schedule} (h : InRound s past round) (hend : s.1.nodes.size ≤ s.2.node)
    {i : Nat} {n : Node} (hn : s.1.nodes[i]? = some n) (hl : n.isLive = true) :
    (n.machine.fault = none ∧ n.machine.status = .awaitingInput) ∧ n.Served i past round := by
  have hlt : i < s.2.node := Nat.lt_of_lt_of_le (Array.getElem?_eq_some_iff.1 hn).1 hend
  exact ⟨(h.tended i n hn).parked hl hlt, (h.tended i n hn).served hl (.inl hlt)⟩

theorem InRound.isIdle_iff {s : Schedule} (h : InRound s past round)
    (hend : s.1.nodes.size ≤ s.2.node) :
    s.1.isIdle = true ↔ ∀ (i : Nat) (n : Node), s.1.nodes[i]? = some n → n.isLive = true →
      n.Quiet i (past ++ round) := by
  rw [Network.isIdle_iff]
  constructor
  · intro hidle i n hn hl
    obtain ⟨hflag, hempty⟩ := hidle i n hn hl
    obtain ⟨hanswer, hwords⟩ := (h.atEnd hend hn hl).2.idle.1 hflag
    exact ⟨hanswer, hwords, hempty⟩
  · intro hquiet i n hn hl
    have hq := hquiet i n hn hl
    exact ⟨(h.atEnd hend hn hl).2.idle.2 ⟨hq.answer, hq.words⟩, hq.inbound⟩

/-- **The verdict that a network is idle is exact.** At the end of every round, every live node has read
    its number, is not at fault and waits for input, and it has been answered once in this round; and the
    network counts as idle if and only if every live node is quiet. The monitor acts at the end of a round
    only, and only when every live node has just found nothing and is quiet. -/
theorem idle_exact (machines : List Machine) (config : Config) (s : Schedule)
    (past round : List Sight) (h : Watch (ofMachines machines config) s past round) :
    (s.1.nodes.size ≤ s.2.node →
      (∀ (i : Nat) (n : Node), s.1.nodes[i]? = some n → n.isLive = true →
        n.booted = true ∧ n.machine.fault = none ∧ n.machine.status = .awaitingInput ∧
          ∃ a, answersTo i round = [a]) ∧
      (s.1.isIdle = true ↔ ∀ (i : Nat) (n : Node), s.1.nodes[i]? = some n → n.isLive = true →
        n.Quiet i (past ++ round))) ∧
    (MonitorActs s → s.1.nodes.size ≤ s.2.node ∧
      ∀ (i : Nat) (n : Node), s.1.nodes[i]? = some n → n.isLive = true →
        answersTo i round = [.noValue] ∧ n.Quiet i (past ++ round)) := by
  have hround := (h.inRound (waking_ofMachines machines config)).2
  refine ⟨fun hend => ⟨fun i n hn hl => ?_, ?_⟩, fun hacts => ?_⟩
  · obtain ⟨hparked, hserved⟩ := hround.atEnd hend hn hl
    exact ⟨hserved.booted, hparked.1, hparked.2, hserved.once⟩
  · exact hround.isIdle_iff hend
  · obtain ⟨hend, hidle⟩ := idle_of_monitorActs hacts
    refine ⟨hend, fun i n hn hl => ?_⟩
    have hquiet := (hround.isIdle_iff hend).1 hidle i n hn hl
    obtain ⟨a, ha⟩ := (hround.atEnd hend hn hl).2.once
    have hlast := hquiet.answer
    rw [answersTo_append, ha, List.getLast?_concat] at hlast
    obtain rfl := Option.some.inj hlast
    exact ⟨ha, hquiet⟩

/-- Node 0 sends packets to the monitor, node 1 only listens. When the network has settled, both have
    just found nothing. -/
theorem idle_exact_settled :
    ∃ s past round,
      Watch (ofMachines [Machine.ofProgram [3, 28, 104, 255, 104, 1, 104, 1, 3, 28, 1008, 28, -1, 29,
        1005, 29, 8, 3, 28, 104, 255, 104, 5, 104, 2, 1105, 1, 8, 0, 0],
        Machine.ofProgram [3, 7, 3, 7, 1105, 1, 2, 0]] {}) s past round ∧
      MonitorActs s ∧ s.1.anyLive = true ∧
      ∀ (i : Nat) (n : Node), s.1.nodes[i]? = some n → n.isLive = true →
        answersTo i round = [.noValue] ∧ n.Quiet i (past ++ round) := by
  have hrun : (Turn.run turn 70 (ofMachines [Machine.ofProgram [3, 28, 104, 255, 104, 1, 104, 1, 3, 28,
      1008, 28, -1, 29, 1005, 29, 8, 3, 28, 104, 255, 104, 5, 104, 2, 1105, 1, 8, 0, 0],
      Machine.ofProgram [3, 7, 3, 7, 1105, 1, 2, 0]] {}, ⟨0, false⟩)).any
      (fun outcome => outcome.2.isOk) = true := by
    decide +kernel
  obtain ⟨⟨net, r⟩, houtcome, hok⟩ := (Option.any_eq_true ..).1 hrun
  obtain ⟨s, past, round, hwatch, hdone⟩ := Watch.run .start houtcome
  cases r with
  | error failure => cases hok
  | ok report =>
    have hacts : MonitorActs s := .inr (.inr ⟨net, report, hdone⟩)
    exact ⟨s, past, round, hwatch, hacts, (settled_of_turn hdone).2.1,
      ((idle_exact _ _ s past round hwatch).2 hacts).2⟩

end Network

end WordMachine
