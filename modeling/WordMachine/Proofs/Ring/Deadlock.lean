import WordMachine.Proofs.Ring.Determinacy

/-!
# Amplifiers wait for each other all together or not at all

An amplifier that waits can be left without a value for ever, but only if the one that it reads from
has not finished. So if nothing can move, an amplifier that has finished has all others with it, and if
none has finished, all of them wait.

* `Relay.forall_of_next` -- what each amplifier passes on to the next one goes round the whole ring;
* `Blocked` -- a machine that waits for a value which is not there;
* `Relay.stuck_cases`, `Ring.stuck_cases` -- where nothing can move, every amplifier has come to its end
  or every amplifier is blocked;
* `Ring.deadlock_all_or_nothing` -- for every state that a schedule leads to.
-/

namespace WordMachine

/-- **A machine is blocked**: it has not come to its end, it waits for a value, and neither its backlog
    nor the link to it has one. -/
structure Blocked (m : Machine) (link : List Word) : Prop where
  unended : m.hasEnded = false
  awaiting : m.status = .awaitingInput
  backlog : m.backlog = []
  link : link = []

namespace Relay

variable {n : Nat} {r t : Relay n}

/-! ## 1. Round the ring -/

/-- The amplifier that comes `k` places after the one at `i`. -/
def ahead (i : Fin n) (k : Nat) : Fin n := ⟨(i + k) % n, Nat.mod_lt _ i.pos⟩

theorem next_ahead (i : Fin n) (k : Nat) : next (ahead i k) = ahead i (k + 1) := by
  apply Fin.ext
  exact Nat.mod_add_mod (i + k) n 1

theorem ahead_zero (i : Fin n) : ahead i 0 = i := by
  apply Fin.ext
  exact Nat.mod_eq_of_lt i.isLt

theorem exists_ahead (i j : Fin n) : ∃ k, ahead i k = j := by
  have hi := i.isLt
  have hj := j.isLt
  refine ⟨j + n - i, Fin.ext ?_⟩
  show (i.val + (j.val + n - i.val)) % n = j.val
  have hsum : i.val + (j.val + n - i.val) = j.val + n := by omega
  rw [hsum, Nat.add_mod_right]
  exact Nat.mod_eq_of_lt hj

/-- **What passes from each amplifier to the next one passes round the whole ring.** -/
theorem forall_of_next {P : Fin n → Prop} (hnext : ∀ i, P i → P (next i)) {i : Fin n} (hi : P i)
    (j : Fin n) : P j := by
  have hahead : ∀ k, P (ahead i k) := by
    intro k
    induction k with
    | zero =>
      rw [ahead_zero]
      exact hi
    | succ k ih =>
      rw [← next_ahead]
      exact hnext _ ih
  obtain ⟨k, hk⟩ := exists_ahead i j
  exact hk ▸ hahead k

/-! ## 2. Where nothing can move -/

/-- An amplifier that reads from one that has finished can move until it has finished, too. -/
theorem isFinished_next (hs : Schedule.Stuck Step r) {i : Fin n} (hi : (r i).isFinished = true) :
    (r (next i)).isFinished = true := by
  cases hf : (r (next i)).isFinished with
  | true => rfl
  | false =>
    have hcan : r.CanMove (next i) := .inr ⟨hf, .inr (.inr ⟨i, rfl, hi⟩)⟩
    exact absurd (.move r _ hcan) (hs _)

/-- An amplifier that cannot move has nothing left to send. -/
theorem outbox_of_stuck (hs : Schedule.Stuck Step r) (i : Fin n) : (r i).outbox = none := by
  cases ho : (r i).outbox with
  | none => rfl
  | some w =>
    have hcan : r.CanMove i := .inl (ho ▸ rfl)
    exact absurd (.move r i hcan) (hs _)

theorem isFinished_of_stuck (hs : Schedule.Stuck Step r) (i : Fin n) :
    (r i).isFinished = (r i).machine.hasEnded := by
  unfold Station.isFinished
  rw [outbox_of_stuck hs i]
  exact Bool.and_true _

/-- An amplifier that cannot move and has not finished is blocked. -/
theorem blocked_of_stuck (hs : Schedule.Stuck Step r) {i : Fin n} (hi : (r i).isFinished = false) :
    Blocked (r i).machine (r i).inbound := by
  have hno : ¬ r.CanMove i := fun hcan => hs _ (.move r i hcan)
  have hunended : (r i).machine.hasEnded = false := (isFinished_of_stuck hs i).symm.trans hi
  have hwaiting : (r i).isWaiting = true := by
    cases hw : (r i).isWaiting with
    | true => rfl
    | false => exact absurd (.inr ⟨hi, .inl hw⟩) hno
  have hlink : (r i).inbound = [] := by
    cases hl : (r i).inbound with
    | nil => rfl
    | cons w rest => exact absurd (.inr ⟨hi, .inr (.inl (hl ▸ nofun))⟩) hno
  obtain ⟨hawaiting, hbacklog⟩ := of_decide_eq_true hwaiting
  exact ⟨hunended, hawaiting, hbacklog, hlink⟩

/-- **Where nothing can move**, every amplifier has come to its end, or every one is blocked. -/
theorem stuck_cases (hs : Schedule.Stuck Step r) :
    (∀ i, (r i).machine.hasEnded = true) ∨ ∀ i, Blocked (r i).machine (r i).inbound := by
  by_cases hany : ∃ i, (r i).isFinished = true
  · obtain ⟨i, hi⟩ := hany
    have hall := forall_of_next (P := fun j => (r j).isFinished = true)
      (fun _ hj => isFinished_next hs hj) hi
    exact .inl fun j => (isFinished_of_stuck hs j).symm.trans (hall j)
  · refine .inr fun i => blocked_of_stuck hs ?_
    exact Bool.eq_false_iff.2 fun hi => hany ⟨i, hi⟩

/-- **One amplifier that has come to its end takes all others with it.** -/
theorem ended_of_stuck {k : Nat} (ht : Schedule.Moves Step k r t) (hs : Schedule.Stuck Step t)
    {i : Fin n} (hi : (r i).machine.hasEnded = true) (j : Fin n) : (t j).machine.hasEnded = true := by
  have hti : (t i).machine.hasEnded = true := by
    rw [machine_of_ended_of_moves ht hi]
    exact hi
  rcases stuck_cases hs with hended | hblocked
  · exact hended j
  · have hno := (hblocked i).unended
    rw [hti] at hno
    cases hno

end Relay

/-! ## 3. Rings -/

namespace Ring

variable {n : Nat} {ring ring' : Ring}

theorem stuck_of_canMove (h : ∀ i, ring.canMove i = false) : Schedule.Stuck Step ring := by
  intro t ht
  obtain ⟨i, hi⟩ := ht
  rw [h i] at hi
  cases hi

/-- A schedule of the ring is one of its relay. -/
theorem moves_of_reachable (hsound : ring.Sound n) (h : Reachable ring ring') :
    ring'.Sound n ∧ ∃ k, Schedule.Moves Relay.Step k (view n ring) (view n ring') := by
  induction h with
  | start => exact ⟨hsound, 0, .none _⟩
  | step a b _ hab ih =>
    obtain ⟨ha, k, hk⟩ := ih
    obtain ⟨hb, j, hj⟩ := moves_of_step ha hab
    exact ⟨hb, k + (j + 1), hk.trans hj⟩

theorem exists_index_of_mem (hsound : ring.Sound n) {s : Seat} (hs : s ∈ ring) :
    ∃ i : Fin n, ring.seatAt i = s := by
  obtain ⟨i, hi, rfl⟩ := Array.getElem_of_mem hs
  refine ⟨⟨i, hsound.size ▸ hi⟩, ?_⟩
  unfold seatAt
  rw [Array.getElem?_eq_getElem hi]
  rfl

theorem forall_mem_iff (hsound : ring.Sound n) (P : Seat → Prop) :
    (∀ s ∈ ring, P s) ↔ ∀ i : Fin n, P (ring.seatAt i) := by
  constructor
  · intro h i
    exact h _ (Array.mem_of_getElem? (hsound.getElem? i.isLt))
  · intro h s hs
    obtain ⟨i, rfl⟩ := exists_index_of_mem hsound hs
    exact h i

theorem blocked_ofSeat {s : Seat} (h : Blocked (Station.ofSeat s).machine (Station.ofSeat s).inbound) :
    Blocked s.machine s.inbound.toList := by
  have hunended : s.machine.hasEnded = false := s.ofSeat_machine ▸ h.unended
  have hs := Seat.ofSeat_of_not_finished hunended
  rw [hs] at h
  exact h

/-- **Where nothing can move in a ring**, every amplifier has come to its end, or every one is
    blocked. -/
theorem stuck_cases (hsound : ring.Sound n) (h : ∀ i, ring.canMove i = false) :
    (∀ s ∈ ring, s.machine.hasEnded = true) ∨ ∀ s ∈ ring, Blocked s.machine s.inbound.toList := by
  have hview := stuck_view hsound (stuck_of_canMove h)
  rw [forall_mem_iff hsound, forall_mem_iff hsound]
  rcases Relay.stuck_cases hview with hended | hblocked
  · refine .inl fun i => ?_
    have hi := hended i
    rw [show (view n ring i).machine = (ring.seatAt i).machine from Seat.ofSeat_machine _] at hi
    exact hi
  · exact .inr fun i => blocked_ofSeat (hblocked i)

/-- **The amplifiers of a ring are blocked all together or not at all.** In every state that a schedule
    leads to, of the small moves of the relay and of the moves of the ring: if nothing can move, every
    amplifier has come to its end, or every one waits for a value that is not there. And once one has
    come to its end, nothing comes to a standstill before all have. No answer to an amplifier that waits
    is refused, so there is no other end than to halt or to be at fault. -/
theorem deadlock_all_or_nothing (program phases : List Word) (limit : Option Nat) :
    (∀ k r, Schedule.Moves Relay.Step k (Relay.start program limit phases) r →
      (Schedule.Stuck Relay.Step r →
        (∀ i, (r i).machine.hasEnded = true) ∨
          ∀ i, Blocked (r i).machine (r i).inbound ∧ (r i).outbox = none) ∧
      (∀ i, (r i).machine.hasEnded = true → ∀ j t, Schedule.Moves Relay.Step j r t →
        Schedule.Stuck Relay.Step t → ∀ i, (t i).machine.hasEnded = true) ∧
      ∀ i answer, (r i).machine.fault = none → (r i).isWaiting = true →
        ((r i).machine.supply answer).2 = .ok ()) ∧
    ∀ ring, Reachable (seated program limit phases) ring →
      ((∀ i, ring.canMove i = false) →
        (∀ s ∈ ring, s.machine.hasEnded = true) ∨ ∀ s ∈ ring, Blocked s.machine s.inbound.toList) ∧
      ∀ s ∈ ring, s.machine.hasEnded = true → ∀ ring', Reachable ring ring' →
        (∀ i, ring'.canMove i = false) → ∀ s ∈ ring', s.machine.hasEnded = true := by
  refine ⟨fun k r hr => ⟨fun hs => ?_, fun i hi j t ht hs => Relay.ended_of_stuck ht hs hi, ?_⟩,
    fun ring hring => ?_⟩
  · rcases Relay.stuck_cases hs with hended | hblocked
    · exact .inl hended
    · exact .inr fun i => ⟨hblocked i, Relay.outbox_of_stuck hs i⟩
  · intro i answer hf hw
    have hready := hr.invariant (ready_start program limit phases) fun _ _ h ht => Relay.ready_step h ht
    have hs : (r i).machine.status = .awaitingInput := (of_decide_eq_true hw).1
    exact (hready i).supply_ok hf hs answer
  · obtain ⟨hsound, -⟩ := moves_of_reachable (sound_seated program limit phases) hring
    refine ⟨stuck_cases hsound, fun s hs hend ring' hring' hno => ?_⟩
    obtain ⟨hsound', k, hk⟩ := moves_of_reachable hsound hring'
    obtain ⟨i, rfl⟩ := exists_index_of_mem hsound hs
    have hi : (view phases.length ring i).machine.hasEnded = true :=
      (congrArg _ (Seat.ofSeat_machine _)).trans hend
    have hall := Relay.ended_of_stuck hk (stuck_view hsound' (stuck_of_canMove hno)) hi
    rw [forall_mem_iff hsound']
    exact fun j => (congrArg _ (Seat.ofSeat_machine _)).symm.trans (hall j)

/-- Two amplifiers read their settings and one value more than there is. After five moves both wait for
    the other one. -/
theorem deadlock_all_or_nothing_both_wait :
    ∃ ring, Reachable (seated [3, 0, 3, 0, 3, 0, 99] none [5, 6]) ring ∧
      (∀ i, ring.canMove i = false) ∧ ring.size = 2 ∧
      ∀ s ∈ ring, Blocked s.machine s.inbound.toList := by
  have hreach : Reachable (seated [3, 0, 3, 0, 3, 0, 99] none [5, 6])
      ([0, 0, 0, 1, 1].foldl move (seated [3, 0, 3, 0, 3, 0, 99] none [5, 6])) :=
    .step _ _ (.step _ _ (.step _ _ (.step _ _ (.step _ _ .start
      (.move _ 0 (by decide +kernel))) (.move _ 0 (by decide +kernel)))
      (.move _ 0 (by decide +kernel))) (.move _ 1 (by decide +kernel))) (.move _ 1 (by decide +kernel))
  generalize hring : [0, 0, 0, 1, 1].foldl move (seated [3, 0, 3, 0, 3, 0, 99] none [5, 6]) = ring
    at hreach
  have hsize : ring.size = 2 := by
    rw [← hring]
    decide +kernel
  have hno : ∀ i, ring.canMove i = false := by
    intro i
    match i with
    | 0 | 1 =>
      rw [← hring]
      decide +kernel
    | i + 2 =>
      have hnone : ring[i + 2]? = none := Array.getElem?_eq_none (by omega)
      unfold canMove
      rw [hnone]
  have hunended : ring.any (fun s => !s.machine.hasEnded) = true := by
    rw [← hring]
    decide +kernel
  refine ⟨ring, hreach, hno, hsize, ?_⟩
  rcases ((deadlock_all_or_nothing [3, 0, 3, 0, 3, 0, 99] [5, 6] none).2 ring hreach).1 hno with
    hended | hblocked
  · obtain ⟨i, hi, hs⟩ := Array.any_eq_true.1 hunended
    rw [hended _ (Array.getElem_mem hi)] at hs
    cases hs
  · exact hblocked

end Ring

end WordMachine
