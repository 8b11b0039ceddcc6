import WordMachine.Proofs.Ring.Simulation

/-!
# What is told of a ring

* `Relay.Answers` -- the answer of amplifiers that have come to their ends: the fault of the lowest
  index, or else the last value of the last amplifier;
* `Ring.verdict_answers` -- the verdict of a ring is that answer, and there is no other
  (`Relay.Answers.unique`);
* `Relay.Reports` -- what may be told when the first fault that is noticed ends the run. Which one is
  noticed first is up to the schedule;
* `Relay.Reports.answers` -- with at most one fault in the end, that is the answer all the same.
-/

namespace WordMachine

namespace Relay

variable {n : Nat}

/-- **The answer of a relay** whose amplifiers have come to their ends. -/
inductive Answers (r : Relay n) : Except Failure Word → Prop where
  /-- Of several faults the one of the lowest index. -/
  | fault (i : Fin n) (e : Fault) (h : (r i).machine.fault = some e)
      (lowest : ∀ j, j < i → (r j).machine.fault = none) : Answers r (.error (.node i e))
  /-- The last value of the last amplifier. -/
  | value (h : ∀ j, (r j).machine.fault = none) (i : Fin n) (last : i.val + 1 = n) (w : Word)
      (hw : (r i).machine.output.toList.getLast? = some w) : Answers r (.ok w)
  /-- The last amplifier has put out nothing. -/
  | silent (h : ∀ j, (r j).machine.fault = none) (i : Fin n) (last : i.val + 1 = n)
      (hw : (r i).machine.output.toList.getLast? = none) : Answers r (.error (.noOutput i))

/-- **What may be reported** by a run that a fault ends: the fault of any amplifier, or the answer
    once every amplifier has finished without one. -/
inductive Reports (r : Relay n) : Except Failure Word → Prop where
  | fault (i : Fin n) (e : Fault) (h : (r i).machine.fault = some e) : Reports r (.error (.node i e))
  | answer (a : Except Failure Word) (hf : ∀ i, (r i).isFinished = true)
      (h : ∀ i, (r i).machine.fault = none) (ha : Answers r a) : Reports r a

/-- At most one amplifier is at fault. -/
def FaultAtMostOnce (r : Relay n) : Prop :=
  ∀ i j, (r i).machine.fault.isSome = true → (r j).machine.fault.isSome = true → i = j

theorem Answers.unique {r : Relay n} {a b : Except Failure Word} (ha : Answers r a) (hb : Answers r b) :
    a = b := by
  have hlast : ∀ {i j : Fin n}, i.val + 1 = n → j.val + 1 = n → i = j := by
    intro i j hi hj
    exact Fin.ext (by omega)
  cases ha with
  | fault i e h lowest =>
    cases hb with
    | fault j e' h' lowest' =>
      have hij : i = j := by
        rcases Nat.lt_trichotomy i j with hlt | heq | hgt
        · rw [lowest' i hlt] at h
          cases h
        · exact Fin.ext heq
        · rw [lowest j hgt] at h'
          cases h'
      subst hij
      rw [h] at h'
      rw [Option.some.inj h']
    | value h' =>
      rw [h' i] at h
      cases h
    | silent h' =>
      rw [h' i] at h
      cases h
  | value h i last w hw =>
    cases hb with
    | fault j e h' =>
      rw [h j] at h'
      cases h'
    | value _ j last' w' hw' =>
      rw [hlast last' last, hw] at hw'
      rw [Option.some.inj hw']
    | silent _ j last' hw' =>
      rw [hlast last' last, hw] at hw'
      cases hw'
  | silent h i last hw =>
    cases hb with
    | fault j e h' =>
      rw [h j] at h'
      cases h'
    | value _ j last' w' hw' =>
      rw [hlast last' last, hw] at hw'
      cases hw'
    | silent _ j last' => rw [hlast last' last]

/-- A fault at one moment is a fault in the end. -/
theorem fault_of_moves {k : Nat} {r t : Relay n} (ht : Schedule.Moves Step k r t) {i : Fin n} {e : Fault}
    (h : (r i).machine.fault = some e) : (t i).machine.fault = some e := by
  have hended : (r i).machine.hasEnded = true := by
    unfold Machine.hasEnded
    rw [h]
    exact Bool.or_true _
  rw [machine_of_ended_of_moves ht hended, h]

/-- **With at most one fault in the end, every report on the way is the answer.** -/
theorem Reports.answers {k : Nat} {r t : Relay n} (ht : Schedule.Moves Step k r t)
    (hone : FaultAtMostOnce t) {a : Except Failure Word} (ha : Reports r a) : Answers t a := by
  cases ha with
  | answer a hf h ha =>
    rw [← ht.eq_of_stuck (stuck_of_finished hf)]
    exact ha
  | fault i e h =>
    have hi := fault_of_moves ht h
    refine .fault i e hi fun j hj => ?_
    cases hj' : (t j).machine.fault with
    | none => rfl
    | some e' =>
      have hji : j = i := hone j i (hj' ▸ rfl) (hi ▸ rfl)
      exact absurd hji (Fin.ne_of_lt hj)

end Relay

namespace Ring

variable {n : Nat}

/-! ## 2. The verdict -/

theorem getElem?_zipIdx {ring : Ring} (h : ring.Sound n) {j : Nat} (hj : j < n) :
    ring.toList.zipIdx[j]? = some (ring.seatAt j, j) := by
  rw [List.getElem?_zipIdx, Array.getElem?_toList, h.getElem? hj, Option.map_some, Nat.zero_add]

theorem firstFault?_eq_some {ring : Ring} (h : ring.Sound n) {i : Nat} {e : Fault}
    (hi : ring.firstFault? = some (i, e)) :
    i < n ∧ (ring.seatAt i).machine.fault = some e ∧
      ∀ j, j < i → (ring.seatAt j).machine.fault = none := by
  obtain ⟨before, ⟨s, p⟩, rest, hl, hs, hnone⟩ := List.findSome?_eq_some_iff.1 hi
  have hlen : n = before.length + (rest.length + 1) := by
    have := congrArg List.length hl
    rw [List.length_zipIdx, Array.length_toList, h.size, List.length_append, List.length_cons] at this
    exact this
  have hat := getElem?_zipIdx h (j := before.length) (by omega)
  rw [hl, List.getElem?_append_right (Nat.le_refl _), Nat.sub_self, List.getElem?_cons_zero] at hat
  obtain ⟨rfl, rfl⟩ := Prod.mk.inj (Option.some.inj hat)
  obtain ⟨e', he', hie⟩ := Option.map_eq_some_iff.1 hs
  obtain ⟨rfl, rfl⟩ := Prod.mk.inj hie
  refine ⟨by omega, he', fun j hj => ?_⟩
  have hjat := getElem?_zipIdx h (j := j) (by omega)
  rw [hl, List.getElem?_append_left hj] at hjat
  exact Option.map_eq_none_iff.1 (hnone _ (List.mem_of_getElem? hjat))

theorem firstFault?_eq_none {ring : Ring} (h : ring.Sound n) (hi : ring.firstFault? = none) {j : Nat}
    (hj : j < n) : (ring.seatAt j).machine.fault = none := by
  have hnone := List.findSome?_eq_none_iff.1 hi _ (List.mem_of_getElem? (getElem?_zipIdx h hj))
  exact Option.map_eq_none_iff.1 hnone

/-- **The verdict of a ring is its answer.** -/
theorem verdict_answers {ring : Ring} (h : ring.Sound n) (hn : 0 < n) :
    (view n ring).Answers ring.verdict := by
  unfold verdict
  cases hf : ring.firstFault? with
  | some p =>
    obtain ⟨i, e⟩ := p
    obtain ⟨hi, he, hlow⟩ := firstFault?_eq_some h hf
    refine Relay.Answers.fault ⟨i, hi⟩ e ((congrArg _ (Seat.ofSeat_machine _)).trans he) fun j hj => ?_
    exact (congrArg _ (Seat.ofSeat_machine _)).trans (hlow j hj)
  | none =>
    have hnone : ∀ j, (view n ring j).machine.fault = none := fun j =>
      (congrArg _ (Seat.ofSeat_machine _)).trans (firstFault?_eq_none h hf j.isLt)
    have hlast : n - 1 < n := by omega
    have hback : ring.back? = some (ring.seatAt (n - 1)) := by
      rw [Array.back?_eq_getElem?, h.size, h.getElem? hlast]
    have hmachine : (view n ring ⟨n - 1, hlast⟩).machine = (ring.seatAt (n - 1)).machine :=
      Seat.ofSeat_machine _
    have hout : (view n ring ⟨n - 1, hlast⟩).machine.output.toList.getLast? =
        (ring.seatAt (n - 1)).machine.output.back? := by
      rw [hmachine, Array.getLast?_toList]
    have hsucc : n - 1 + 1 = n := by omega
    rw [hback, h.size]
    simp only [Option.bind_some]
    cases hw : (ring.seatAt (n - 1)).machine.output.back? with
    | some w => exact .value hnone ⟨n - 1, hlast⟩ hsucc w (hout.trans hw)
    | none => exact .silent hnone ⟨n - 1, hlast⟩ hsucc (hout.trans hw)

theorem isFinished_iff {ring : Ring} (h : ring.Sound n) :
    ring.isFinished = true ↔ ∀ i, (view n ring i).isFinished = true := by
  have hat : ∀ i : Fin n, (view n ring i).isFinished = (ring.seatAt i).isFinished := fun i =>
    Seat.isFinished_ofSeat _
  unfold isFinished
  rw [Array.all_eq_true]
  constructor
  · intro hall i
    have hlt : i.val < ring.size := h.size.symm ▸ i.isLt
    have hi := hall i hlt
    rw [hat i]
    unfold seatAt
    rw [Array.getElem?_eq_getElem hlt]
    exact hi
  · intro hall i hi
    have hfin := hall ⟨i, h.size ▸ hi⟩
    rw [hat] at hfin
    unfold seatAt at hfin
    rw [Array.getElem?_eq_getElem hi] at hfin
    exact hfin

theorem firstFault?_isSome {ring : Ring} (h : ring.Sound n) {i : Nat} (hi : i < n)
    (hf : (ring.seatAt i).machine.fault.isSome = true) : ring.firstFault?.isSome = true := by
  cases hfirst : ring.firstFault? with
  | some p => rfl
  | none =>
    rw [firstFault?_eq_none h hfirst hi] at hf
    cases hf

/-- **The verdict of a ring that stops may be reported.** -/
theorem verdict_reports {ring : Ring} (h : ring.Sound n) (hn : 0 < n)
    (hstop : (ring.firstFault?.isSome || ring.isFinished) = true) :
    (view n ring).Reports ring.verdict := by
  have hverdict := verdict_answers h hn
  have hfinished : (∀ j, (view n ring j).machine.fault = none) →
      ∀ i, (view n ring i).isFinished = true := by
    intro hnone
    rw [← isFinished_iff h]
    cases hf : ring.firstFault? with
    | none =>
      rw [hf] at hstop
      exact hstop
    | some p =>
      obtain ⟨i, e⟩ := p
      obtain ⟨hi, he, -⟩ := firstFault?_eq_some h hf
      have hi' := hnone ⟨i, hi⟩
      rw [show (view n ring ⟨i, hi⟩).machine = (ring.seatAt i).machine from Seat.ofSeat_machine _,
        he] at hi'
      cases hi'
  generalize ring.verdict = a at hverdict
  cases hverdict with
  | fault i e he => exact .fault i e he
  | value hnone i last w hw => exact .answer _ (hfinished hnone) hnone (.value hnone i last w hw)
  | silent hnone i last hw => exact .answer _ (hfinished hnone) hnone (.silent hnone i last hw)

end Ring

end WordMachine
