import WordMachine.Proofs.Ring.Verdict

/-!
# The answer of a ring does not depend on the schedule

Moves of different amplifiers commute (`Relay.diamond`), so each move is a move towards the end, if
there is one.

* `Ring.Left` -- the number of moves that are left to the end;
* `Ring.Pending` -- the rank of a shift, which every turn makes less;
* `Ring.ends_turnToEnd`, `Ring.ends_turn` -- so the two ways to run a ring stop;
* `Ring.schedule_independent` -- the amplifiers come to the same ends, and the ring to the same answer,
  under every schedule.
-/

namespace WordMachine.Ring

variable {n : Nat} {final : Relay n}

/-! ## 1. What is left to do -/

/-- A ring whose relay has `k` moves left to its end. -/
structure Left (final : Relay n) (k : Nat) (ring : Ring) : Prop where
  sound : ring.Sound n
  moves : Schedule.Moves Relay.Step k (view n ring) final

theorem Left.step (hfinal : Schedule.Stuck Relay.Step final) {k : Nat} {ring ring' : Ring}
    (h : Left final k ring) (hs : Step ring ring') : ∃ j, j < k ∧ Left final j ring' := by
  obtain ⟨hsound, m, hm⟩ := moves_of_step h.sound hs
  obtain ⟨j, rfl, hj⟩ := h.moves.descent_moves Relay.diamond hfinal hm
  exact ⟨j, by omega, hsound, hj⟩

theorem Left.view_eq {k : Nat} {ring : Ring} (h : Left final k ring)
    (hs : Schedule.Stuck Step ring) : view n ring = final :=
  h.moves.eq_of_stuck (stuck_view h.sound hs)

/-! ## 2. Shifts -/

/-- The ways of a turn that goes on: a move, the next amplifier of the round, another round. -/
theorem turnToEnd_more {s s' : Shift} (h : turnToEnd s = .more s') :
    (s.ring.canMove s.index = true ∧ s' = ⟨s.ring.move s.index, s.index, s.left - 1, true⟩) ∨
    (s.isMove = false ∧ s.index + 1 < s.ring.size ∧
      s' = ⟨s.ring, s.index + 1, shiftLength, s.moved⟩) ∨
    (s.moved = true ∧ s' = .first s.ring) := by
  obtain ⟨ring, index, left, moved⟩ := s
  simp only [turnToEnd] at h
  split at h
  · rename_i hmove
    exact .inl ⟨(Bool.and_eq_true_iff.1 hmove).2, (Turn.more.inj h).symm⟩
  · rename_i hno
    split at h
    · rename_i hnext
      exact .inr (.inl ⟨Bool.eq_false_iff.2 hno, hnext, (Turn.more.inj h).symm⟩)
    · split at h
      · rename_i hmoved
        exact .inr (.inr ⟨hmoved, (Turn.more.inj h).symm⟩)
      · cases h

theorem turnToEnd_done {s : Shift} {ring : Ring} (h : turnToEnd s = .done ring) :
    ring = s.ring ∧ s.isMove = false ∧ s.ring.size ≤ s.index + 1 ∧ s.moved = false := by
  obtain ⟨ring', index, left, moved⟩ := s
  simp only [turnToEnd] at h
  split at h
  · cases h
  rename_i hno
  split at h
  · cases h
  rename_i hlast
  split at h
  · cases h
  rename_i hmoved
  exact ⟨(Turn.done.inj h).symm, Bool.eq_false_iff.2 hno, Nat.le_of_not_lt hlast,
    Bool.eq_false_iff.2 hmoved⟩

/-- What is left to do in a shift: moves first, then whether another round has to be made, then the
    amplifiers of this round. In a round without a move, those before have been found unable to. -/
structure Pending (final : Relay n) (rank : Nat × Nat × Nat) (s : Shift) : Prop where
  left : Left final rank.1 s.ring
  round : rank.2.1 = if s.moved then 1 else 0
  place : rank.2.2 = n - s.index
  index : s.index < n
  idle : s.moved = false → s.left = shiftLength ∧ ∀ j, j < s.index → s.ring.canMove j = false

/-- The order in which what is left to do becomes less. -/
def Less : Nat × Nat × Nat → Nat × Nat × Nat → Prop :=
  Prod.Lex (· < ·) (Prod.Lex (· < ·) (· < ·))

theorem less_wellFounded : WellFounded Less :=
  (Prod.lex Nat.lt_wfRel (Prod.lex Nat.lt_wfRel Nat.lt_wfRel)).wf

theorem pending_first {k : Nat} {ring : Ring} (h : Left final k ring) (hn : 0 < n) :
    Pending final (k, 0, n) (.first ring) where
  left := h
  round := rfl
  place := rfl
  index := hn
  idle _ := ⟨rfl, fun j hj => absurd hj (Nat.not_lt_zero j)⟩

/-- An amplifier that does not move in a round without a move cannot. -/
theorem Pending.canMove {rank : Nat × Nat × Nat} {s : Shift} (h : Pending final rank s)
    (hmoved : s.moved = false) (hno : s.isMove = false) {j : Nat} (hj : j < s.index + 1) :
    s.ring.canMove j = false := by
  obtain ⟨hleft, hbefore⟩ := h.idle hmoved
  rcases Nat.lt_succ_iff_lt_or_eq.1 hj with hlt | rfl
  · exact hbefore j hlt
  · unfold Shift.isMove at hno
    rw [hleft] at hno
    exact hno

/-- **Every turn makes what is left to do less.** -/
theorem Pending.more (hfinal : Schedule.Stuck Relay.Step final) (rank : Nat × Nat × Nat) (s s' : Shift)
    (h : Pending final rank s) (ht : turnToEnd s = .more s') :
    ∃ rank', Less rank' rank ∧ Pending final rank' s' := by
  obtain ⟨k, round, place⟩ := rank
  have hround : round = if s.moved then 1 else 0 := h.round
  have hplace : place = n - s.index := h.place
  have hindex := h.index
  rcases turnToEnd_more ht with ⟨hcan, rfl⟩ | ⟨hno, hnext, rfl⟩ | ⟨hmoved, rfl⟩
  · obtain ⟨j, hj, hleft⟩ := h.left.step hfinal (.move s.ring s.index hcan)
    exact ⟨(j, 1, n - s.index), .left _ _ hj, hleft, rfl, rfl, hindex, nofun⟩
  · have hless : n - (s.index + 1) < place := by omega
    refine ⟨(k, round, n - (s.index + 1)), .right _ (.right _ hless), h.left, hround, rfl,
      h.left.sound.size ▸ hnext, ?_⟩
    intro hmoved
    exact ⟨rfl, fun j hj => h.canMove hmoved hno hj⟩
  · rw [if_pos hmoved] at hround
    have hless : 0 < round := by omega
    exact ⟨(k, 0, n), .right _ (.left _ _ hless), pending_first h.left (Nat.zero_lt_of_lt hindex)⟩

/-- **A ring that stops is one where nothing can move.** -/
theorem Pending.done {rank : Nat × Nat × Nat} {s : Shift} {ring : Ring} (h : Pending final rank s)
    (ht : turnToEnd s = .done ring) : ring.Sound n ∧ view n ring = final := by
  obtain ⟨rfl, hno, hlast, hmoved⟩ := turnToEnd_done ht
  refine ⟨h.left.sound, h.left.view_eq ?_⟩
  intro t hs
  obtain ⟨i, hi⟩ := hs
  have hlt := index_lt_of_canMove hi
  have hcan := h.canMove hmoved hno (j := i) (by omega)
  rw [hi] at hcan
  cases hcan

/-! ## 3. Answers -/

/-- A ring whose relay comes to its end is run to that end. -/
theorem ends_turnToEnd (hfinal : Schedule.Stuck Relay.Step final) {k : Nat} {ring : Ring}
    (h : Left final k ring) (hn : 0 < n) :
    ∃ ring', Turn.Ends turnToEnd (.first ring) ring' ∧ ring'.Sound n ∧ view n ring' = final :=
  Turn.ends_of_rank less_wellFounded (Pending.more hfinal) (fun _ _ _ hP ht => hP.done ht)
    (pending_first h hn)

/-- A ring that stops at the first fault stops on its way to the end, at a fault or at the end. -/
theorem ends_turn (hfin : ∀ i, (final i).isFinished = true) {k : Nat} {ring : Ring}
    (h : Left final k ring) (hn : 0 < n) :
    ∃ ring', Turn.Ends turn (.first ring) ring' ∧ (∃ j, Left final j ring') ∧
      (ring'.firstFault?.isSome || ring'.isFinished) = true := by
  refine Turn.ends_of_rank less_wellFounded ?_ ?_ (pending_first h hn)
  · intro rank s s' hP ht
    unfold turn at ht
    split at ht
    · cases ht
    · exact hP.more (Relay.stuck_of_finished hfin) rank s s' ht
  · intro rank s ring' hP ht
    unfold turn at ht
    split at ht
    · rename_i hfault
      obtain rfl := Turn.done.inj ht
      unfold hasFaultAt at hfault
      rw [hP.left.sound.getElem? hP.index] at hfault
      refine ⟨⟨_, hP.left⟩, ?_⟩
      rw [firstFault?_isSome hP.left.sound hP.index hfault]
      rfl
    · obtain ⟨hsound, hview⟩ := hP.done ht
      have hfinished := (isFinished_iff hsound).2 (hview ▸ hfin)
      refine ⟨⟨0, hsound, hview ▸ .none _⟩, ?_⟩
      rw [hfinished]
      exact Bool.or_true _

/-- The answer of a ring that waits for every amplifier, for any patience. -/
theorem runToEnd_eq {program phases : List Word} (hp : phases ≠ []) {limit : Option Nat} {clock : Clock}
    {ring : Ring}
    (hends : Turn.Ends turnToEnd (.first (seated program limit phases)) ring)
    (hfin : ring.isFinished = true) :
    runToEnd program phases ⟨none, limit, clock⟩ =
      (Turn.run turnToEnd Turn.patience (.first (seated program limit phases))).map
        fun _ => ring.verdict := by
  have hempty : phases.isEmpty = false := List.isEmpty_eq_false_iff.2 hp
  unfold runToEnd answerToEnd?
  rw [hempty, if_neg Bool.false_ne_true]
  cases ht : Turn.run turnToEnd Turn.patience (.first (seated program limit phases)) with
  | none => simp only [Option.isSome_none, Bool.false_eq_true, if_false, Config.turns, ht, Option.map_none]
  | some ring' =>
    obtain rfl := hends.unique ⟨_, ht⟩
    simp only [Option.isSome_none, Bool.false_eq_true, if_false, Config.turns, ht, hfin, if_true,
      Option.map_some]

theorem run_eq {program phases : List Word} (hp : phases ≠ []) {limit : Option Nat} {clock : Clock}
    {ring : Ring}
    (hends : Turn.Ends turn (.first (seated program limit phases)) ring)
    (hstop : (ring.firstFault?.isSome || ring.isFinished) = true) :
    run program phases ⟨none, limit, clock⟩ =
      (Turn.run turn Turn.patience (.first (seated program limit phases))).map
        fun _ => ring.verdict := by
  have hempty : phases.isEmpty = false := List.isEmpty_eq_false_iff.2 hp
  have hrun : run program phases ⟨none, limit, clock⟩ =
      answer? ⟨none, limit, clock⟩ (Turn.run turn Turn.patience (.first (seated program limit phases))) := by
    simp only [run, hempty, Bool.false_eq_true, if_false, Config.turns]
  rw [hrun]
  cases ht : Turn.run turn Turn.patience (.first (seated program limit phases)) with
  | none => rfl
  | some ring' =>
    obtain rfl := hends.unique ⟨_, ht⟩
    exact if_pos hstop

/-! ## 4. Every schedule -/

theorem orderly_start (program : List Word) (limit : Option Nat) (phases : List Word) :
    (Relay.start program limit phases).Orderly := nofun

theorem ready_start (program : List Word) (limit : Option Nat) (phases : List Word)
    (i : Fin phases.length) : (Relay.start program limit phases i).machine.Ready := nofun

/-- **The ring does not depend on the schedule.** If some schedule brings every amplifier to its end,
    every schedule brings them to the same ends: of the small moves of the relay and of the moves of
    the ring. On the way no answer to an amplifier that waits is refused. The amplifiers give one
    answer, which is what `runToEnd` gives by any clock unless it runs out of turns; and if at most one of
    them is at fault, it is all that can be reported when a fault ends the run, and what `run` gives. -/
theorem schedule_independent (program phases : List Word) (limit : Option Nat) (clock : Clock)
    (hp : phases ≠ []) (final : Relay phases.length) (k : Nat)
    (hk : Schedule.Moves Relay.Step k (Relay.start program limit phases) final)
    (hend : ∀ i, (final i).machine.hasEnded = true) :
    Schedule.Arrives Relay.Step (Relay.start program limit phases) (· = final) ∧
    Schedule.Arrives Step (seated program limit phases)
      (fun ring => ring.isFinished = true ∧ view phases.length ring = final) ∧
    (∀ j r i, Schedule.Moves Relay.Step j (Relay.start program limit phases) r →
      (r i).machine.fault = none → (r i).isWaiting = true →
      ∀ answer, ((r i).machine.supply answer).2 = .ok ()) ∧
    ∃ answer, (∀ a, final.Answers a ↔ a = answer) ∧
      (∃ ring, Turn.Ends turnToEnd (.first (seated program limit phases)) ring ∧
        view phases.length ring = final) ∧
      runToEnd program phases ⟨none, limit, clock⟩ =
        (Turn.run turnToEnd Turn.patience (.first (seated program limit phases))).map
          (fun _ => answer) ∧
      (final.FaultAtMostOnce →
        (∀ j r a, Schedule.Moves Relay.Step j (Relay.start program limit phases) r →
          r.Reports a → a = answer) ∧
        (∃ ring, Turn.Ends turn (.first (seated program limit phases)) ring) ∧
        run program phases ⟨none, limit, clock⟩ =
          (Turn.run turn Turn.patience (.first (seated program limit phases))).map
            (fun _ => answer)) := by
  have hn : 0 < phases.length := List.length_pos_iff.2 hp
  have horderly := hk.invariant (orderly_start program limit phases) fun _ _ hr ht => hr.step ht
  have hfin := horderly.finished hend
  have hfinal := Relay.stuck_of_finished hfin
  have hleft : Left final k (seated program limit phases) :=
    ⟨sound_seated program limit phases, (view_seated program limit phases).symm ▸ hk⟩
  obtain ⟨ring, hends, hsound, hview⟩ := ends_turnToEnd hfinal hleft hn
  have hring := (isFinished_iff hsound).2 (hview ▸ hfin)
  have hanswer : final.Answers ring.verdict := hview ▸ verdict_answers hsound hn
  refine ⟨?_, ?_, ?_, ring.verdict, fun a => ⟨fun ha => ha.unique hanswer, fun ha => ha ▸ hanswer⟩,
    ⟨ring, hends, hview⟩, runToEnd_eq hp hends hring, ?_⟩
  · refine Schedule.arrives_of_less (P := fun k r => Schedule.Moves Relay.Step k r final) hk ?_
      fun _ _ h hs => h.eq_of_stuck hs
    intro k r t h ht
    obtain ⟨j, rfl, hj⟩ := h.descent Relay.diamond hfinal ht
    exact ⟨j, Nat.lt_succ_self j, hj⟩
  · refine Schedule.arrives_of_less hleft (fun _ _ _ h hs => h.step hfinal hs) ?_
    intro k ring h hs
    exact ⟨(isFinished_iff h.sound).2 (h.view_eq hs ▸ hfin), h.view_eq hs⟩
  · intro j r i hr hf hw answer
    have hready := hr.invariant (ready_start program limit phases) fun _ _ h ht => Relay.ready_step h ht
    have hs : (r i).machine.status = .awaitingInput := (of_decide_eq_true hw).1
    exact (hready i).supply_ok hf hs answer
  · intro hone
    obtain ⟨ring', hends', ⟨j', hleft'⟩, hstop⟩ := ends_turn hfin hleft hn
    have hsame : ring'.verdict = ring.verdict :=
      (Relay.Reports.answers hleft'.moves hone (verdict_reports hleft'.sound hn hstop)).unique hanswer
    refine ⟨?_, ⟨ring', hends'⟩, hsame ▸ run_eq hp hends' hstop⟩
    intro j r a hr ha
    obtain ⟨j', -, hj'⟩ := hk.descent_moves Relay.diamond hfinal hr
    exact (ha.answers hj' hone).unique hanswer

/-- A ring that is run to its end shows a schedule that gets there. -/
theorem moves_of_turnToEnd {r : Relay n} {fuel : Nat} {s : Shift} {ring : Ring}
    (h : Turn.run turnToEnd fuel s = some ring) (hsound : s.ring.Sound n) {k : Nat}
    (hk : Schedule.Moves Relay.Step k r (view n s.ring)) :
    ring.Sound n ∧ ∃ k, Schedule.Moves Relay.Step k r (view n ring) := by
  induction fuel generalizing s k with
  | zero => cases h
  | succ fuel ih =>
    rw [Turn.run_succ] at h
    cases ht : turnToEnd s with
    | done ring' =>
      rw [ht] at h
      obtain rfl := Option.some.inj h
      obtain ⟨rfl, -⟩ := turnToEnd_done ht
      exact ⟨hsound, k, hk⟩
    | more s' =>
      rw [ht] at h
      rcases turnToEnd_more ht with ⟨hcan, rfl⟩ | ⟨-, -, rfl⟩ | ⟨-, rfl⟩
      · obtain ⟨hsound', j, hj⟩ := moves_of_step hsound (.move s.ring s.index hcan)
        exact ih h hsound' (hk.trans hj)
      · exact ih h hsound hk
      · exact ih h hsound hk

/-- Two amplifiers read their phase settings and pass a signal on. The second waits for it, and finds
    the first one gone when it puts it out. -/
theorem schedule_independent_signal_passed_on :
    ∃ final : Relay [5, 6].length, (∀ i, (final i).machine.hasEnded = true) ∧
      Schedule.Arrives Relay.Step (Relay.start [3, 0, 3, 0, 4, 0, 99] none [5, 6]) (· = final) ∧
      final.Answers (.ok 0) := by
  have hrun : (Turn.run turnToEnd 16 (.first (seated [3, 0, 3, 0, 4, 0, 99] none [5, 6]))).any
      (fun ring => ring.isFinished && decide (ring.verdict.toOption = some 0)) = true := by
    decide +kernel
  obtain ⟨ring, hring, hends⟩ := (Option.any_eq_true ..).1 hrun
  obtain ⟨hfin, hverdict⟩ := Bool.and_eq_true_iff.1 hends
  have hstart := view_seated [3, 0, 3, 0, 4, 0, 99] none [5, 6]
  obtain ⟨hsound, k, hk⟩ := moves_of_turnToEnd hring (sound_seated ..) (.none _)
  have hk : Schedule.Moves Relay.Step k (Relay.start [3, 0, 3, 0, 4, 0, 99] none [5, 6])
    (view [5, 6].length ring) := hstart ▸ hk
  have hend : ∀ i, (view [5, 6].length ring i).machine.hasEnded = true := fun i =>
    (Bool.and_eq_true_iff.1 ((isFinished_iff hsound).1 hfin i)).1
  have hall := schedule_independent [3, 0, 3, 0, 4, 0, 99] [5, 6] none .steady (by decide) _ k hk hend
  have hanswer := verdict_answers hsound (by decide)
  have hvalue := of_decide_eq_true hverdict
  cases hv : ring.verdict with
  | error e =>
    rw [hv] at hvalue
    cases hvalue
  | ok w =>
    rw [hv] at hvalue hanswer
    obtain rfl : w = 0 := Option.some.inj hvalue
    exact ⟨_, hend, hall.1, hanswer⟩

end WordMachine.Ring
