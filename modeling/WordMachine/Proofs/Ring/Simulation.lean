import WordMachine.Proofs.Ring.Relay

/-!
# A ring makes the moves of its relay

Between two moves of a ring every value that was put out has been sent, so a ring is a relay with
nothing left to send (`Ring.view`). A move of the ring is one move of that relay, or two if a value is
put out:

* `Ring.Sound` -- the queues of a ring have not been read beyond their ends;
* `Ring.canMove_iff` -- an amplifier can move in a ring if and only if it can in its relay;
* `Ring.view_move`, `Ring.moves_of_step` -- the moves of a ring are moves of its relay;
* `Ring.stuck_view` -- a ring where nothing can move is a relay where nothing can move.
-/

namespace WordMachine

/-! ## 1. Seats and stations -/

/-- An amplifier in its seat, with nothing left to send. -/
def Station.ofSeat (s : Seat) : Station := settle ⟨s.machine, s.inbound.toList, none⟩

namespace Seat

@[simp] theorem ofSeat_machine (s : Seat) : (Station.ofSeat s).machine = s.machine :=
  Station.settle_machine _

@[simp] theorem ofSeat_outbox (s : Seat) : (Station.ofSeat s).outbox = none :=
  Station.settle_outbox _

@[simp] theorem isFinished_ofSeat (s : Seat) : (Station.ofSeat s).isFinished = s.isFinished := by
  unfold Station.isFinished Machine.hasEnded
  rw [ofSeat_machine, ofSeat_outbox]
  exact Bool.and_true _

@[simp] theorem isWaiting_ofSeat (s : Seat) : (Station.ofSeat s).isWaiting = s.isWaiting := by
  unfold Station.isWaiting
  rw [ofSeat_machine]
  rfl

theorem ofSeat_of_not_finished {s : Seat} (h : s.isFinished = false) :
    Station.ofSeat s = ⟨s.machine, s.inbound.toList, none⟩ := by
  refine if_neg fun hf => ?_
  have hs : (s.isFinished && true) = true := hf
  rw [h] at hs
  cases hs

theorem ofSeat_send {s : Seat} (hs : s.inbound.Sound) (w : Word) :
    Station.ofSeat (s.send w) = (Station.ofSeat s).accept w := by
  unfold send
  cases hf : s.isFinished with
  | true =>
    rw [if_pos rfl]
    exact (Station.deliver_of_finished (s.isFinished_ofSeat.trans hf) (some w)).symm
  | false =>
    rw [if_neg Bool.false_ne_true]
    unfold Station.ofSeat
    rw [Station.accept_settle, Fifo.toList_push _ _ hs]

/-- What receiving does to a seat is what it does to the station. -/
theorem act_ofSeat_of_waiting {s : Seat} (hf : s.isFinished = false) (hw : s.isWaiting = true) :
    (Station.ofSeat s).act = Station.ofSeat s.receive := by
  rw [ofSeat_of_not_finished hf]
  cases hnext : s.inbound.next? with
  | none =>
    have hl := s.inbound.next?_eq_none_iff.1 hnext
    have hr : s.receive = { s with machine := (s.machine.supply .terminate).1 } := by
      simp only [receive, hnext]
    rw [hl, Station.act_of_terminate hw, hr]
    unfold Station.ofSeat
    rw [hl]
  | some w =>
    have hr : s.receive = ⟨(s.machine.supply (.value w)).1, s.inbound.tail⟩ := by
      simp only [receive, hnext]
    rw [Fifo.toList_of_next? hnext, Station.act_of_receive hw, hr]
    rfl

theorem act_ofSeat_of_not_waiting {s : Seat} (hf : s.isFinished = false) (hw : s.isWaiting = false) :
    (Station.ofSeat s).act = Station.settle
      ⟨s.machine.step.1, s.inbound.toList, Machine.Step.word? s.machine.step.2⟩ := by
  rw [ofSeat_of_not_finished hf]
  exact Station.act_of_execute hw

theorem execute_eq (s : Seat) :
    s.execute = (⟨s.machine.step.1, s.inbound⟩, Machine.Step.word? s.machine.step.2) := by
  obtain ⟨m, inbound⟩ := s
  simp only [execute]
  rcases m.step with ⟨m', e | s⟩
  · rfl
  · cases s <;> rfl

end Seat

namespace Ring

variable {n : Nat}

/-! ## 2. The relay of a ring -/

/-- The seat at an index. -/
def seatAt (ring : Ring) (index : Nat) : Seat := (ring[index]?).getD Seat.vacant

/-- The relay of a ring of `n` amplifiers. -/
def view (n : Nat) (ring : Ring) : Relay n := fun i => .ofSeat (ring.seatAt i)

/-- A ring of `n` amplifiers whose queues have not been read beyond their ends. -/
structure Sound (n : Nat) (ring : Ring) : Prop where
  size : ring.size = n
  queues : ∀ i, i < n → (ring.seatAt i).inbound.Sound

theorem Sound.getElem? {ring : Ring} (h : ring.Sound n) {i : Nat} (hi : i < n) :
    ring[i]? = some (ring.seatAt i) := by
  unfold seatAt
  rw [Array.getElem?_eq_getElem (h.size.symm ▸ hi)]
  rfl

theorem seatAt_set {ring : Ring} {i : Nat} (hi : i < ring.size) (s : Seat) (k : Nat) :
    seatAt (ring.setIfInBounds i s) k = if i = k then s else ring.seatAt k := by
  unfold seatAt
  rw [Array.getElem?_setIfInBounds]
  split
  · rfl
  · rfl

theorem seatAt_modify {ring : Ring} {i : Nat} (hi : i < ring.size) (f : Seat → Seat) (k : Nat) :
    seatAt (ring.modify i f) k = if i = k then f (ring.seatAt k) else ring.seatAt k := by
  unfold seatAt
  rw [Array.getElem?_modify]
  split
  · rename_i h
    subst h
    rw [Array.getElem?_eq_getElem hi]
    rfl
  · rfl

theorem view_set {ring : Ring} (h : ring.size = n) (i k : Fin n) (s : Seat) :
    view n (ring.setIfInBounds i s) k = if k = i then Station.ofSeat s else view n ring k := by
  unfold view
  rw [seatAt_set (h.symm ▸ i.isLt)]
  by_cases hk : k = i
  · rw [if_pos hk, if_pos (congrArg Fin.val hk.symm)]
  · rw [if_neg hk, if_neg fun he => hk (Fin.ext he.symm)]

/-! ## 3. Who can move -/

theorem before_lt {ring : Ring} (h : ring.size = n) (i : Fin n) : ring.before i < n := by
  unfold before
  rw [h]
  exact Nat.mod_lt _ i.pos

theorem next_before {ring : Ring} (h : ring.size = n) (i : Fin n) :
    Relay.next ⟨ring.before i, before_lt h i⟩ = i := by
  apply Fin.ext
  show (ring.before i + 1) % n = i
  unfold before
  have hi := i.isLt
  rw [h]
  by_cases h0 : i.val = 0
  · have hlast : (i.val + n - 1) % n = n - 1 := by
      rw [h0, Nat.zero_add]
      exact Nat.mod_eq_of_lt (by omega)
    rw [hlast, Nat.sub_add_cancel (by omega), Nat.mod_self, h0]
  · have hprev : (i.val + n - 1) % n = i.val - 1 := by
      rw [show i.val + n - 1 = i.val - 1 + n by omega, Nat.add_mod_right]
      exact Nat.mod_eq_of_lt (by omega)
    rw [hprev, Nat.sub_add_cancel (by omega)]
    exact Nat.mod_eq_of_lt hi

theorem isFinishedAt_eq {ring : Ring} (h : ring.Sound n) (k : Fin n) :
    ring.isFinishedAt k = (view n ring k).isFinished := by
  unfold isFinishedAt view
  rw [h.getElem? k.isLt, Seat.isFinished_ofSeat]
  rfl

/-- The amplifier that one reads from has finished if and only if the one before it has. -/
theorem isFinishedAt_before {ring : Ring} (h : ring.Sound n) (i : Fin n) :
    ring.isFinishedAt (ring.before i) = true ↔
      ∃ k, Relay.next k = i ∧ (view n ring k).isFinished = true := by
  have hb := next_before h.size i
  have hat := isFinishedAt_eq h ⟨ring.before i, before_lt h.size i⟩
  constructor
  · intro hf
    exact ⟨_, hb, hat.symm.trans hf⟩
  · rintro ⟨k, hk, hkf⟩
    rw [Relay.next_injective (hk.trans hb.symm)] at hkf
    exact hat.trans hkf

/-- **Who can move in a ring can move in its relay, and the other way round.** -/
theorem canMove_iff {ring : Ring} (h : ring.Sound n) (i : Fin n) :
    ring.canMove i = true ↔ (view n ring).CanMove i := by
  have hv : view n ring i = Station.ofSeat (ring.seatAt i) := rfl
  unfold canMove Relay.CanMove
  rw [h.getElem? i.isLt, hv, Seat.ofSeat_outbox, Seat.isFinished_ofSeat, Seat.isWaiting_ofSeat,
    ← isFinishedAt_before h i]
  cases hf : (ring.seatAt i).isFinished with
  | true => simp [hf]
  | false =>
    rw [Seat.ofSeat_of_not_finished hf]
    simp only [hf, Bool.not_false, Bool.true_and, Bool.or_eq_true, Bool.not_eq_true',
      Option.isSome_iff_ne_none, ne_eq, Fifo.next?_eq_none_iff, false_or, true_and,
      not_true_eq_false, or_assoc]

/-- **A ring where nothing can move is a relay where nothing can move.** -/
theorem stuck_view {ring : Ring} (h : ring.Sound n) (hs : Schedule.Stuck Step ring) :
    Schedule.Stuck Relay.Step (view n ring) := by
  intro t ht
  obtain ⟨i, hi⟩ := ht
  exact hs _ (.move ring i ((canMove_iff h i).2 hi))

/-! ## 4. Moves -/

theorem move_of_waiting {ring : Ring} {i : Nat} {s : Seat} (hs : ring[i]? = some s)
    (hw : s.isWaiting = true) : ring.move i = ring.setIfInBounds i s.receive := by
  simp only [move, hs, hw, if_true, Array.setIfInBounds_setIfInBounds]

theorem move_of_execute {ring : Ring} {i : Nat} {s : Seat} (hs : ring[i]? = some s)
    (hw : s.isWaiting = false) (hn : Machine.Step.word? s.machine.step.2 = none) :
    ring.move i = ring.setIfInBounds i ⟨s.machine.step.1, s.inbound⟩ := by
  simp only [move, hs, hw, s.execute_eq, hn, Bool.false_eq_true, if_false,
    Array.setIfInBounds_setIfInBounds]

theorem move_of_output {ring : Ring} {i : Nat} {s : Seat} (hs : ring[i]? = some s)
    (hw : s.isWaiting = false) {w : Word} (hn : Machine.Step.word? s.machine.step.2 = some w) :
    ring.move i =
      (ring.setIfInBounds i ⟨s.machine.step.1, s.inbound⟩).modify (ring.after i) (·.send w) := by
  simp only [move, hs, hw, s.execute_eq, hn, Bool.false_eq_true, if_false,
    Array.setIfInBounds_setIfInBounds]

theorem Sound.set {ring : Ring} (h : ring.Sound n) {i : Nat} (hi : i < n) {s : Seat}
    (hs : s.inbound.Sound) : Sound n (ring.setIfInBounds i s) := by
  refine ⟨(Array.size_setIfInBounds ..).trans h.size, fun k hk => ?_⟩
  rw [seatAt_set (h.size.symm ▸ hi)]
  split
  · exact hs
  · exact h.queues k hk

theorem Sound.modify_send {ring : Ring} (h : ring.Sound n) {i : Nat} (hi : i < n) (w : Word) :
    Sound n (ring.modify i (·.send w)) := by
  refine ⟨(Array.size_modify ..).trans h.size, fun k hk => ?_⟩
  rw [seatAt_modify (h.size.symm ▸ hi)]
  have hq := h.queues k hk
  split
  · unfold Seat.send
    split
    · exact hq
    · exact hq.push w
  · exact hq

theorem after_eq {ring : Ring} (h : ring.size = n) (i : Fin n) : ring.after i = Relay.next i := by
  unfold after
  rw [h]
  rfl

theorem view_modify_send {ring : Ring} (h : ring.Sound n) (i k : Fin n) (w : Word) :
    view n (ring.modify i (·.send w)) k = (view n ring k).deliver (if i = k then some w else none) := by
  unfold view
  rw [seatAt_modify (h.size.symm ▸ i.isLt)]
  by_cases hk : i = k
  · rw [if_pos hk, if_pos (congrArg Fin.val hk)]
    exact Seat.ofSeat_send (h.queues k k.isLt) w
  · rw [if_neg hk, if_neg fun he => hk (Fin.ext he)]
    rfl

theorem Sound.receive {s : Seat} (hs : s.inbound.Sound) : s.receive.inbound.Sound := by
  unfold Seat.receive
  split
  · rename_i w hw
    exact Fifo.Sound.tail hw
  · exact hs

/-- A move that puts nothing out is one move of the relay. -/
theorem view_set_eq_move {ring : Ring} (h : ring.Sound n) {i : Fin n} {s : Seat}
    (hs : (view n ring i).act = Station.ofSeat s) :
    view n (ring.setIfInBounds i s) = (view n ring).move i := by
  funext k
  rw [view_set h.size, Relay.move_of_quiet (Seat.ofSeat_outbox _), hs]

/-- An amplifier that puts out a value holds it until it moves again. -/
theorem move_view_of_word {ring : Ring} {i : Fin n} {s : Seat} {w : Word}
    (hact : (view n ring i).act = Station.settle ⟨s.machine, s.inbound.toList, some w⟩) :
    (view n ring).move i i = ⟨s.machine, s.inbound.toList, some w⟩ := by
  rw [Relay.move_of_quiet (Seat.ofSeat_outbox _), if_pos rfl, hact]
  exact if_neg (Bool.not_eq_true _ ▸ Station.not_finished_of_outbox rfl)

/-- A move that puts out a value is two moves of the relay: the value is put out, then it is sent. -/
theorem view_send_eq_moves {ring : Ring} (h : ring.Sound n) {i : Fin n} {s : Seat}
    (hs : s.inbound.Sound) {w : Word}
    (hact : (view n ring i).act = Station.settle ⟨s.machine, s.inbound.toList, some w⟩) :
    view n ((ring.setIfInBounds i s).modify (Relay.next i) (·.send w)) =
      ((view n ring).move i).move i := by
  have hhold := move_view_of_word hact
  funext k
  rw [view_modify_send (h.set i.isLt hs), view_set h.size]
  by_cases hk : k = i
  · subst hk
    rw [Relay.move_self, if_pos rfl]
    unfold Relay.mail
    rw [hhold]
    rfl
  · rw [Relay.move_of_ne _ hk, Relay.move_of_quiet (Seat.ofSeat_outbox _), if_neg hk, if_neg hk]
    unfold Relay.mail
    rw [hhold]

/-- **A move of a ring is one move of its relay, or two**, the second of which sends a value. -/
theorem view_move {ring : Ring} (h : ring.Sound n) {i : Fin n} (hi : ring.canMove i = true) :
    Sound n (ring.move i) ∧
      (view n (ring.move i) = (view n ring).move i ∨
        (view n (ring.move i) = ((view n ring).move i).move i ∧
          ((view n ring).move i i).outbox.isSome = true)) := by
  have hcan := (canMove_iff h i).1 hi
  have hseat := h.getElem? i.isLt
  have hq := h.queues i i.isLt
  have hf : (ring.seatAt i).isFinished = false := by
    rw [← Seat.isFinished_ofSeat]
    exact hcan.not_finished
  cases hw : (ring.seatAt i).isWaiting with
  | true =>
    have hact := Seat.act_ofSeat_of_waiting hf hw
    rw [move_of_waiting hseat hw]
    exact ⟨h.set i.isLt (Sound.receive hq), .inl (view_set_eq_move h hact)⟩
  | false =>
    have hact := Seat.act_ofSeat_of_not_waiting hf hw
    cases hn : Machine.Step.word? (ring.seatAt i).machine.step.2 with
    | none =>
      rw [hn] at hact
      rw [move_of_execute hseat hw hn]
      exact ⟨h.set i.isLt hq, .inl (view_set_eq_move h hact)⟩
    | some w =>
      rw [hn] at hact
      rw [move_of_output hseat hw hn, after_eq h.size]
      have hset := h.set i.isLt (s := ⟨(ring.seatAt i).machine.step.1, _⟩) hq
      have hmoves := view_send_eq_moves h (s := ⟨(ring.seatAt i).machine.step.1, _⟩) hq hact
      have hhold := move_view_of_word (s := ⟨(ring.seatAt i).machine.step.1, _⟩) hact
      exact ⟨hset.modify_send (Relay.next i).isLt w, .inr ⟨hmoves, hhold ▸ rfl⟩⟩

/-- **The moves of a ring are moves of its relay.** -/
theorem moves_of_move {ring : Ring} (h : ring.Sound n) {i : Fin n} (hi : ring.canMove i = true) :
    Sound n (ring.move i) ∧
      ∃ k, Schedule.Moves Relay.Step (k + 1) (view n ring) (view n (ring.move i)) := by
  have hcan := (canMove_iff h i).1 hi
  obtain ⟨hsound, hone | ⟨htwo, hsend⟩⟩ := view_move h hi
  · rw [hone]
    exact ⟨hsound, 0, .single (.move _ i hcan)⟩
  · rw [htwo]
    exact ⟨hsound, 1, .cons 1 _ _ _ (.move _ i hcan) (.single (.move _ i (.inl hsend)))⟩

theorem index_lt_of_canMove {ring : Ring} {i : Nat} (h : ring.canMove i = true) : i < ring.size := by
  unfold canMove at h
  cases hs : ring[i]? with
  | none =>
    rw [hs] at h
    cases h
  | some s => exact (Array.getElem?_eq_some_iff.1 hs).1

theorem moves_of_step {ring ring' : Ring} (h : ring.Sound n) (hs : Step ring ring') :
    ring'.Sound n ∧ ∃ k, Schedule.Moves Relay.Step (k + 1) (view n ring) (view n ring') := by
  obtain ⟨i, hi⟩ := hs
  have hlt : i < n := h.size ▸ index_lt_of_canMove hi
  exact moves_of_move h (i := ⟨i, hlt⟩) hi

/-! ## 5. The start -/

theorem seatAt_seated (program : List Word) (limit : Option Nat) (phases : List Word) {i : Nat}
    (hi : i < phases.length) :
    (seated program limit phases).seatAt i = seat program limit i (phases.get ⟨i, hi⟩) := by
  unfold seatAt seated
  rw [List.getElem?_toArray, List.getElem?_mapIdx, List.getElem?_eq_getElem hi]
  rfl

theorem sound_seated (program : List Word) (limit : Option Nat) (phases : List Word) :
    (seated program limit phases).Sound phases.length where
  size := by
    unfold seated
    rw [List.size_toArray, List.length_mapIdx]
  queues i hi := by
    rw [seatAt_seated program limit phases hi]
    exact Nat.le_refl 0

end Ring

/-- The relay of a program with the given phase settings, before its first move. -/
def Relay.start (program : List Word) (limit : Option Nat) (phases : List Word) :
    Relay phases.length :=
  fun i => ⟨(Ring.seat program limit i (phases.get i)).machine, [], none⟩

theorem Ring.view_seated (program : List Word) (limit : Option Nat) (phases : List Word) :
    view phases.length (seated program limit phases) = Relay.start program limit phases := by
  funext i
  show Station.ofSeat _ = _
  rw [seatAt_seated program limit phases i.isLt]
  exact Station.settle_nil _ _

end WordMachine
