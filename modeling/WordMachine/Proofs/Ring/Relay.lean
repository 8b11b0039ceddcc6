import WordMachine.Amplifier.Ring
import WordMachine.Proofs.Schedule
import WordMachine.Proofs.Transition

/-!
# The ring, one small move at a time

`Ring.move` lets an amplifier execute an instruction and send what it puts out in one go. Here the two
are moves of their own, so that anything may happen between them, and a link is gone, with all that is
on it, as soon as its reader has finished.

* `Station` -- an amplifier, the values on the way to it, and the value that it has put out and not yet
  sent;
* `Relay.CanMove` and `Relay.move` -- one amplifier sends the value it holds, executes an instruction,
  receives the next value, or is terminated because nothing is on the way and nothing will be;
* `Relay.move_comm` -- moves of two amplifiers can be made in either order. The one that reads what the
  other sends takes from the front of the link, and the other adds to its end;
* `Relay.diamond` -- so schedules differ in the order of their moves only;
* `Relay.machine_of_ended` -- an amplifier that has come to its end stays as it is.
-/

namespace WordMachine

/-! ## 1. Stations -/

/-- An amplifier with what is on the way to it and from it. -/
structure Station where
  machine : Machine
  /-- The values on the way to the amplifier. -/
  inbound : List Word
  /-- The value that the amplifier has put out and not sent yet. -/
  outbox : Option Word

/-- Whether a machine has come to its end: it has halted or is at fault. -/
def Machine.hasEnded (m : Machine) : Bool := m.isHalted || m.fault.isSome

/-- A machine that puts out a value goes on. -/
theorem Machine.not_hasEnded_of_word {m : Machine} (h : (Machine.Step.word? m.step.2).isSome = true) :
    m.step.1.hasEnded = false := by
  have ht := m.transition
  generalize m.step.1 = m' at ht ⊢
  generalize m.step.2 = r at ht h
  cases ht with
  | performed hf hs hsp op hop eff he =>
    cases eff with
    | emit w => simp [Machine.apply, Machine.hasEnded, Machine.isHalted, hf, hs]
    | take a => cases hb : m.backlog <;> simp [Machine.apply, Machine.Step.word?, hb] at h
    | _ => simp [Machine.apply, Machine.Step.word?] at h
  | _ => simp [Machine.Step.word?] at h

namespace Station

/-- Whether the amplifier has finished: it has come to its end and has sent everything. -/
def isFinished (s : Station) : Bool := s.machine.hasEnded && s.outbox.isNone

/-- Whether the amplifier waits for a value. -/
def isWaiting (s : Station) : Bool := s.machine.status = .awaitingInput ∧ s.machine.backlog = []

/-- The link to an amplifier that has finished is gone, with all that is on it. -/
def settle (s : Station) : Station := if s.isFinished then { s with inbound := [] } else s

/-- A value is sent to the amplifier; one that has finished does not get it. -/
def accept (s : Station) (w : Word) : Station :=
  if s.isFinished then s else { s with inbound := s.inbound ++ [w] }

/-- What is sent to the amplifier, if anything is. -/
def deliver (s : Station) : Option Word → Station
  | some w => s.accept w
  | none => s

/-- What the move of an amplifier does to its own station. -/
def act (s : Station) : Station :=
  match s.outbox with
  -- the value is sent; `Relay.move` brings it to its reader
  | some _ => { s with outbox := none }.settle
  | none =>
    if s.isWaiting then
      match s.inbound with
      | w :: rest => { s with machine := (s.machine.supply (.value w)).1, inbound := rest }.settle
      | [] => { s with machine := (s.machine.supply .terminate).1 }.settle
    else
      { s with machine := s.machine.step.1, outbox := Machine.Step.word? s.machine.step.2 }.settle

/-! ### Laws -/

@[simp] theorem settle_machine (s : Station) : s.settle.machine = s.machine := by
  unfold settle
  split <;> rfl

@[simp] theorem settle_outbox (s : Station) : s.settle.outbox = s.outbox := by
  unfold settle
  split <;> rfl

theorem settle_nil (m : Machine) (outbox : Option Word) :
    settle ⟨m, [], outbox⟩ = ⟨m, [], outbox⟩ := by
  unfold settle
  split <;> rfl

@[simp] theorem accept_machine (s : Station) (w : Word) : (s.accept w).machine = s.machine := by
  unfold accept
  split <;> rfl

@[simp] theorem accept_outbox (s : Station) (w : Word) : (s.accept w).outbox = s.outbox := by
  unfold accept
  split <;> rfl

@[simp] theorem deliver_machine (s : Station) (mail : Option Word) :
    (s.deliver mail).machine = s.machine := by
  cases mail with
  | none => rfl
  | some w => exact s.accept_machine w

@[simp] theorem deliver_outbox (s : Station) (mail : Option Word) :
    (s.deliver mail).outbox = s.outbox := by
  cases mail with
  | none => rfl
  | some w => exact s.accept_outbox w

@[simp] theorem isFinished_deliver (s : Station) (mail : Option Word) :
    (s.deliver mail).isFinished = s.isFinished := by
  unfold isFinished
  rw [deliver_machine, deliver_outbox]

@[simp] theorem isWaiting_deliver (s : Station) (mail : Option Word) :
    (s.deliver mail).isWaiting = s.isWaiting := by
  unfold isWaiting
  rw [deliver_machine]

theorem deliver_of_finished {s : Station} (h : s.isFinished = true) (mail : Option Word) :
    s.deliver mail = s := by
  cases mail with
  | none => rfl
  | some w => exact if_pos h

theorem inbound_deliver_ne_nil {s : Station} (h : s.inbound ≠ []) (mail : Option Word) :
    (s.deliver mail).inbound ≠ [] := by
  cases mail with
  | none => exact h
  | some w =>
    show (s.accept w).inbound ≠ []
    unfold accept
    split
    · exact h
    · exact List.append_ne_nil_of_left_ne_nil h _

theorem act_of_send (m : Machine) (inbound : List Word) (w : Word) :
    act ⟨m, inbound, some w⟩ = settle ⟨m, inbound, none⟩ := rfl

theorem act_of_receive {m : Machine} {w : Word} {rest : List Word}
    (hw : isWaiting ⟨m, w :: rest, none⟩ = true) :
    act ⟨m, w :: rest, none⟩ = settle ⟨(m.supply (.value w)).1, rest, none⟩ :=
  if_pos hw

theorem act_of_terminate {m : Machine} (hw : isWaiting ⟨m, [], none⟩ = true) :
    act ⟨m, [], none⟩ = settle ⟨(m.supply .terminate).1, [], none⟩ :=
  if_pos hw

theorem act_of_execute {m : Machine} {inbound : List Word}
    (hw : isWaiting ⟨m, inbound, none⟩ = false) :
    act ⟨m, inbound, none⟩ = settle ⟨m.step.1, inbound, Machine.Step.word? m.step.2⟩ :=
  if_neg (Bool.not_eq_true _ ▸ hw)

/-- A link that is gone afterwards may as well get a value before. -/
theorem accept_settle (m : Machine) (inbound : List Word) (outbox : Option Word) (w : Word) :
    (settle ⟨m, inbound, outbox⟩).accept w = settle ⟨m, inbound ++ [w], outbox⟩ := by
  by_cases h : (m.hasEnded && outbox.isNone) = true
  · have h1 : settle ⟨m, inbound, outbox⟩ = ⟨m, [], outbox⟩ := if_pos h
    have h2 : settle ⟨m, inbound ++ [w], outbox⟩ = ⟨m, [], outbox⟩ := if_pos h
    rw [h1, h2]
    exact if_pos h
  · have h1 : settle ⟨m, inbound, outbox⟩ = ⟨m, inbound, outbox⟩ := if_neg h
    have h2 : settle ⟨m, inbound ++ [w], outbox⟩ = ⟨m, inbound ++ [w], outbox⟩ := if_neg h
    rw [h1, h2]
    exact if_neg h

/-- **Sending to an amplifier and its own move commute**, unless the move is that nothing will ever
    be sent to it. -/
theorem act_deliver {s : Station} (hs : s.isFinished = false) (mail : Option Word)
    (h : mail = none ∨ s.outbox.isSome = true ∨ s.isWaiting = false ∨ s.inbound ≠ []) :
    (s.deliver mail).act = s.act.deliver mail := by
  cases mail with
  | none => rfl
  | some w =>
    obtain ⟨m, inbound, outbox⟩ := s
    have hd : deliver ⟨m, inbound, outbox⟩ (some w) = ⟨m, inbound ++ [w], outbox⟩ :=
      if_neg (Bool.not_eq_true _ ▸ hs)
    rw [hd]
    cases outbox with
    | some v => exact (accept_settle m inbound none w).symm
    | none =>
      cases hw : isWaiting ⟨m, inbound, none⟩ with
      | false =>
        have hw' : isWaiting ⟨m, inbound ++ [w], none⟩ = false := hw
        rw [act_of_execute hw, act_of_execute hw']
        exact (accept_settle _ _ _ w).symm
      | true =>
        cases inbound with
        | nil =>
          rcases h with h | h | h | h
          · cases h
          · cases h
          · rw [h] at hw
            cases hw
          · exact absurd rfl h
        | cons v rest =>
          have hw' : isWaiting ⟨m, v :: (rest ++ [w]), none⟩ = true := hw
          rw [act_of_receive hw, List.cons_append, act_of_receive hw']
          exact (accept_settle _ _ _ w).symm

theorem not_finished_of_outbox {s : Station} (h : s.outbox.isSome = true) : s.isFinished = false := by
  unfold isFinished
  rw [Option.isNone_eq_false_iff.2 h, Bool.and_false]

end Station

/-! ## 2. Moves -/

/-- The amplifiers of a ring, where each sends to the one after it. -/
abbrev Relay (n : Nat) := Fin n → Station

namespace Relay

variable {n : Nat}

/-- The amplifier that reads what the one at `i` puts out. -/
def next (i : Fin n) : Fin n := ⟨(i + 1) % n, Nat.mod_lt _ i.pos⟩

/-- What the amplifier at `i` sends to the one at `k` when it moves. -/
def mail (r : Relay n) (i k : Fin n) : Option Word := if next i = k then (r i).outbox else none

/-- The move of the amplifier at `i`. -/
def move (r : Relay n) (i : Fin n) : Relay n :=
  fun k => (if k = i then (r i).act else r k).deliver (r.mail i k)

/-- Whether the amplifier at `i` can move: it has a value to send; or it has not finished, and if it
    waits, there is a value for it or the one that it reads from has finished. -/
def CanMove (r : Relay n) (i : Fin n) : Prop :=
  (r i).outbox.isSome = true ∨
    ((r i).isFinished = false ∧
      ((r i).isWaiting = false ∨ (r i).inbound ≠ [] ∨
        ∃ k, next k = i ∧ (r k).isFinished = true))

/-- One move, under any schedule. -/
inductive Step : Relay n → Relay n → Prop where
  | move (r : Relay n) (i : Fin n) (h : r.CanMove i) : Step r (r.move i)

theorem next_injective : Function.Injective (next : Fin n → Fin n) := by
  intro i j h
  have h : (i.val + 1) % n = (j.val + 1) % n := congrArg Fin.val h
  have hi := i.isLt
  have hj := j.isLt
  have hmod : ∀ a, a < n → (a + 1) % n = if a + 1 = n then 0 else a + 1 := by
    intro a ha
    split
    · rename_i he
      rw [he, Nat.mod_self]
    · exact Nat.mod_eq_of_lt (by omega)
  rw [hmod i hi, hmod j hj] at h
  apply Fin.ext
  split at h <;> split at h <;> omega

theorem move_self (r : Relay n) (i : Fin n) : r.move i i = (r i).act.deliver (r.mail i i) := by
  unfold move
  rw [if_pos rfl]

theorem move_of_ne (r : Relay n) {i k : Fin n} (h : k ≠ i) :
    r.move i k = (r k).deliver (r.mail i k) := by
  unfold move
  rw [if_neg h]

/-- An amplifier that has nothing to send changes nothing but itself. -/
theorem move_of_quiet {r : Relay n} {i : Fin n} (h : (r i).outbox = none) (k : Fin n) :
    r.move i k = if k = i then (r i).act else r k := by
  unfold move mail
  rw [h, ite_self]
  rfl

theorem CanMove.not_finished {r : Relay n} {i : Fin n} (h : r.CanMove i) : (r i).isFinished = false := by
  rcases h with h | ⟨h, -⟩
  · exact Station.not_finished_of_outbox h
  · exact h

/-- The move of one amplifier leaves to another what it can do. -/
theorem CanMove.move {r : Relay n} {i j : Fin n} (hi : r.CanMove i) (hj : r.CanMove j) (hij : i ≠ j) :
    (r.move i).CanMove j := by
  unfold CanMove
  rw [move_of_ne r hij.symm, Station.deliver_outbox, Station.isFinished_deliver,
    Station.isWaiting_deliver]
  rcases hj with h | ⟨hf, h⟩
  · exact .inl h
  refine .inr ⟨hf, ?_⟩
  rcases h with h | h | ⟨k, hk, hkf⟩
  · exact .inl h
  · exact .inr (.inl (Station.inbound_deliver_ne_nil h _))
  · have hki : k ≠ i := by
      rintro rfl
      rw [hi.not_finished] at hkf
      cases hkf
    refine .inr (.inr ⟨k, hk, ?_⟩)
    rw [move_of_ne r hki, Station.isFinished_deliver]
    exact hkf

/-- An amplifier sends the same, whatever another one did before. -/
theorem mail_move (r : Relay n) {i j : Fin n} (hij : i ≠ j) (k : Fin n) :
    (r.move i).mail j k = r.mail j k := by
  unfold mail
  rw [move_of_ne r hij.symm, Station.deliver_outbox]

/-- Two amplifiers do not send to the same one. -/
theorem mail_eq_none (r : Relay n) {i j : Fin n} (hij : i ≠ j) (k : Fin n) :
    r.mail i k = none ∨ r.mail j k = none := by
  unfold mail
  by_cases hi : next i = k
  · have hj : next j ≠ k := fun hj => hij (next_injective (hi.trans hj.symm))
    exact .inr (if_neg hj)
  · exact .inl (if_neg hi)

theorem deliver_mail_comm (r : Relay n) {i j : Fin n} (hij : i ≠ j) (k : Fin n) (s : Station) :
    (s.deliver (r.mail i k)).deliver (r.mail j k) = (s.deliver (r.mail j k)).deliver (r.mail i k) := by
  rcases r.mail_eq_none hij k with h | h <;> rw [h] <;> rfl

/-- What another amplifier sends does not change what the move of one does. If one is terminated, then
    the amplifier that it reads from has finished, so that nobody sends. -/
theorem act_deliver_mail {r : Relay n} {i j : Fin n} (hi : r.CanMove i) (hj : r.CanMove j) :
    ((r i).deliver (r.mail j i)).act = (r i).act.deliver (r.mail j i) := by
  apply Station.act_deliver hi.not_finished
  rcases hi with h | ⟨-, h | h | ⟨k, hk, hkf⟩⟩
  · exact .inr (.inl h)
  · exact .inr (.inr (.inl h))
  · exact .inr (.inr (.inr h))
  · refine .inl (if_neg fun hji => ?_)
    have hjk : j = k := next_injective (hji.trans hk.symm)
    rw [← hjk, hj.not_finished] at hkf
    cases hkf

theorem move_move_self {r : Relay n} {i j : Fin n} (hi : r.CanMove i) (hj : r.CanMove j) (hij : i ≠ j) :
    ((r.move i).move j) i = ((r.move j).move i) i := by
  calc ((r.move i).move j) i
      = ((r i).act.deliver (r.mail i i)).deliver (r.mail j i) := by
        rw [move_of_ne _ hij, move_self, mail_move r hij]
    _ = ((r i).act.deliver (r.mail j i)).deliver (r.mail i i) := r.deliver_mail_comm hij i _
    _ = ((r i).deliver (r.mail j i)).act.deliver (r.mail i i) := by rw [act_deliver_mail hi hj]
    _ = ((r.move j).move i) i := by rw [move_self, move_of_ne r hij, mail_move r hij.symm]

/-- **Moves of two amplifiers commute.** -/
theorem move_comm {r : Relay n} {i j : Fin n} (hi : r.CanMove i) (hj : r.CanMove j) (hij : i ≠ j) :
    (r.move i).move j = (r.move j).move i := by
  funext k
  by_cases hki : k = i
  · rw [hki]
    exact move_move_self hi hj hij
  by_cases hkj : k = j
  · rw [hkj]
    exact (move_move_self hj hi hij.symm).symm
  rw [move_of_ne _ hkj, move_of_ne _ hki, move_of_ne _ hki, move_of_ne _ hkj, mail_move r hij,
    mail_move r hij.symm]
  exact r.deliver_mail_comm hij k _

/-- **Schedules differ in the order of their moves only.** -/
theorem diamond : Schedule.Diamond (Step : Relay n → Relay n → Prop) := by
  intro r t u ht hu
  obtain ⟨i, hi⟩ := ht
  obtain ⟨j, hj⟩ := hu
  by_cases hij : i = j
  · subst hij
    exact .inl rfl
  · refine .inr ⟨(r.move i).move j, .move _ j (hi.move hj hij), ?_⟩
    rw [move_comm hi hj hij]
    exact .move _ i (hj.move hi (Ne.symm hij))

/-! ## 3. Ends -/

theorem stuck_of_finished {r : Relay n} (h : ∀ i, (r i).isFinished = true) :
    Schedule.Stuck Step r := by
  intro t ht
  obtain ⟨i, hi⟩ := ht
  have hi := hi.not_finished
  rw [h i] at hi
  cases hi

/-- An amplifier that has come to its end and can move only sends. -/
theorem machine_act_of_ended {r : Relay n} {i : Fin n} (hi : r.CanMove i)
    (h : (r i).machine.hasEnded = true) : (r i).act.machine = (r i).machine := by
  have hf := hi.not_finished
  unfold Station.isFinished at hf
  rw [h, Bool.true_and, Option.isNone_eq_false_iff, Option.isSome_iff_exists] at hf
  obtain ⟨w, hw⟩ := hf
  simp only [Station.act, hw, Station.settle_machine]

/-- **An amplifier that has come to its end stays as it is.** -/
theorem machine_of_ended {r t : Relay n} (ht : Step r t) {i : Fin n}
    (h : (r i).machine.hasEnded = true) : (t i).machine = (r i).machine := by
  obtain ⟨j, hj⟩ := ht
  by_cases hij : i = j
  · subst hij
    rw [move_self, Station.deliver_machine]
    exact machine_act_of_ended hj h
  · rw [move_of_ne r hij, Station.deliver_machine]

theorem machine_of_ended_of_moves {k : Nat} {r t : Relay n} (ht : Schedule.Moves Step k r t) {i : Fin n}
    (h : (r i).machine.hasEnded = true) : (t i).machine = (r i).machine := by
  refine ht.invariant (P := fun s => (s i).machine = (r i).machine) rfl ?_
  intro a b ha hab
  rw [machine_of_ended hab (ha ▸ h), ha]

/-- An amplifier that holds a value has not come to its end. -/
def Orderly (r : Relay n) : Prop := ∀ i, (r i).outbox.isSome = true → (r i).machine.hasEnded = false

theorem orderly_act {s : Station} (h : s.act.outbox.isSome = true) : s.act.machine.hasEnded = false := by
  obtain ⟨m, inbound, outbox⟩ := s
  cases outbox with
  | some w => simp [Station.act_of_send] at h
  | none =>
    cases hw : Station.isWaiting ⟨m, inbound, none⟩ with
    | false =>
      rw [Station.act_of_execute hw] at h ⊢
      rw [Station.settle_outbox] at h
      rw [Station.settle_machine]
      exact Machine.not_hasEnded_of_word h
    | true =>
      cases inbound with
      | nil => simp [Station.act_of_terminate hw] at h
      | cons v rest => simp [Station.act_of_receive hw] at h

theorem Orderly.step {r t : Relay n} (hr : r.Orderly) (ht : Step r t) : t.Orderly := by
  obtain ⟨j, hj⟩ := ht
  intro i
  by_cases hij : i = j
  · subst hij
    rw [move_self, Station.deliver_machine, Station.deliver_outbox]
    exact orderly_act
  · rw [move_of_ne r hij, Station.deliver_machine, Station.deliver_outbox]
    exact hr i

/-- Where every amplifier has come to its end, every amplifier has finished. -/
theorem Orderly.finished {r : Relay n} (hr : r.Orderly) (h : ∀ i, (r i).machine.hasEnded = true)
    (i : Fin n) : (r i).isFinished = true := by
  unfold Station.isFinished
  rw [h i, Bool.true_and, Option.isNone_iff_eq_none]
  cases ho : (r i).outbox with
  | none => rfl
  | some w =>
    have hne := hr i (ho ▸ rfl)
    rw [h i] at hne
    cases hne

/-! ## 4. Requests -/

theorem ready_act {s : Station} (h : s.machine.Ready) : s.act.machine.Ready := by
  obtain ⟨m, inbound, outbox⟩ := s
  cases outbox with
  | some w =>
    rw [Station.act_of_send, Station.settle_machine]
    exact h
  | none =>
    cases hw : Station.isWaiting ⟨m, inbound, none⟩ with
    | false =>
      rw [Station.act_of_execute hw, Station.settle_machine]
      exact Machine.Ready.step h
    | true =>
      cases inbound with
      | nil =>
        rw [Station.act_of_terminate hw, Station.settle_machine]
        exact Machine.Ready.supply h _
      | cons w rest =>
        rw [Station.act_of_receive hw, Station.settle_machine]
        exact Machine.Ready.supply h _

/-- Every amplifier that waits has an address for what it receives. -/
theorem ready_step {r t : Relay n} (hr : ∀ i, (r i).machine.Ready) (ht : Step r t) (i : Fin n) :
    (t i).machine.Ready := by
  obtain ⟨j, hj⟩ := ht
  by_cases hij : i = j
  · subst hij
    rw [move_self, Station.deliver_machine]
    exact ready_act (hr i)
  · rw [move_of_ne r hij, Station.deliver_machine]
    exact hr i

end Relay

end WordMachine
