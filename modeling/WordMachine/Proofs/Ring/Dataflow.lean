import WordMachine.Proofs.Intake
import WordMachine.Proofs.Ring.Simulation

/-!
# What an amplifier reads is what the one before it puts out

A machine counts the values that it has taken, but does not keep them. Here a record of them is kept
beside the run: a value that has been taken stands where the input instruction has put it.

* `Machine.Intake.backlog_eq` -- what a machine takes comes off its backlog, unless it ends;
* `Schedule.Recorded` -- the states that a schedule leads to, with the record of what was seen on the way;
* `Relay.Flow` -- the account of a link: what its reader has taken, what its backlog and the link still
  hold and what the writer holds in hand are the settings of the reader and the output of the writer.
  A move keeps the account (`Flow.move`), so a run does (`flow_of_recorded`);
* `Ring.reads_follow_outputs` -- for every ring and every schedule.
-/

namespace WordMachine

/-! ## 1. Machines that end -/

namespace Machine

variable {m m' : Machine}

theorem not_hasEnded_takeInput (hf : m.fault = none) (a : Nat) (w : Word) :
    (m.takeInput a w).hasEnded = false := by
  have hfault : (m.takeInput a w).fault = none := hf
  unfold hasEnded
  rw [hfault]
  rfl

/-- A machine that ends takes nothing. -/
theorem Intake.inputs_of_ended (h : Intake m m') (he : m'.hasEnded = true) : m'.inputs = m.inputs := by
  cases h with
  | none inputs backlog => exact inputs
  | first m₀ a w hm' backlog inputs memory fault =>
    rw [hm', not_hasEnded_takeInput fault] at he
    cases he

theorem fault_of_not_ended (h : m.hasEnded = false) : m.fault = none :=
  Option.isNone_iff_eq_none.1 (Option.isSome_eq_false_iff.1 (Bool.or_eq_false_iff.1 h).2)

/-- **What is taken comes off the front of the backlog.** -/
theorem Intake.backlog_eq (h : Intake m m') (hm : m.memory.Apart) (he : m'.hasEnded = false) :
    m.backlog = (taken? m m').toList ++ m'.backlog := by
  cases h with
  | none inputs backlog =>
    rw [taken?_of_inputs inputs, backlog (fault_of_not_ended he)]
    rfl
  | first m₀ a w hm' backlog inputs memory fault =>
    rw [hm', taken?_takeInput (memory ▸ hm) inputs, backlog]
    rfl

end Machine

/-! ## 2. What a move does to its own station -/

namespace Station

variable {s s' : Station}

@[simp] theorem isFinished_settle (s : Station) : s.settle.isFinished = s.isFinished := by
  unfold isFinished
  rw [settle_machine, settle_outbox]

theorem settle_of_not_finished (h : s.isFinished = false) : s.settle = s :=
  if_neg (Bool.not_eq_true _ ▸ h)

/-- **The ways of a move**, as far as it concerns the station of the amplifier that moves. -/
inductive Act (s : Station) : Station → Prop where
  /-- The value in hand is sent. -/
  | sent (w : Word) (ho : s.outbox = some w) : Act s { s with outbox := none }.settle
  /-- A value is received. -/
  | received (w : Word) (rest : List Word) (a : Nat) (hf : s.machine.fault = none)
      (hb : s.machine.backlog = []) (hl : s.inbound = w :: rest) :
      Act s ⟨s.machine.takeInput a w, rest, none⟩
  /-- There is no value, and the amplifier is terminated. -/
  | terminated (hl : s.inbound = []) : Act s ⟨{ s.machine with status := .halted }, [], none⟩
  /-- An instruction is executed. -/
  | executed :
      Act s (settle ⟨s.machine.step.1, s.inbound, Machine.Step.word? s.machine.step.2⟩)

theorem act_way (hs : s.isFinished = false) (hr : s.machine.Ready) : Act s s.act := by
  obtain ⟨m, inbound, outbox⟩ := s
  cases outbox with
  | some w => exact .sent w rfl
  | none =>
    have hunended : m.hasEnded = false := by
      have hand := hs
      unfold isFinished at hand
      rw [Option.isNone_none, Bool.and_true] at hand
      exact hand
    have hf := Machine.fault_of_not_ended hunended
    cases hw : isWaiting ⟨m, inbound, none⟩ with
    | false =>
      rw [act_of_execute hw]
      exact .executed
    | true =>
      obtain ⟨hawaiting, hb⟩ := of_decide_eq_true hw
      cases inbound with
      | nil =>
        rw [act_of_terminate hw, settle_nil, Machine.supply_terminate hf hawaiting]
        exact .terminated rfl
      | cons w rest =>
        obtain ⟨a, ha⟩ := hr hf hawaiting
        have hnext : isFinished ⟨m.takeInput a w, rest, none⟩ = false := by
          unfold isFinished
          rw [Machine.not_hasEnded_takeInput hf]
          rfl
        rw [act_of_receive hw, Machine.supply_value hf hawaiting, Machine.completeInput_of_ok ha,
          settle_of_not_finished hnext]
        exact .received w rest a hf hb rfl

/-- What an amplifier takes from one moment to the next. -/
def takes (s s' : Station) : List Word := (Machine.taken? s.machine s'.machine).toList

theorem takes_of_inputs (h : s'.machine.inputs = s.machine.inputs) : takes s s' = [] := by
  unfold takes
  rw [Machine.taken?_of_inputs h]
  rfl

theorem takes_settle (s : Station) (outbox : Option Word) :
    takes s (settle { s with outbox := outbox }) = [] :=
  takes_of_inputs (congrArg Machine.inputs (settle_machine _))

theorem takes_takeInput (hm : s.machine.memory.Apart) (a : Nat) (w : Word) (inbound : List Word)
    (outbox : Option Word) : takes s ⟨s.machine.takeInput a w, inbound, outbox⟩ = [w] := by
  unfold takes
  rw [Machine.taken?_takeInput hm rfl]
  rfl

theorem Act.apart (h : Act s s') (hm : s.machine.memory.Apart) : s'.machine.memory.Apart := by
  cases h with
  | sent w ho =>
    rw [settle_machine]
    exact hm
  | received w rest a hf hb hl => exact hm.store a w
  | terminated hl => exact hm
  | executed =>
    rw [settle_machine]
    exact Machine.apart_step hm

/-- The record of what has been taken is complete. -/
theorem Act.inputs (h : Act s s') (hm : s.machine.memory.Apart) :
    s'.machine.inputs = s.machine.inputs + (takes s s').length := by
  cases h with
  | sent w ho =>
    rw [takes_settle, settle_machine]
    rfl
  | received w rest a hf hb hl =>
    rw [takes_takeInput hm]
    rfl
  | terminated hl =>
    have hnone : takes s ⟨{ s.machine with status := .halted }, [], none⟩ = [] := takes_of_inputs rfl
    rw [hnone]
    rfl
  | executed =>
    unfold takes
    rw [settle_machine]
    exact s.machine.intake_step.inputs_eq hm

/-- An amplifier that comes to its end takes nothing any more. -/
theorem Act.takes_of_finished (h : Act s s') (he : s'.isFinished = true) : takes s s' = [] := by
  cases h with
  | sent w ho => exact takes_settle s none
  | received w rest a hf hb hl =>
    unfold isFinished at he
    rw [Machine.not_hasEnded_takeInput hf] at he
    cases he
  | terminated hl => exact takes_of_inputs rfl
  | executed =>
    rw [isFinished_settle] at he
    have hended : s.machine.step.1.hasEnded = true := (Bool.and_eq_true_iff.1 he).1
    have hinputs := s.machine.intake_step.inputs_of_ended hended
    exact takes_of_inputs ((congrArg Machine.inputs (settle_machine _)).trans hinputs)

/-- **What an amplifier takes comes off the front of what waits for it**: of the backlog first, and of
    the link once that is empty. -/
theorem Act.front (h : Act s s') (hm : s.machine.memory.Apart) (he : s'.isFinished = false) :
    s.machine.backlog ++ s.inbound = takes s s' ++ (s'.machine.backlog ++ s'.inbound) ∧
      s'.machine.backlog = s.machine.backlog.drop (takes s s').length := by
  cases h with
  | sent w ho =>
    rw [isFinished_settle] at he
    rw [takes_settle, settle_of_not_finished he]
    exact ⟨rfl, rfl⟩
  | received w rest a hf hb hl =>
    have hb' : (s.machine.takeInput a w).backlog = [] := hb
    rw [takes_takeInput hm, hb, hl, hb']
    exact ⟨rfl, rfl⟩
  | terminated hl => cases he
  | executed =>
    rw [isFinished_settle] at he
    have hunended : s.machine.step.1.hasEnded = false := by
      cases hw : (Machine.Step.word? s.machine.step.2).isSome with
      | true => exact Machine.not_hasEnded_of_word hw
      | false =>
        unfold isFinished at he
        rw [Option.isSome_eq_false_iff.1 hw, Bool.and_true] at he
        exact he
    have hbacklog := s.machine.intake_step.backlog_eq hm hunended
    rw [settle_of_not_finished he]
    unfold takes
    refine ⟨?_, ?_⟩
    · rw [hbacklog, List.append_assoc]
    · rw [hbacklog, List.drop_left]

/-- What an amplifier puts out it has in hand. -/
theorem Act.output (h : Act s s') :
    s'.machine.output.toList = s.machine.output.toList ++ s'.outbox.toList := by
  cases h with
  | sent w ho =>
    rw [settle_machine, settle_outbox]
    exact (List.append_nil _).symm
  | received w rest a hf hb hl => exact (List.append_nil _).symm
  | terminated hl => exact (List.append_nil _).symm
  | executed =>
    rw [settle_machine, settle_outbox]
    exact s.machine.output_step

theorem inbound_deliver (h : s.isFinished = false) (mail : Option Word) :
    (s.deliver mail).inbound = s.inbound ++ mail.toList := by
  cases mail with
  | none => exact (List.append_nil _).symm
  | some w =>
    have haccept : s.accept w = { s with inbound := s.inbound ++ [w] } :=
      if_neg (Bool.not_eq_true _ ▸ h)
    exact congrArg Station.inbound haccept

end Station

/-! ## 3. Runs with a record -/

/-- **The states that a schedule leads to**, with the record of what was seen of each participant in the
    moves on the way. -/
inductive Schedule.Recorded {σ ι α : Type} (step : σ → σ → Prop) (seen : σ → σ → ι → List α)
    (start : σ) : σ → (ι → List α) → Prop where
  | start : Recorded step seen start start fun _ => []
  | step (s t : σ) (record : ι → List α) (h : Recorded step seen start s record) (hs : step s t) :
      Recorded step seen start t fun i => record i ++ seen s t i

namespace Relay

variable {n : Nat} {r : Relay n} {i j : Fin n}

/-- What each amplifier takes in a move. -/
def takes (r t : Relay n) (i : Fin n) : List Word := (r i).takes (t i)

/-- The station of the amplifier at `k` once the one at `j` has moved, before it gets what was sent. -/
def own (r : Relay n) (j k : Fin n) : Station := if k = j then (r j).act else r k

theorem move_eq (r : Relay n) (j k : Fin n) : r.move j k = (r.own j k).deliver (r.mail j k) := rfl

theorem takes_move (r : Relay n) (j k : Fin n) : takes r (r.move j) k = (r k).takes (r.own j k) := by
  unfold takes Station.takes
  rw [move_eq, Station.deliver_machine]

/-- An amplifier that does not move takes nothing. -/
theorem takes_of_ne (r : Relay n) {j k : Fin n} (hk : k ≠ j) : takes r (r.move j) k = [] := by
  rw [takes_move]
  unfold own
  rw [if_neg hk]
  exact Station.takes_of_inputs rfl

/-- A move takes nothing from the link to another amplifier, and only the one after the mover may get
    something. -/
theorem inbound_move_of_ne (r : Relay n) {j k : Fin n} (hk : k ≠ j) :
    ∃ added, (r.move j k).inbound = (r k).inbound ++ added ∧ (next j ≠ k → added = []) := by
  rw [move_of_ne r hk]
  cases hf : (r k).isFinished with
  | true => exact ⟨[], by rw [Station.deliver_of_finished hf, List.append_nil], fun _ => rfl⟩
  | false =>
    refine ⟨(r.mail j k).toList, Station.inbound_deliver hf _, fun hne => ?_⟩
    unfold mail
    rw [if_neg hne]
    rfl

/-- The side of the writer: what a move adds to an output is in hand, and what was in hand is sent. -/
theorem output_move (hj : Station.Act (r j) (r j).act) (i : Fin n) :
    ∃ new, (r.move j i).machine.output.toList = (r i).machine.output.toList ++ new ∧
      (r.mail j (next i)).toList ++ (r.move j i).outbox.toList = (r i).outbox.toList ++ new := by
  rw [move_eq, Station.deliver_machine, Station.deliver_outbox]
  unfold own mail
  by_cases hij : i = j
  · subst hij
    rw [if_pos rfl, if_pos rfl]
    exact ⟨(r i).act.outbox.toList, hj.output, rfl⟩
  · have hnext : next j ≠ next i := fun h => hij (next_injective h).symm
    rw [if_neg hij, if_neg hnext]
    exact ⟨[], (List.append_nil _).symm, (List.append_nil _).symm⟩

/-- The side of the reader: what it takes comes off the front of what waits for it, and what is sent to
    it goes to the end. -/
theorem front_move (hj : Station.Act (r j) (r j).act) (hf : (r j).isFinished = false)
    (hm : (r j).machine.memory.Apart) {k : Fin n} (hk : (r.move j k).isFinished = false) :
    (r k).isFinished = false ∧
    (r k).machine.backlog ++ (r k).inbound ++ (r.mail j k).toList =
      takes r (r.move j) k ++ ((r.move j k).machine.backlog ++ (r.move j k).inbound) ∧
    (r.move j k).machine.backlog = (r k).machine.backlog.drop (takes r (r.move j) k).length := by
  rw [move_eq, Station.isFinished_deliver] at hk
  rw [takes_move, move_eq, Station.deliver_machine, Station.inbound_deliver hk]
  unfold own at hk ⊢
  by_cases hkj : k = j
  · subst hkj
    rw [if_pos rfl] at hk ⊢
    obtain ⟨hfront, hbacklog⟩ := hj.front hm hk
    refine ⟨hf, ?_, hbacklog⟩
    rw [hfront]
    simp only [List.append_assoc]
  · rw [if_neg hkj] at hk ⊢
    have hnone : (r k).takes (r k) = [] := Station.takes_of_inputs rfl
    rw [hnone, List.append_assoc]
    exact ⟨hk, rfl, rfl⟩

/-- A move that sends changes no machine. -/
theorem machine_move_of_outbox (h : (r j).outbox.isSome = true) (k : Fin n) :
    (r.move j k).machine = (r k).machine := by
  rw [move_eq, Station.deliver_machine]
  unfold own
  split
  · rename_i hkj
    obtain ⟨w, hw⟩ := Option.isSome_iff_exists.1 h
    rw [hkj]
    simp only [Station.act, hw, Station.settle_machine]
  · rfl

/-! ## 4. The account of a link -/

/-- **The account of the links** of a relay whose amplifiers were set up with `seeds` and have taken
    `taken`. As long as a reader has not finished: its backlog is what it has not taken of its seeds; and
    what it has taken, what waits for it and what its writer has in hand are its seeds and all that the
    writer has put out. After that, what it has taken stays a first part of them. -/
structure Flow (seeds : Fin n → List Word) (r : Relay n) (taken : Fin n → List Word) : Prop where
  apart : ∀ i, (r i).machine.memory.Apart
  ready : ∀ i, (r i).machine.Ready
  counted : ∀ i, (taken i).length = (r i).machine.inputs
  backlog : ∀ i, (r i).isFinished = false →
    (r i).machine.backlog = (seeds i).drop (taken i).length
  link : ∀ i, (r (next i)).isFinished = false →
    taken (next i) ++ ((r (next i)).machine.backlog ++ (r (next i)).inbound ++ (r i).outbox.toList) =
      seeds (next i) ++ (r i).machine.output.toList
  front : ∀ i, taken (next i) <+: seeds (next i) ++ (r i).machine.output.toList

variable {seeds taken : Fin n → List Word}

theorem Flow.apart_move (h : Flow seeds r taken) (hj : Station.Act (r j) (r j).act) (k : Fin n) :
    (r.move j k).machine.memory.Apart := by
  rw [move_eq, Station.deliver_machine]
  unfold own
  split
  · exact hj.apart (h.apart j)
  · exact h.apart k

theorem Flow.counted_move (h : Flow seeds r taken) (hj : Station.Act (r j) (r j).act) (k : Fin n) :
    (taken k ++ takes r (r.move j) k).length = (r.move j k).machine.inputs := by
  rw [List.length_append, h.counted k, takes_move, move_eq, Station.deliver_machine]
  unfold own
  split
  · rename_i hkj
    subst hkj
    exact (hj.inputs (h.apart k)).symm
  · rw [show (r k).takes (r k) = [] from Station.takes_of_inputs rfl]
    rfl

/-- A reader that has not finished after the move. -/
theorem Flow.link_move (h : Flow seeds r taken) (hj : Station.Act (r j) (r j).act)
    (hf : (r j).isFinished = false) (i : Fin n) (hi : (r.move j (next i)).isFinished = false) :
    taken (next i) ++ takes r (r.move j) (next i) ++ ((r.move j (next i)).machine.backlog ++
      (r.move j (next i)).inbound ++ (r.move j i).outbox.toList) =
      seeds (next i) ++ (r.move j i).machine.output.toList := by
  obtain ⟨hbefore, hfront, -⟩ := front_move hj hf (h.apart j) hi
  obtain ⟨new, houtput, hhand⟩ := output_move hj i
  have hlink := h.link i hbefore
  calc taken (next i) ++ takes r (r.move j) (next i) ++ ((r.move j (next i)).machine.backlog ++
        (r.move j (next i)).inbound ++ (r.move j i).outbox.toList)
      = taken (next i) ++ (takes r (r.move j) (next i) ++ ((r.move j (next i)).machine.backlog ++
          (r.move j (next i)).inbound)) ++ (r.move j i).outbox.toList := by
        simp only [List.append_assoc]
    _ = taken (next i) ++ ((r (next i)).machine.backlog ++ (r (next i)).inbound) ++
          ((r.mail j (next i)).toList ++ (r.move j i).outbox.toList) := by
        rw [← hfront]
        simp only [List.append_assoc]
    _ = taken (next i) ++ ((r (next i)).machine.backlog ++ (r (next i)).inbound ++
          (r i).outbox.toList) ++ new := by
        rw [hhand]
        simp only [List.append_assoc]
    _ = seeds (next i) ++ (r.move j i).machine.output.toList := by
        rw [hlink, houtput, List.append_assoc]

/-- A reader that has finished before or by the move has taken nothing in it. -/
theorem takes_of_finished (hj : Station.Act (r j) (r j).act) {k : Fin n}
    (hk : (r.move j k).isFinished = true) : takes r (r.move j) k = [] := by
  by_cases hkj : k = j
  · subst hkj
    rw [move_eq, Station.isFinished_deliver] at hk
    rw [takes_move]
    unfold own at hk ⊢
    rw [if_pos rfl] at hk ⊢
    exact hj.takes_of_finished hk
  · exact takes_of_ne r hkj

/-- **A move keeps the account.** -/
theorem Flow.move (h : Flow seeds r taken) (hj : r.CanMove j) :
    Flow seeds (r.move j) fun k => taken k ++ takes r (r.move j) k := by
  have hf := hj.not_finished
  have hact := Station.act_way hf (h.ready j)
  have hlink := h.link_move hact hf
  refine ⟨h.apart_move hact, ready_step h.ready (.move r j hj), h.counted_move hact, ?_, hlink, ?_⟩
  · intro k hk
    obtain ⟨hbefore, -, hbacklog⟩ := front_move hact hf (h.apart j) hk
    rw [hbacklog, h.backlog k hbefore, List.drop_drop, List.length_append]
  · intro i
    cases hi : (r.move j (next i)).isFinished with
    | false => exact ⟨_, hlink i hi⟩
    | true =>
      obtain ⟨new, houtput, -⟩ := output_move hact i
      show taken (next i) ++ takes r (r.move j) (next i) <+: _
      rw [takes_of_finished hact hi, List.append_nil, houtput, ← List.append_assoc]
      exact (h.front i).trans (List.prefix_append _ _)

/-- **A run keeps the account.** -/
theorem flow_of_recorded {start : Relay n}
    (hstart : Flow seeds start fun _ => []) (h : Schedule.Recorded Step takes start r taken) :
    Flow seeds r taken := by
  induction h with
  | start => exact hstart
  | step s t record _ hs ih =>
    obtain ⟨j, hj⟩ := hs
    exact ih.move hj

/-- What is on the way to a reader that has not finished is what it has not taken of the output. -/
theorem Flow.link_eq_drop (h : Flow seeds r taken) (hi : (r (next i)).isFinished = false) :
    (r (next i)).inbound ++ (r i).outbox.toList =
      (r i).machine.output.toList.drop ((taken (next i)).length - (seeds (next i)).length) := by
  have hdrop := congrArg (List.drop (taken (next i)).length) (h.link i hi)
  rw [List.drop_left, List.drop_append, h.backlog _ hi, List.append_assoc] at hdrop
  exact List.append_cancel_left hdrop

end Relay

/-- Every state that a schedule leads to has a record. -/
theorem Schedule.Recorded.moves {σ ι α : Type} {step : σ → σ → Prop} {seen : σ → σ → ι → List α}
    {start s t : σ} {record : ι → List α} (h : Recorded step seen start s record) {k : Nat}
    (ht : Moves step k s t) : ∃ record, Recorded step seen start t record := by
  induction ht generalizing record with
  | none s => exact ⟨record, h⟩
  | cons k s u t hu _ ih => exact ih (.step s u record h hu)

/-! ## 5. Rings -/

namespace Ring

variable {n : Nat} {ring : Ring}

/-- What an amplifier is given before it runs: its phase setting, and the first one also the signal 0. -/
def seeds (phases : List Word) (index : Nat) : List Word :=
  (phases[index]?).toList ++ if index = 0 then [0] else []

theorem backlog_seat (program phases : List Word) (limit : Option Nat) (i : Fin phases.length) :
    (seat program limit i (phases.get i)).machine.backlog = seeds phases i := by
  have hget : phases[i.val]? = some (phases.get i) := List.getElem?_eq_getElem i.isLt
  unfold seeds
  rw [hget]
  by_cases h0 : i.val = 0
  · simp [seat, Machine.withInput, Machine.ofProgram, Machine.ofMemory, h0]
  · simp [seat, Machine.withInput, Machine.ofProgram, Machine.ofMemory, h0]

theorem flow_start (program phases : List Word) (limit : Option Nat) :
    Relay.Flow (fun i => seeds phases i) (Relay.start program limit phases) fun _ => [] where
  apart i := Memory.apart_ofImage program
  ready i := nofun
  counted i := rfl
  backlog i _ := backlog_seat program phases limit i
  link i _ := by
    have hbacklog := backlog_seat program phases limit (Relay.next i)
    show (seat program limit _ _).machine.backlog ++ [] ++ [] = _ ++ []
    rw [List.append_nil, hbacklog]
  front i := List.nil_prefix

/-- What each amplifier takes in a move. -/
def takes (ring ring' : Ring) (index : Nat) : List Word :=
  (Machine.taken? (ring.seatAt index).machine (ring'.seatAt index).machine).toList

theorem takes_view (ring ring' : Ring) (i : Fin n) :
    Relay.takes (view n ring) (view n ring') i = takes ring ring' i := by
  unfold Relay.takes Station.takes view takes
  rw [Seat.ofSeat_machine, Seat.ofSeat_machine]

/-- The record of a ring is the record of its relay. -/
theorem recorded_view {start : Ring} (hstart : start.Sound n) {taken : Nat → List Word}
    (h : Schedule.Recorded Step takes start ring taken) :
    ring.Sound n ∧
      Schedule.Recorded Relay.Step Relay.takes (view n start) (view n ring) fun i => taken i := by
  induction h with
  | start => exact ⟨hstart, .start⟩
  | step ring ring' taken _ hs ih =>
    obtain ⟨hsound, hrecord⟩ := ih
    obtain ⟨index, hindex⟩ := hs
    obtain ⟨i, rfl⟩ : ∃ i : Fin n, i.val = index :=
      ⟨⟨index, hsound.size ▸ index_lt_of_canMove hindex⟩, rfl⟩
    have hcan := (canMove_iff hsound i).1 hindex
    have hfirst := hrecord.step _ _ _ (.move _ i hcan)
    obtain ⟨hsound', hone | ⟨htwo, hsend⟩⟩ := view_move hsound hindex
    · rw [← hone] at hfirst
      simp only [takes_view] at hfirst
      exact ⟨hsound', hfirst⟩
    · -- the second move only sends, so the record of the two is that of the first
      have hsecond := hfirst.step _ _ _ (.move _ i (.inl hsend))
      have hmachine := Relay.machine_move_of_outbox hsend
      have hnone : ∀ k, Relay.takes ((view n ring).move i) (((view n ring).move i).move i) k = [] :=
        fun k => Station.takes_of_inputs (congrArg Machine.inputs (hmachine k))
      have hsame : ∀ k, Relay.takes (view n ring) ((view n ring).move i) k =
          takes ring (ring.move i) k := by
        intro k
        rw [← takes_view, htwo]
        unfold Relay.takes Station.takes
        rw [hmachine k]
      simp only [hnone, hsame, List.append_nil] at hsecond
      rw [← htwo] at hsecond
      exact ⟨hsound', hsecond⟩

/-- **A reader is true to its writer**: every value that it has taken is recorded; they are its seeds
    first and then what the writer has put out, in this order; and until it comes to its end, its backlog
    and its link hold what it has not taken of the two. -/
structure Reads (seeds taken link : List Word) (reader writer : Machine) : Prop where
  counted : taken.length = reader.inputs
  front : taken <+: seeds ++ writer.output.toList
  backlog : reader.hasEnded = false → reader.backlog = seeds.drop taken.length
  link : reader.hasEnded = false →
    link = writer.output.toList.drop (taken.length - seeds.length)

theorem isFinished_of_not_ended {s : Station} (h : s.machine.hasEnded = false) :
    s.isFinished = false := by
  unfold Station.isFinished
  rw [h]
  rfl

theorem reads_of_flow {seeds taken : Fin n → List Word} {r : Relay n} (h : r.Flow seeds taken)
    (k : Fin n) :
    Reads (seeds (Relay.next k)) (taken (Relay.next k))
      ((r (Relay.next k)).inbound ++ (r k).outbox.toList) (r (Relay.next k)).machine (r k).machine where
  counted := h.counted _
  front := h.front k
  backlog hi := h.backlog _ (isFinished_of_not_ended hi)
  link hi := h.link_eq_drop (isFinished_of_not_ended hi)

/-- The same between the moves of a ring, where nothing is in hand. -/
theorem reads_of_view {seeds taken : Nat → List Word}
    (h : (view n ring).Flow (fun i => seeds i) fun i => taken i) {i k : Fin n} (hk : Relay.next k = i) :
    Reads (seeds i) (taken i) (ring.seatAt i).inbound.toList (ring.seatAt i).machine
      (ring.seatAt k).machine := by
  have hreads := reads_of_flow h k
  rw [hk] at hreads
  have hmachine : ∀ j : Fin n, (view n ring j).machine = (ring.seatAt j).machine := fun j =>
    Seat.ofSeat_machine _
  rw [hmachine i, hmachine k] at hreads
  refine ⟨hreads.counted, hreads.front, hreads.backlog, fun hi => ?_⟩
  have hlink := hreads.link hi
  rw [show (view n ring k).outbox = none from Seat.ofSeat_outbox _] at hlink
  rw [show view n ring i = _ from Seat.ofSeat_of_not_finished hi] at hlink
  exact (List.append_nil _).symm.trans hlink

/-- A move changes the seat of no other amplifier, unless it sends a value to the one after the mover. -/
theorem seatAt_move_of_ne {i k : Nat} (hi : ring.canMove i = true) (hk : k ≠ i) :
    (ring.move i).seatAt k = ring.seatAt k ∨
      (ring.after i = k ∧ ∃ w, (ring.move i).seatAt k = (ring.seatAt k).send w) := by
  have hlt := index_lt_of_canMove hi
  have hseat : ring[i]? = some (ring.seatAt i) := by
    unfold seatAt
    rw [Array.getElem?_eq_getElem hlt]
    rfl
  have hset : ∀ s, seatAt (ring.setIfInBounds i s) k = ring.seatAt k := by
    intro s
    rw [seatAt_set hlt, if_neg (Ne.symm hk)]
  cases hw : (ring.seatAt i).isWaiting with
  | true =>
    rw [move_of_waiting hseat hw]
    exact .inl (hset _)
  | false =>
    cases hn : Machine.Step.word? (ring.seatAt i).machine.step.2 with
    | none =>
      rw [move_of_execute hseat hw hn]
      exact .inl (hset _)
    | some w =>
      have hafter : ring.after i < (ring.setIfInBounds i
          ⟨(ring.seatAt i).machine.step.1, (ring.seatAt i).inbound⟩).size := by
        rw [Array.size_setIfInBounds]
        exact Nat.mod_lt _ (Nat.zero_lt_of_lt hlt)
      rw [move_of_output hseat hw hn, seatAt_modify hafter, hset]
      split
      · rename_i hr
        exact .inr ⟨hr, w, rfl⟩
      · exact .inl rfl

/-- A move of a ring takes nothing from the link to another amplifier, and only the one after the mover
    may get something. -/
theorem inbound_move_of_ne (hsound : ring.Sound n) {i k : Nat} (hi : ring.canMove i = true)
    (hk : k ≠ i) :
    takes ring (ring.move i) k = [] ∧
      ∃ added, ((ring.move i).seatAt k).inbound.toList = (ring.seatAt k).inbound.toList ++ added ∧
        (ring.after i ≠ k → added = []) := by
  unfold takes
  rcases seatAt_move_of_ne hi hk with hsame | ⟨hafter, w, hsend⟩
  · rw [hsame, Machine.taken?_of_inputs rfl]
    exact ⟨rfl, [], (List.append_nil _).symm, fun _ => rfl⟩
  · have hlt : k < n := by
      rw [← hafter, ← hsound.size]
      exact Nat.mod_lt _ (Nat.zero_lt_of_lt (index_lt_of_canMove hi))
    rw [hsend]
    unfold Seat.send
    split
    · rw [Machine.taken?_of_inputs rfl]
      exact ⟨rfl, [], (List.append_nil _).symm, fun _ => rfl⟩
    · rw [Machine.taken?_of_inputs rfl]
      exact ⟨rfl, [w], Fifo.toList_push _ w (hsound.queues k hlt), fun hne => absurd hafter hne⟩

theorem reachable_iff_recorded {start : Ring} :
    Reachable start ring ↔ ∃ taken, Schedule.Recorded Step takes start ring taken := by
  constructor
  · intro h
    induction h with
    | start => exact ⟨_, .start⟩
    | step ring ring' _ hs ih =>
      obtain ⟨taken, htaken⟩ := ih
      exact ⟨_, .step ring ring' taken htaken hs⟩
  · intro h
    obtain ⟨taken, htaken⟩ := h
    induction htaken with
    | start => exact .start
    | step ring ring' taken _ hs ih => exact .step ring ring' ih hs

/-- **An amplifier reads what the one before it puts out**, under every schedule, of the small moves of
    the relay and of the moves of the ring. What an amplifier has taken is a first part of its phase
    setting, the signal 0 if it is the first one, and what the one before it has put out, in this order.
    Until it comes to its end, the link to it holds exactly what it has not taken of that output; between
    the small moves the writer may still have the last value in hand. No move takes a value from the link
    to another amplifier, or puts one on a link other than that to the next. -/
theorem reads_follow_outputs (program phases : List Word) (limit : Option Nat) :
    (∀ k r, Schedule.Moves Relay.Step k (Relay.start program limit phases) r →
      ∃ taken, Schedule.Recorded Relay.Step Relay.takes (Relay.start program limit phases) r taken) ∧
    (∀ r taken, Schedule.Recorded Relay.Step Relay.takes (Relay.start program limit phases) r taken →
      ∀ i k, Relay.next k = i →
        Reads (seeds phases i) (taken i) ((r i).inbound ++ (r k).outbox.toList) (r i).machine
          (r k).machine) ∧
    (∀ (r : Relay phases.length) (j k : Fin phases.length), k ≠ j →
      Relay.takes r (r.move j) k = [] ∧
        ∃ added, (r.move j k).inbound = (r k).inbound ++ added ∧ (Relay.next j ≠ k → added = [])) ∧
    (∀ ring, Reachable (seated program limit phases) ring ↔
      ∃ taken, Schedule.Recorded Step takes (seated program limit phases) ring taken) ∧
    (∀ ring taken, Schedule.Recorded Step takes (seated program limit phases) ring taken →
      ∀ i, i < phases.length →
        Reads (seeds phases i) (taken i) (ring.seatAt i).inbound.toList (ring.seatAt i).machine
          (ring.seatAt ((i + phases.length - 1) % phases.length)).machine) ∧
    ∀ ring, Reachable (seated program limit phases) ring →
      ∀ i k, ring.canMove i = true → k ≠ i →
        takes ring (ring.move i) k = [] ∧
          ∃ added, ((ring.move i).seatAt k).inbound.toList =
            (ring.seatAt k).inbound.toList ++ added ∧
            ((i + 1) % phases.length ≠ k → added = []) := by
  have hflow := flow_start program phases limit
  have hsound := sound_seated program limit phases
  have hstart := view_seated program limit phases
  refine ⟨fun k r hr => Schedule.Recorded.start.moves hr, ?_,
    fun r j k hk => ⟨Relay.takes_of_ne r hk, Relay.inbound_move_of_ne r hk⟩,
    fun ring => reachable_iff_recorded, ?_, ?_⟩
  · intro r taken hr i k hk
    have hreads := reads_of_flow (Relay.flow_of_recorded hflow hr) k
    rw [hk] at hreads
    exact hreads
  · intro ring taken hring i hi
    obtain ⟨hsound', hrecord⟩ := recorded_view hsound hring
    rw [hstart] at hrecord
    have hbefore := next_before hsound'.size ⟨i, hi⟩
    have hreads := reads_of_view (Relay.flow_of_recorded hflow hrecord) hbefore
    have hindex : ring.before i = (i + phases.length - 1) % phases.length := by
      unfold before
      rw [hsound'.size]
    rw [← hindex]
    exact hreads
  · intro ring hring i k hi hk
    obtain ⟨taken, htaken⟩ := reachable_iff_recorded.1 hring
    obtain ⟨hsound', -⟩ := recorded_view hsound htaken
    have hafter : ring.after i = (i + 1) % phases.length := by
      unfold after
      rw [hsound'.size]
    rw [← hafter]
    exact inbound_move_of_ne hsound' hi hk

/-- A ring of one: the amplifier reads its setting and the signal, puts out what it has read last, and
    takes it again. -/
theorem reads_follow_outputs_own_output :
    ∃ ring taken,
      Schedule.Recorded Step takes (seated [3, 0, 3, 0, 4, 0, 3, 0, 99] none [7]) ring taken ∧
      taken 0 = [7, 0, 0] ∧ (ring.seatAt 0).machine.output = #[0] ∧
      taken 0 <+: [7, 0] ++ (ring.seatAt 0).machine.output.toList ∧
      (ring.seatAt 0).inbound.toList = [] := by
  have hstart : Schedule.Recorded Step takes (seated [3, 0, 3, 0, 4, 0, 3, 0, 99] none [7])
      (seated [3, 0, 3, 0, 4, 0, 3, 0, 99] none [7]) (fun _ => []) := .start
  have hrecord := hstart
    |>.step _ _ _ (.move _ 0 (by decide +kernel)) |>.step _ _ _ (.move _ 0 (by decide +kernel))
    |>.step _ _ _ (.move _ 0 (by decide +kernel)) |>.step _ _ _ (.move _ 0 (by decide +kernel))
    |>.step _ _ _ (.move _ 0 (by decide +kernel))
  have hreads := (reads_follow_outputs _ _ _).2.2.2.2.1 _ _ hrecord 0 (by decide)
  refine ⟨_, _, hrecord, by decide +kernel, by decide +kernel, hreads.front, ?_⟩
  exact (hreads.link (by decide +kernel)).trans (by decide +kernel)

end Ring

end WordMachine
