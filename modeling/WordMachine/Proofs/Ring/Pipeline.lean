import WordMachine.Amplifier.Pipeline
import WordMachine.Proofs.Ring.Dataflow
import WordMachine.Proofs.Ring.Determinacy

/-!
# A ring of amplifiers that put out one value each

In a pipeline an amplifier has its signal from the start, and in a ring the signal comes over a link while
the amplifier is at work. If each amplifier of the pipeline halts after one value, both come to the same.

* `Machine.step_of_withInput` -- the step of a machine with more in its backlog is the step of the machine
  without it, or that machine asks and is given the first of what it lacks;
* `Relay.AtWork` -- an amplifier has executed what the one in the pipeline has, and what it lacks is on the
  way to it. Every step in the pipeline is a move or two of the amplifier (`AtWork.step`), so the amplifier
  comes to its end as the one in the pipeline does (`AtWork.halts`);
* `Relay.HandedOver` -- the amplifiers before one have halted, and their signal is on the way to it. This
  goes from each amplifier to the next (`HandedOver.next`);
* `Ring.pipeline_agrees` -- so one schedule of the ring gets to the answer of the pipeline, and all do.
-/

namespace WordMachine

/-! ## 1. A machine with more input -/

namespace Machine

variable {m m' : Machine} {input : List Word}

/-- **A run to the halt**, on what the machine was given. -/
inductive Halts : Machine → Machine → Prop where
  | halted (m m' : Machine) (h : m.step = (m', .ok .halted)) : Halts m m'
  | more (m m₁ m' : Machine) (s : Step) (h : m.step = (m₁, .ok s)) (hs : s.status = .running)
      (hrest : Halts m₁ m') : Halts m m'

/-- **What the step of a machine with more input tells of the machine without it**: its step comes out the
    same; or it asks, and the first of the input is the answer that it needs. -/
theorem step_of_withInput {fed : Machine} {s : Step} (hf : m.fault = none) (hs : m.status = .running)
    (h : (m.withInput input).step = (fed, .ok s)) (hno : s ≠ .needsInput) :
    (∃ m', m.step = (m', .ok s) ∧ fed = m'.withInput input) ∨
    ∃ w rest asking m', input = w :: rest ∧ s = .executed ∧ m.step = (asking, .ok .needsInput) ∧
      asking.fault = none ∧ asking.status = .awaitingInput ∧ asking.backlog = [] ∧
      asking.supply (.value w) = (m', .ok ()) ∧ fed = m'.withInput rest := by
  -- what an instruction is about to do does not depend on the backlog
  obtain ⟨hsp, op, eff, hop, he, hfed⟩ := performed_of_step (m := m.withInput input) hf hs h
  have hfed : ({ m with steps := m.steps + 1 }.withInput input).apply eff = (fed, s) := hfed
  have hstep {m' : Machine} {s : Step} (happly : { m with steps := m.steps + 1 }.apply eff = (m', s)) :
      m.step = (m', .ok s) := step_of_performed hf hs hsp hop he happly
  by_cases hlacks : ∃ a, eff = .take a ∧ m.backlog = []
  · obtain ⟨a, rfl, hb⟩ := hlacks
    cases input with
    | nil =>
      have hnone : backlog ({ m with steps := m.steps + 1 }.withInput []) = [] := by
        show m.backlog ++ [] = []
        rw [hb]
        rfl
      rw [apply_take_nil hnone] at hfed
      exact absurd (congrArg Prod.snd hfed).symm hno
    | cons w rest =>
      let asking : Machine := { m with steps := m.steps + 1, status := .awaitingInput }
      have ha : asking.inputTarget = .ok a := (input_of_take he).2
      have hasks : m.step = (asking, .ok .needsInput) :=
        hstep (apply_take_nil (m := { m with steps := m.steps + 1 }) hb)
      have hanswer : asking.supply (.value w) = (asking.takeInput a w, .ok ()) :=
        (supply_value (m := asking) hf rfl w).trans (completeInput_of_ok ha w)
      rw [apply_take_withInput (m := { m with steps := m.steps + 1 }) hb] at hfed
      obtain ⟨rfl, rfl⟩ := Prod.mk.inj hfed
      exact .inr ⟨w, rest, asking, _, rfl, rfl, hasks, hf, rfl, hb, hanswer, rfl⟩
  · rw [apply_withInput { m with steps := m.steps + 1 } input eff fun a ha hb => hlacks ⟨a, ha, hb⟩]
      at hfed
    obtain ⟨rfl, rfl⟩ := Prod.mk.inj hfed
    exact .inl ⟨_, hstep rfl, rfl⟩

/-- A machine that is given a value goes on. -/
theorem running_of_supply {w : Word} (hf : m.fault = none) (hs : m.status = .awaitingInput)
    (h : m.supply (.value w) = (m', .ok ())) : m'.status = .running := by
  rw [supply_value hf hs] at h
  unfold completeInput at h
  split at h
  · cases h
    rfl
  · cases h

theorem not_hasEnded (hf : m.fault = none) (hs : m.status ≠ .halted) : m.hasEnded = false := by
  unfold hasEnded isHalted
  rw [hf, decide_eq_false hs]
  rfl

end Machine

/-! ## 2. An amplifier at work -/

namespace Relay

variable {n : Nat} {r r' : Relay n} {i : Fin n}

/-- All amplifiers but one are where they were, with the same in hand. -/
structure Elsewhere (i : Fin n) (r r' : Relay n) : Prop where
  machine : ∀ k, k ≠ i → (r' k).machine = (r k).machine
  outbox : ∀ k, k ≠ i → (r' k).outbox = (r k).outbox

theorem Elsewhere.trans {r'' : Relay n} (h : Elsewhere i r r') (h' : Elsewhere i r' r'') :
    Elsewhere i r r'' where
  machine k hk := (h'.machine k hk).trans (h.machine k hk)
  outbox k hk := (h'.outbox k hk).trans (h.outbox k hk)

theorem elsewhere_move (r : Relay n) (i : Fin n) : Elsewhere i r (r.move i) where
  machine k hk := by rw [move_of_ne r hk, Station.deliver_machine]
  outbox k hk := by rw [move_of_ne r hk, Station.deliver_outbox]

/-- **An amplifier at work as one in a pipeline**, but for the input that it lacks. What it lacks is on the
    way to it. -/
structure AtWork (lacks : List Word) (model : Machine) (s : Station) : Prop where
  fault : s.machine.fault = none
  status : s.machine.status = .running
  outbox : s.outbox = none
  inbound : ∃ more, s.inbound = lacks ++ more
  model : model = s.machine.withInput lacks

/-- **An amplifier has halted** and has sent everything. -/
structure AtRest (output : Array Word) (s : Station) : Prop where
  fault : s.machine.fault = none
  status : s.machine.status = .halted
  outbox : s.outbox = none
  output : s.machine.output = output

/-- A running amplifier with nothing to send executes an instruction. -/
theorem move_of_running {m : Machine} {inbound : List Word} (h : r i = ⟨m, inbound, none⟩)
    (hf : m.fault = none) (hs : m.status = .running) :
    Step r (r.move i) ∧
      r.move i i = Station.settle ⟨m.step.1, inbound, Machine.Step.word? m.step.2⟩ := by
  have hwaits : Station.isWaiting ⟨m, inbound, none⟩ = false := by
    refine decide_eq_false fun hw => ?_
    have hw := hw.1
    rw [hs] at hw
    cases hw
  have hcan : r.CanMove i := by
    refine .inr ?_
    rw [h]
    exact ⟨Ring.isFinished_of_not_ended (Machine.not_hasEnded hf (hs ▸ nofun)), .inl hwaits⟩
  refine ⟨.move r i hcan, ?_⟩
  rw [move_of_quiet (by rw [h]), if_pos rfl, h]
  exact Station.act_of_execute hwaits

/-- An amplifier with a value to send sends it. It may be its own reader. -/
theorem move_of_outbox {m : Machine} {inbound : List Word} {w : Word}
    (h : r i = ⟨m, inbound, some w⟩) (hm : m.hasEnded = false) :
    Step r (r.move i) ∧ ∃ added, r.move i i = ⟨m, inbound ++ added, none⟩ := by
  have hopen : Station.isFinished ⟨m, inbound, none⟩ = false := Ring.isFinished_of_not_ended hm
  refine ⟨.move r i (.inl (by rw [h]; rfl)), (r.mail i i).toList, ?_⟩
  have hstation : r.move i i = Station.deliver ⟨m, inbound, none⟩ (r.mail i i) := by
    rw [move_self, h, Station.act_of_send, Station.settle_of_not_finished hopen]
  have hinbound := Station.inbound_deliver hopen (r.mail i i)
  have hmachine := Station.deliver_machine ⟨m, inbound, none⟩ (r.mail i i)
  have houtbox := Station.deliver_outbox ⟨m, inbound, none⟩ (r.mail i i)
  rw [hstation]
  generalize Station.deliver ⟨m, inbound, none⟩ (r.mail i i) = s at hinbound hmachine houtbox
  obtain ⟨m', inbound', outbox'⟩ := s
  simp only at hinbound hmachine houtbox
  rw [hinbound, hmachine, houtbox]

/-- An amplifier that waits receives what is on the way. -/
theorem move_of_waiting {m m' : Machine} {w : Word} {rest : List Word}
    (h : r i = ⟨m, w :: rest, none⟩) (hf : m.fault = none) (hs : m.status = .awaitingInput)
    (hb : m.backlog = []) (hsupply : m.supply (.value w) = (m', .ok ()))
    (hm' : m'.hasEnded = false) :
    Step r (r.move i) ∧ r.move i i = ⟨m', rest, none⟩ := by
  have hwaits : Station.isWaiting ⟨m, w :: rest, none⟩ = true := decide_eq_true ⟨hs, hb⟩
  have hcan : r.CanMove i := by
    refine .inr ?_
    rw [h]
    exact ⟨Ring.isFinished_of_not_ended (Machine.not_hasEnded hf (hs ▸ nofun)), .inr (.inl nofun)⟩
  refine ⟨.move r i hcan, ?_⟩
  rw [move_of_quiet (by rw [h]), if_pos rfl, h, Station.act_of_receive hwaits, hsupply]
  exact Station.settle_of_not_finished (Ring.isFinished_of_not_ended hm')

variable {lacks : List Word} {model model' : Machine} {s : Machine.Step}

theorem AtWork.station {s : Station} (h : AtWork lacks model s) :
    ∃ more, s = ⟨s.machine, lacks ++ more, none⟩ := by
  obtain ⟨m, inbound, outbox⟩ := s
  obtain ⟨more, rfl⟩ : ∃ more, inbound = lacks ++ more := h.inbound
  obtain rfl : outbox = none := h.outbox
  exact ⟨more, rfl⟩

/-- The amplifier executes what the one in the pipeline executes. -/
theorem AtWork.execute {m' : Machine} (h : AtWork lacks model (r i))
    (hm : (r i).machine.step = (m', .ok s)) (hs : s.status = .running) :
    ∃ k r', Schedule.Moves Step k r r' ∧ AtWork lacks (m'.withInput lacks) (r' i) ∧
      Elsewhere i r r' := by
  obtain ⟨more, hr⟩ := h.station
  obtain ⟨hmove, hafter⟩ := move_of_running hr h.fault h.status
  obtain ⟨-, hf', hstatus⟩ := Machine.step_of_running_ok h.fault h.status hm
  have hrunning' : m'.status = .running := hstatus.trans hs
  have hopen : m'.hasEnded = false := Machine.not_hasEnded hf' (hrunning' ▸ nofun)
  rw [hm] at hafter
  cases hw : Machine.Step.word? (.ok s) with
  | none =>
    rw [hw, Station.settle_of_not_finished (Ring.isFinished_of_not_ended hopen)] at hafter
    refine ⟨1, _, .single hmove, ?_, elsewhere_move r i⟩
    rw [hafter]
    exact ⟨hf', hrunning', rfl, ⟨more, rfl⟩, rfl⟩
  | some w =>
    rw [hw, Station.settle_of_not_finished (Station.not_finished_of_outbox rfl)] at hafter
    obtain ⟨hsend, added, hsent⟩ := move_of_outbox hafter hopen
    refine ⟨2, _, .cons 1 _ _ _ hmove (.single hsend), ?_,
      (elsewhere_move r i).trans (elsewhere_move _ i)⟩
    rw [hsent]
    exact ⟨hf', hrunning', rfl, ⟨more ++ added, List.append_assoc ..⟩, rfl⟩

/-- The amplifier asks where the one in the pipeline has a value, and is given that value. -/
theorem AtWork.ask {w : Word} {rest : List Word} {asking m' : Machine}
    (h : AtWork (w :: rest) model (r i)) (hm : (r i).machine.step = (asking, .ok .needsInput))
    (hf : asking.fault = none) (hs : asking.status = .awaitingInput) (hb : asking.backlog = [])
    (hsupply : asking.supply (.value w) = (m', .ok ())) :
    ∃ k r', Schedule.Moves Step k r r' ∧ AtWork rest (m'.withInput rest) (r' i) ∧
      Elsewhere i r r' := by
  obtain ⟨more, hr⟩ := h.station
  obtain ⟨hmove, hafter⟩ := move_of_running hr h.fault h.status
  have hopen : asking.hasEnded = false := Machine.not_hasEnded hf (hs ▸ nofun)
  rw [hm, Station.settle_of_not_finished (Ring.isFinished_of_not_ended hopen)] at hafter
  obtain ⟨-, hf', -⟩ := Machine.supply_of_awaiting_ok hf hs hsupply
  have hrunning' := Machine.running_of_supply hf hs hsupply
  obtain ⟨hreceive, hreceived⟩ := move_of_waiting hafter hf hs hb hsupply
    (Machine.not_hasEnded hf' (hrunning' ▸ nofun))
  refine ⟨2, _, .cons 1 _ _ _ hmove (.single hreceive), ?_,
    (elsewhere_move r i).trans (elsewhere_move _ i)⟩
  rw [hreceived]
  exact ⟨hf', hrunning', rfl, ⟨more, rfl⟩, rfl⟩

/-- **Every step in the pipeline is a move or two of the amplifier.** -/
theorem AtWork.step (h : AtWork lacks model (r i)) (hm : model.step = (model', .ok s))
    (hs : s.status = .running) :
    ∃ k r' lacks', Schedule.Moves Step k r r' ∧ AtWork lacks' model' (r' i) ∧ Elsewhere i r r' := by
  obtain rfl := h.model
  have hno : s ≠ .needsInput := by
    intro he
    rw [he] at hs
    cases hs
  rcases Machine.step_of_withInput h.fault h.status hm hno with ⟨m', hstep, rfl⟩ |
    ⟨w, rest, asking, m', rfl, -, hstep, hf, hawaits, hb, hsupply, rfl⟩
  · obtain ⟨k, r', hmoves, hwork, helse⟩ := h.execute hstep hs
    exact ⟨k, r', _, hmoves, hwork, helse⟩
  · obtain ⟨k, r', hmoves, hwork, helse⟩ := h.ask hstep hf hawaits hb hsupply
    exact ⟨k, r', _, hmoves, hwork, helse⟩

/-- The amplifier halts where the one in the pipeline halts. -/
theorem AtWork.halt (h : AtWork lacks model (r i)) (hm : model.step = (model', .ok .halted)) :
    ∃ r', Step r r' ∧ AtRest model'.output (r' i) ∧ Elsewhere i r r' := by
  obtain rfl := h.model
  rcases Machine.step_of_withInput h.fault h.status hm nofun with ⟨m', hstep, rfl⟩ |
    ⟨_, _, _, _, _, he, _⟩
  · obtain ⟨more, hr⟩ := h.station
    obtain ⟨hmove, hafter⟩ := move_of_running hr h.fault h.status
    obtain ⟨-, hf', hstatus⟩ := Machine.step_of_running_ok h.fault h.status hstep
    rw [hstep] at hafter
    refine ⟨_, hmove, ?_, elsewhere_move r i⟩
    rw [hafter]
    refine ⟨?_, ?_, Station.settle_outbox _, ?_⟩
    · rw [Station.settle_machine]
      exact hf'
    · rw [Station.settle_machine]
      exact hstatus
    · rw [Station.settle_machine]
      rfl
  · cases he

/-- **The amplifier comes to its end as the one in the pipeline does.** -/
theorem AtWork.halts (hh : Machine.Halts model model') (h : AtWork lacks model (r i)) :
    ∃ k r', Schedule.Moves Step k r r' ∧ AtRest model'.output (r' i) ∧ Elsewhere i r r' := by
  induction hh generalizing r lacks with
  | halted model model' hm =>
    obtain ⟨r', hmove, hrest, helse⟩ := h.halt hm
    exact ⟨1, r', .single hmove, hrest, helse⟩
  | more model model₁ model' s hm hs _ ih =>
    obtain ⟨k, r₁, lacks', hmoves, hwork, helse⟩ := h.step hm hs
    obtain ⟨k', r', hmoves', hrest, helse'⟩ := ih hwork
    exact ⟨k + k', r', hmoves.trans hmoves', hrest, helse.trans helse'⟩

end Relay

/-! ## 3. The stages of a pipeline -/

/-- What comes after a turn comes after the one before it. -/
theorem Turn.Reaches.head {σ ρ : Type} {turn : σ → Turn σ ρ} {s s' t : σ} (hs : turn s = .more s')
    (h : Reaches turn s' t) : Reaches turn s t := by
  induction h with
  | start => exact .step s s' .start hs
  | step a b _ hab ih => exact .step a b ih hab

theorem Turn.Reaches.cases_head {σ ρ : Type} {turn : σ → Turn σ ρ} {s t : σ} (h : Reaches turn s t) :
    s = t ∨ ∃ s', turn s = .more s' ∧ Reaches turn s' t := by
  induction h with
  | start => exact .inl rfl
  | step a b _ hab ih =>
    rcases ih with rfl | ⟨s', hs, hreach⟩
    · exact .inr ⟨b, hab, .start⟩
    · exact .inr ⟨s', hs, .step a b hreach hab⟩

namespace Pipeline

/-- **One value each**: every amplifier that halts, from here on, has put out one value. -/
def OneShot (p : Pipeline) : Prop :=
  ∀ p' m, Turn.Reaches turn p p' → p'.machine.step = (m, .ok .halted) → m.output.size = 1

theorem OneShot.more {p p' : Pipeline} (h : OneShot p) (ht : turn p = .more p') : OneShot p' :=
  fun q m hq hm => h q m (hq.head ht) hm

/-- Whether the pipeline ends within so many turns, and every amplifier that halts has put out one
    value. -/
def isOneShot : Nat → Pipeline → Bool
  | 0, _ => false
  | fuel + 1, p =>
    (match p.machine.step with
      | (m, .ok .halted) => m.output.size = 1
      | _ => true) &&
    match turn p with
    | .more p' => isOneShot fuel p'
    | .done _ => true

theorem oneShot_of_isOneShot (fuel : Nat) {p : Pipeline} (h : isOneShot fuel p = true) : OneShot p := by
  induction fuel generalizing p with
  | zero => cases h
  | succ fuel ih =>
    obtain ⟨hhere, hrest⟩ := Bool.and_eq_true_iff.1 h
    intro p' m hp' hm
    rcases hp'.cases_head with rfl | ⟨p₁, hturn, hreach⟩
    · rw [hm] at hhere
      exact of_decide_eq_true hhere
    · rw [hturn] at hrest
      exact ih hrest p' m hreach hm

/-- Every amplifier of a pipeline puts out one value. -/
def OneValueEach (program parameters : List Word) : Prop :=
  ∀ p, start? program parameters = some p → p.OneShot

/-- The pipeline with the amplifier at `index` about to run. -/
def stage (program : List Word) (index : Nat) (parameter : Word) (waiting : List Word) (signal : Word) :
    Pipeline :=
  ⟨program, index, parameter, waiting, amplifier program parameter signal⟩

/-- **A pipeline that gives an answer runs the amplifier at work to its halt**, and then the next one on
    its signal, or the signal is the answer. -/
theorem halts_of_run {fuel : Nat} {p : Pipeline} {answer : Word}
    (h : Turn.run turn fuel p = some (.ok answer)) (hone : p.OneShot) :
    ∃ m' signal, p.machine.Halts m' ∧ m'.output = #[signal] ∧
      ((p.waiting = [] ∧ signal = answer) ∨
        ∃ parameter waiting fuel', p.waiting = parameter :: waiting ∧
          Turn.run turn fuel' (stage p.program (p.index + 1) parameter waiting signal) =
            some (.ok answer) ∧
          (stage p.program (p.index + 1) parameter waiting signal).OneShot) := by
  induction fuel generalizing p with
  | zero => cases h
  | succ fuel ih =>
    rw [Turn.run_succ] at h
    rcases hstep : p.machine.step with ⟨m, e | s⟩
    · simp only [turn, hstep] at h
      cases h
    · cases s with
      | needsInput =>
        simp only [turn, hstep] at h
        cases h
      | halted =>
        obtain ⟨signal, hout⟩ := Array.size_eq_one_iff.1 (hone p m .start hstep)
        refine ⟨m, signal, .halted _ _ hstep, hout, ?_⟩
        have hturn : turn p = handOver p.program p.index p.waiting signal := by
          simp only [turn, hstep, hout]
          rfl
        cases hw : p.waiting with
        | nil =>
          rw [hw] at hturn
          rw [hturn] at h
          exact .inl ⟨rfl, Except.ok.inj (Option.some.inj h)⟩
        | cons parameter waiting =>
          rw [hw] at hturn
          rw [hturn] at h
          exact .inr ⟨parameter, waiting, fuel, rfl, h, hone.more hturn⟩
      | executed | output =>
        have hturn : turn p = .more { p with machine := m } := by simp only [turn, hstep]
        rw [hturn] at h
        obtain ⟨m', signal, hhalts, hout, hnext⟩ := ih h (hone.more hturn)
        exact ⟨m', signal, .more _ _ _ _ hstep rfl hhalts, hout, hnext⟩

end Pipeline

/-! ## 4. From one amplifier to the next -/

namespace Relay

variable {program phases : List Word} {r : Relay phases.length} {k : Nat} {signal : Word}

/-- **The signal has come to the amplifier at `k`**: those before it have halted and the last of them has
    put out the signal, and from there on all are as they were at the start. -/
structure HandedOver (program phases : List Word) (k : Nat) (signal : Word) (r : Relay phases.length) :
    Prop where
  reached : ∃ j, Schedule.Moves Step j (start program none phases) r
  before : ∀ i, i.val < k → ∃ output, AtRest output (r i)
  signal : (k = 0 ∧ signal = 0) ∨ ∃ i, i.val + 1 = k ∧ AtRest #[signal] (r i)
  after : ∀ i, k ≤ i.val → (r i).machine = (start program none phases i).machine ∧ (r i).outbox = none

theorem handedOver_start (program phases : List Word) :
    HandedOver program phases 0 0 (start program none phases) where
  reached := ⟨0, .none _⟩
  before _ hi := absurd hi (Nat.not_lt_zero _)
  signal := .inl ⟨rfl, rfl⟩
  after _ _ := ⟨rfl, rfl⟩

/-- What is on the way to an amplifier that has not started is all that the one before it has put out. -/
theorem HandedOver.inbound (h : HandedOver program phases k signal r) {i j : Fin phases.length}
    (hj : j.val + 1 = i.val) (hi : k ≤ i.val) (hrest : AtRest #[signal] (r j)) :
    (r i).inbound = [signal] := by
  obtain ⟨moves, hmoves⟩ := h.reached
  obtain ⟨taken, hrecord⟩ : ∃ taken,
      Schedule.Recorded Step takes (start program none phases) r taken :=
    Schedule.Recorded.start.moves hmoves
  have hflow := flow_of_recorded (Ring.flow_start program phases none) hrecord
  have hnext : next j = i := by
    apply Fin.ext
    show (j.val + 1) % phases.length = i.val
    rw [hj]
    exact Nat.mod_eq_of_lt i.isLt
  obtain ⟨hmachine, -⟩ := h.after i hi
  have hopen : (r (next j)).isFinished = false := by
    rw [hnext]
    refine Ring.isFinished_of_not_ended ?_
    rw [hmachine]
    rfl
  have hnone : (taken (next j)).length = 0 := by
    rw [hflow.counted, hnext, hmachine]
    rfl
  have hlink := hflow.link_eq_drop hopen
  rw [hnone, Nat.zero_sub, hnext, hrest.outbox, hrest.output] at hlink
  simpa using hlink

/-- **The amplifier is about to run as the one in the pipeline.** -/
theorem HandedOver.atWork (h : HandedOver program phases k signal r) {i : Fin phases.length}
    (hi : i.val = k) :
    ∃ lacks, AtWork lacks (Pipeline.amplifier program (phases.get i) signal) (r i) := by
  obtain ⟨hmachine, houtbox⟩ := h.after i (Nat.le_of_eq hi.symm)
  rcases h.signal with ⟨rfl, rfl⟩ | ⟨j, hj, hrest⟩
  · -- the first amplifier has its signal from the start
    refine ⟨[], ?_, ?_, houtbox, ⟨_, rfl⟩, ?_⟩
    · rw [hmachine]
      rfl
    · rw [hmachine]
      rfl
    · rw [hmachine]
      simp [start, Ring.seat, hi, Pipeline.amplifier, Machine.withInput, Machine.ofProgram,
        Machine.ofMemory]
  · have hinbound := h.inbound (hj.trans hi.symm) (Nat.le_of_eq hi.symm) hrest
    have hne : i.val ≠ 0 := by omega
    refine ⟨[signal], ?_, ?_, houtbox, ⟨[], hinbound⟩, ?_⟩
    · rw [hmachine]
      rfl
    · rw [hmachine]
      rfl
    · rw [hmachine]
      simp [start, Ring.seat, hne, Pipeline.amplifier, Machine.withInput, Machine.ofProgram,
        Machine.ofMemory]

/-- **The signal goes on to the next amplifier** when the one that has it has run. -/
theorem HandedOver.next (h : HandedOver program phases k signal r) {i : Fin phases.length}
    (hi : i.val = k) {m' : Machine} {w : Word}
    (hh : (Pipeline.amplifier program (phases.get i) signal).Halts m') (hw : m'.output = #[w]) :
    ∃ r', HandedOver program phases (k + 1) w r' := by
  obtain ⟨moves, hmoves⟩ := h.reached
  obtain ⟨lacks, hwork⟩ := h.atWork hi
  obtain ⟨moves', r', hmoves', hrest, helse⟩ := hwork.halts hh
  rw [hw] at hrest
  refine ⟨r', ⟨_, hmoves.trans hmoves'⟩, ?_, .inr ⟨i, congrArg (· + 1) hi, hrest⟩, ?_⟩
  · intro j hj
    by_cases hji : j = i
    · rw [hji]
      exact ⟨_, hrest⟩
    · have hne : j.val ≠ i.val := fun he => hji (Fin.ext he)
      obtain ⟨output, hbefore⟩ := h.before j (by omega)
      have hmachine := helse.machine j hji
      exact ⟨output, hmachine ▸ hbefore.fault, hmachine ▸ hbefore.status,
        (helse.outbox j hji).trans hbefore.outbox, hmachine ▸ hbefore.output⟩
  · intro j hj
    have hji : j ≠ i := by
      intro he
      rw [he, hi] at hj
      omega
    obtain ⟨hmachine, houtbox⟩ := h.after j (by omega)
    exact ⟨(helse.machine j hji).trans hmachine, (helse.outbox j hji).trans houtbox⟩

/-- A stage of the pipeline takes the signal one amplifier further. -/
theorem HandedOver.stage {waiting : List Word} {parameter answer : Word} {fuel : Nat}
    (h : HandedOver program phases k signal r) (hphases : phases.drop k = parameter :: waiting)
    (hrun : Turn.run Pipeline.turn fuel (Pipeline.stage program k parameter waiting signal) =
      some (.ok answer))
    (hone : (Pipeline.stage program k parameter waiting signal).OneShot) :
    k + 1 ≤ phases.length ∧ phases.drop (k + 1) = waiting ∧
      ∃ r' w, HandedOver program phases (k + 1) w r' ∧
        ((waiting = [] ∧ w = answer) ∨
          ∃ parameter' waiting' fuel', waiting = parameter' :: waiting' ∧
            Turn.run Pipeline.turn fuel' (Pipeline.stage program (k + 1) parameter' waiting' w) =
              some (.ok answer) ∧
            (Pipeline.stage program (k + 1) parameter' waiting' w).OneShot) := by
  have hlt : k < phases.length := by
    have hlength := congrArg List.length hphases
    rw [List.length_drop, List.length_cons] at hlength
    omega
  have hcons := List.drop_eq_getElem_cons hlt
  rw [hphases] at hcons
  obtain ⟨hparameter, hwaiting⟩ := List.cons.inj hcons
  obtain ⟨m', w, hhalts, hout, hnext⟩ := Pipeline.halts_of_run hrun hone
  have hhalts : (Pipeline.amplifier program (phases.get ⟨k, hlt⟩) signal).Halts m' := by
    rw [List.get_eq_getElem, ← hparameter]
    exact hhalts
  obtain ⟨r', hr'⟩ := h.next rfl hhalts hout
  exact ⟨hlt, hwaiting.symm, r', w, hr', hnext⟩

/-- **The signal goes through the whole ring as through the pipeline.** The induction is on the amplifiers
    that wait. -/
theorem HandedOver.answer {waiting : List Word} {parameter answer : Word} {fuel : Nat}
    (h : HandedOver program phases k signal r) (hphases : phases.drop k = parameter :: waiting)
    (hrun : Turn.run Pipeline.turn fuel (Pipeline.stage program k parameter waiting signal) =
      some (.ok answer))
    (hone : (Pipeline.stage program k parameter waiting signal).OneShot) :
    ∃ r', HandedOver program phases phases.length answer r' := by
  induction waiting generalizing r k signal parameter fuel with
  | nil =>
    obtain ⟨hle, hdrop, r', w, hr', ⟨-, rfl⟩ | ⟨_, _, _, hno, -⟩⟩ := h.stage hphases hrun hone
    · have hge : phases.length ≤ k + 1 := List.drop_eq_nil_iff.1 hdrop
      exact ⟨r', Nat.le_antisymm hle hge ▸ hr'⟩
    · cases hno
  | cons parameter' waiting ih =>
    obtain ⟨-, hdrop, r', w, hr', ⟨hno, -⟩ | ⟨_, _, fuel', hcons, hrun', hone'⟩⟩ :=
      h.stage hphases hrun hone
    · cases hno
    · obtain ⟨rfl, rfl⟩ := List.cons.inj hcons
      exact ih hr' hdrop hrun' hone'

/-- The end of the signal: every amplifier has halted, and the last one has put out the answer. -/
theorem HandedOver.ended {answer : Word} (h : HandedOver program phases phases.length answer r)
    (hp : phases ≠ []) :
    (∀ i, (r i).machine.hasEnded = true ∧ (r i).machine.fault = none) ∧ r.Answers (.ok answer) := by
  have hrest : ∀ i, (r i).machine.status = .halted ∧ (r i).machine.fault = none := by
    intro i
    obtain ⟨output, hi⟩ := h.before i i.isLt
    exact ⟨hi.status, hi.fault⟩
  refine ⟨fun i => ⟨?_, (hrest i).2⟩, ?_⟩
  · unfold Machine.hasEnded Machine.isHalted
    rw [decide_eq_true (hrest i).1]
    rfl
  · rcases h.signal with ⟨hzero, -⟩ | ⟨i, hi, hlast⟩
    · exact absurd (List.length_eq_zero_iff.1 hzero) hp
    · refine .value (fun j => (hrest j).2) i hi answer ?_
      rw [hlast.output]
      rfl

end Relay

/-! ## 5. Every schedule -/

namespace Ring

/-- One schedule of the ring gets to the answer of the pipeline. -/
theorem handedOver_of_run {program parameters : List Word} {fuel : Nat} {answer : Word}
    (h : Pipeline.run fuel program parameters = some (.ok answer))
    (hone : Pipeline.OneValueEach program parameters) :
    parameters ≠ [] ∧ ∃ r, Relay.HandedOver program parameters parameters.length answer r := by
  cases parameters with
  | nil => cases h
  | cons parameter waiting =>
    exact ⟨nofun, (Relay.handedOver_start program (parameter :: waiting)).answer rfl h (hone _ rfl)⟩

/-- **A ring of amplifiers that put out one value each is a pipeline.** If a pipeline gives an answer, and
    every amplifier in it halts after one value, then the ring of the same program and parameters, without
    a step limit or a time limit, comes to its end under every schedule: of the small moves of the relay
    and of the moves of the ring. Every amplifier has halted then and none is at fault, and the answer is
    that of the pipeline. Nothing else can be reported on the way. Both ways to run the ring stop, and
    unless they run out of turns they give that answer. -/
theorem pipeline_agrees (program parameters : List Word) (fuel : Nat) (answer : Word)
    (h : Pipeline.run fuel program parameters = some (.ok answer))
    (hone : Pipeline.OneValueEach program parameters) :
    Schedule.Arrives Relay.Step (Relay.start program none parameters)
      (fun r => (∀ i, (r i).machine.hasEnded = true ∧ (r i).machine.fault = none) ∧
        r.Answers (.ok answer)) ∧
    Schedule.Arrives Step (seated program none parameters)
      (fun ring => ring.isFinished = true ∧ ring.verdict = .ok answer) ∧
    (∀ k r a, Schedule.Moves Relay.Step k (Relay.start program none parameters) r → r.Reports a →
      a = .ok answer) ∧
    ((∃ ring, Turn.Ends turnToEnd (.first (seated program none parameters)) ring) ∧
      runToEnd program parameters {} =
        (Turn.run turnToEnd Turn.patience (.first (seated program none parameters))).map
          fun _ => .ok answer) ∧
    (∃ ring, Turn.Ends turn (.first (seated program none parameters)) ring) ∧
      run program parameters {} =
        (Turn.run turn Turn.patience (.first (seated program none parameters))).map
          fun _ => .ok answer := by
  obtain ⟨hp, final, hfinal⟩ := handedOver_of_run h hone
  obtain ⟨hended, hanswer⟩ := hfinal.ended hp
  obtain ⟨k, hk⟩ := hfinal.reached
  have hn : 0 < parameters.length := List.length_pos_iff.2 hp
  have horderly := hk.invariant (orderly_start program none parameters) fun _ _ hr ht => hr.step ht
  have hfin := horderly.finished fun i => (hended i).1
  have hstuck := Relay.stuck_of_finished hfin
  have hleft : Left final k (seated program none parameters) :=
    ⟨sound_seated program none parameters, (view_seated program none parameters).symm ▸ hk⟩
  have hnone : final.FaultAtMostOnce := by
    intro i _ hi
    rw [(hended i).2] at hi
    cases hi
  have hverdict : ∀ {ring : Ring}, ring.Sound parameters.length →
      view parameters.length ring = final → ring.isFinished = true ∧ ring.verdict = .ok answer := by
    intro ring hsound hview
    have hring : final.Answers ring.verdict := hview ▸ verdict_answers hsound hn
    exact ⟨(isFinished_iff hsound).2 (hview ▸ hfin), hring.unique hanswer⟩
  refine ⟨?_, ?_, ?_, ?_, ?_⟩
  · refine Schedule.arrives_of_less (P := fun k r => Schedule.Moves Relay.Step k r final) hk ?_ ?_
    · intro k r t hr ht
      obtain ⟨j, rfl, hj⟩ := hr.descent Relay.diamond hstuck ht
      exact ⟨j, Nat.lt_succ_self j, hj⟩
    · intro k r hr hs
      obtain rfl := hr.eq_of_stuck hs
      exact ⟨hended, hanswer⟩
  · refine Schedule.arrives_of_less hleft (fun _ _ _ hr hs => hr.step hstuck hs) ?_
    intro k ring hr hs
    exact hverdict hr.sound (hr.view_eq hs)
  · intro j r a hr ha
    obtain ⟨_, -, hrest⟩ := hk.descent_moves Relay.diamond hstuck hr
    exact (ha.answers hrest hnone).unique hanswer
  · obtain ⟨ring, hends, hsound, hview⟩ := ends_turnToEnd hstuck hleft hn
    obtain ⟨hfinished, hring⟩ := hverdict hsound hview
    exact ⟨⟨ring, hends⟩, hring ▸ runToEnd_eq hp hends hfinished⟩
  · obtain ⟨ring, hends, ⟨_, hleft'⟩, hstop⟩ := ends_turn hfin hleft hn
    have hring : ring.verdict = .ok answer :=
      (Relay.Reports.answers hleft'.moves hnone (verdict_reports hleft'.sound hn hstop)).unique hanswer
    exact ⟨⟨ring, hends⟩, hring ▸ run_eq hp hends hstop⟩

/-- Two amplifiers add their parameters to the signal. In the pipeline each has both values from the start,
    and in the ring the second one may have to wait for the sum of the first. -/
theorem pipeline_agrees_sum :
    let program : List Word := [3, 11, 3, 12, 1, 11, 12, 11, 4, 11, 99, 0, 0]
    Pipeline.run 20 program [5, 6] = some (.ok 11) ∧
      Pipeline.OneValueEach program [5, 6] ∧
      Schedule.Arrives Step (seated program none [5, 6])
        (fun ring => ring.isFinished = true ∧ ring.verdict = .ok 11) := by
  intro program
  have heval : (Pipeline.run 20 program [5, 6]).any (fun r => decide (r.toOption = some 11)) = true := by
    decide +kernel
  obtain ⟨r, hrun, hr⟩ := (Option.any_eq_true ..).1 heval
  obtain rfl : r = .ok 11 := by
    cases r with
    | error e => cases of_decide_eq_true hr
    | ok w => exact congrArg Except.ok (Option.some.inj (of_decide_eq_true hr))
  have hone : Pipeline.OneValueEach program [5, 6] := by
    intro p hp
    cases hp
    exact Pipeline.oneShot_of_isOneShot 20 (by decide +kernel)
  exact ⟨hrun, hone, (pipeline_agrees program [5, 6] 20 11 hrun hone).2.1⟩

end Ring

end WordMachine
