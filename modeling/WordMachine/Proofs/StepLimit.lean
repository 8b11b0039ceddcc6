import WordMachine.Channel.Source
import WordMachine.Proofs.Lifecycle
import WordMachine.Proofs.Schedule

/-!
# The step limit of a machine

A machine may be allowed so many instructions in all. The limit is looked at before every fetch and
nowhere else: an answer to a request is no instruction, and a machine that has halted or failed fetches
nothing.

* `Machine.unspent` -- the turns that a machine has left: twice the instructions left, and one more to
  take a value that it waits for;
* `Machine.driven_within_step_limit` -- so a resumption and a run come to their end, whatever is answered;
* `Machine.FetchesAfter` -- a machine is about to fetch when it has executed so many instructions;
* `Machine.step_withStepLimit`, `Machine.runTurn_withStepLimit` -- a limit makes no difference to a step,
  and so to a turn of a run, as long as instructions are left;
* `Machine.WithinLimit` -- no more instructions than allowed have been executed. Every turn keeps this;
* `Machine.step_limit_cuts_run` -- so a run with a limit is the run without it, up to the fetch after as
  many instructions as are allowed.
-/

namespace WordMachine.Machine

variable {σ : Type} {m m' : Machine} {c : Channel σ} {most limit : Nat} {s : Step}

/-! ## 1. What is left -/

theorem stepLimit_apply (m : Machine) (eff : Effect) : (m.apply eff).1.stepLimit = m.stepLimit := by
  cases eff with
  | take a =>
    cases hb : m.backlog with
    | nil => rw [apply_take_nil hb]
    | cons w rest =>
      rw [apply_take_cons hb]
      rfl
  | store | emit | jump | pass | moveBase | halt => rfl

theorem stepLimit_step (m : Machine) : m.step.1.stepLimit = m.stepLimit := by
  have ht := m.transition
  generalize m.step.1 = m' at ht ⊢
  generalize m.step.2 = r at ht
  cases ht with
  | performed hf hs hsp op hop eff he => exact stepLimit_apply _ eff
  | stopped | halted | waiting | resumed | unwritable | spent | unknown | refused => rfl

theorem stepLimit_drive {t : Turn (Machine × Channel σ) ((Machine × Channel σ) × Except Fault Unit)}
    (hd : Drive m c t) : (leaves t).1.1.stepLimit = m.stepLimit :=
  hd.keeps (P := fun m' => m'.stepLimit = m.stepLimit) (fun m' h => (stepLimit_step m').trans h)
    (fun m' answer h => (stepLimit_supply m' answer).trans h) rfl

theorem steps_lt_of_not_spent (hl : m.stepLimit = some most) (h : m.spent? = none) :
    m.steps < most := by
  unfold spent? at h
  simp only [hl] at h
  split at h
  · cases h
  · rename_i hlt
    exact Nat.lt_of_not_le hlt

/-- **What a step that comes out well costs**: a running machine executes one of the instructions allowed,
    and one that waits none. -/
theorem cost_of_step (hl : m.stepLimit = some most) (h : m.step = (m', .ok s)) :
    m'.status = s.status ∧
      ((m.status = .running ∧ m.steps < most ∧ m'.steps = m.steps + 1) ∨
        (m.status = .awaitingInput ∧ m'.steps = m.steps) ∨ (m.status = .halted ∧ s = .halted)) := by
  obtain ⟨hstatus, ⟨hs, hsp, hsteps⟩ | hrest⟩ := count_of_step h
  · exact ⟨hstatus, .inl ⟨hs, steps_lt_of_not_spent hl hsp, hsteps⟩⟩
  · exact ⟨hstatus, .inr hrest⟩

/-- The turns that a machine has left at most before it asks or stops: two for each instruction left, and
    one if it waits. -/
def unspent (most : Nat) (m : Machine) : Nat :=
  2 * (most - m.steps) + if m.status = .awaitingInput then 1 else 0

/-- A machine that goes on has fewer turns left. -/
theorem unspent_of_step (hl : m.stepLimit = some most) (h : m.step = (m', .ok s))
    (hs : s.status = .running) :
    m'.unspent most < m.unspent most ∧ m.steps ≤ m'.steps ∧ m'.status ≠ .awaitingInput := by
  obtain ⟨hstatus, hcost⟩ := cost_of_step hl h
  have hrunning : m'.status = .running := hstatus.trans hs
  unfold unspent
  rw [hrunning]
  rcases hcost with ⟨hbefore, hlt, hsteps⟩ | ⟨hbefore, hsteps⟩ | ⟨-, rfl⟩
  · rw [hbefore, hsteps]
    simp only [reduceCtorEq, if_false, ne_eq, not_false_eq_true, and_true]
    omega
  · rw [hbefore, hsteps]
    simp
  · cases hs

/-- A machine that asks when it has not been waiting has executed an instruction. -/
theorem cost_of_request (hl : m.stepLimit = some most) (h : m.step = (m', .ok .needsInput))
    (hs : m.status ≠ .awaitingInput) : m.steps < m'.steps ∧ m'.steps ≤ most := by
  rcases (cost_of_step hl h).2 with ⟨-, hlt, hsteps⟩ | ⟨hwaits, -⟩ | ⟨-, hno⟩
  · omega
  · exact absurd hwaits hs
  · cases hno

/-- A machine that asks and is answered has fewer turns left. -/
theorem unspent_of_answer {asking : Machine} {answer : Answer} (hl : m.stepLimit = some most)
    (h : m.step = (asking, .ok .needsInput)) (hs : asking.supply answer = (m', .ok ())) :
    m'.unspent most < m.unspent most ∧ m.steps ≤ m'.steps ∧ m'.status ≠ .awaitingInput := by
  obtain ⟨hfault, hwaits⟩ := awaiting_of_needsInput h
  obtain ⟨hsteps, -, hawake⟩ := supply_of_awaiting_ok hfault hwaits hs
  unfold unspent
  rw [if_neg hawake, hsteps]
  rcases (cost_of_step hl h).2 with ⟨hbefore, hlt, hcount⟩ | ⟨hbefore, hcount⟩ | ⟨-, hno⟩
  · rw [hbefore, hcount]
    simp only [reduceCtorEq, if_false, ne_eq, hawake, not_false_eq_true, and_true]
    omega
  · rw [hbefore, hcount]
    simp [hawake]
  · cases hno

/-! ## 2. Resumptions and runs end -/

theorem unspent_of_resumeTurn (hl : m.stepLimit = some most) (ht : m.resumeTurn = .more m') :
    m'.stepLimit = some most ∧ m'.unspent most < m.unspent most := by
  have hstep := resumeTurn_more ht
  have hlimit := m.stepLimit_step
  rw [hstep] at hlimit
  exact ⟨hlimit.trans hl, (unspent_of_step hl hstep rfl).1⟩

/-- **A turn of a run that goes on leaves fewer turns**, be it an instruction or the answer to a request. -/
theorem unspent_of_drive {s : Machine × Channel σ} (hl : m.stepLimit = some most)
    (hd : Drive m c (.more s)) : s.1.stepLimit = some most ∧ s.1.unspent most < m.unspent most := by
  refine ⟨(stepLimit_drive hd).trans hl, ?_⟩
  cases hd with
  | executed m' h | emitted m' w h => exact (unspent_of_step hl h rfl).1
  | answered asking h c' answer hc m' hs => exact (unspent_of_answer hl h hs).1

theorem resume_isSome_of_stepLimit (hl : m.stepLimit = some most) :
    (m.resume (m.unspent most + 1)).isSome = true :=
  Turn.run_isSome_of_rank (unspent most) (P := fun m => m.stepLimit = some most)
    (fun _ _ hl ht => unspent_of_resumeTurn hl ht) hl (Nat.lt_succ_self _)

theorem run_isSome_of_stepLimit (hl : m.stepLimit = some most) (c : Channel σ) :
    (m.run (m.unspent most + 1) c).isSome = true := by
  refine Turn.run_isSome_of_rank (fun s => s.1.unspent most) (P := fun s => s.1.stepLimit = some most)
    ?_ hl (Nat.lt_succ_self _)
  intro s s' hl ht
  have hd := drive s.1 s.2
  rw [ht] at hd
  exact unspent_of_drive hl hd

/-- **A step limit bounds every drive of a machine.** Whatever the state of a machine that is allowed
    `limit` instructions in all: resumed, it hands back control, and run through any channel, with
    whatever answers and failures of the provider, it comes to its end. Both take at most two turns for
    each instruction that is left, and three more; a turn takes one step, and with it at most one
    answer. -/
theorem driven_within_step_limit (h : m.stepLimit = some limit) :
    ∃ calls, calls ≤ 2 * (limit - m.steps) + 3 ∧
      (∃ m' pause, m.resume calls = some (m', pause)) ∧
      ∀ {σ : Type} (c : Channel σ), ∃ m' c' r, m.run calls c = some ((m', c'), r) := by
  refine ⟨m.unspent limit + 1, ?_, ?_, fun c => ?_⟩
  · unfold unspent
    split <;> omega
  · obtain ⟨⟨m', pause⟩, hresume⟩ := Option.isSome_iff_exists.1 (resume_isSome_of_stepLimit h)
    exact ⟨m', pause, hresume⟩
  · obtain ⟨⟨⟨m', c'⟩, r⟩, hrun⟩ := Option.isSome_iff_exists.1 (run_isSome_of_stepLimit h c)
    exact ⟨m', c', r, hrun⟩

/-- A machine that waits, with two of three instructions left, is resumed by answers of any kind. It takes
    four turns, of which only two execute an instruction. -/
theorem driven_within_step_limit_waiting :
    let m := ((ofProgram [3, 5, 1105, 1, 0, 0]).withStepLimit 3).step.1
    let c := Channel.ofProvider Replies.provider [.ok .noValue, .ok (.value 7)]
    m.status = .awaitingInput ∧ m.steps = 1 ∧
    (∃ calls, calls ≤ 7 ∧ (∃ m' pause, m.resume calls = some (m', pause)) ∧
      ∃ m' c' r, m.run calls c = some ((m', c'), r) ∧ c'.requests = #[0, 1] ∧ m'.steps = 3) ∧
    m.run 3 c = none := by
  intro m c
  have hl : m.stepLimit = some 3 := by decide +kernel
  have hsteps : m.steps = 1 := by decide +kernel
  have heval : (m.run 4 c).any (fun o => decide (o.1.2.requests = #[0, 1] ∧ o.1.1.steps = 3)) = true := by
    decide +kernel
  have hshort : (m.run 3 c).isNone = true := by decide +kernel
  obtain ⟨calls, hcalls, hresume, hruns⟩ := driven_within_step_limit hl
  obtain ⟨m', c', r, hrun⟩ := hruns c
  obtain ⟨o, ho, hleft⟩ := (Option.any_eq_true ..).1 heval
  obtain rfl : o = ((m', c'), r) := Turn.Ends.unique ⟨4, ho⟩ ⟨calls, hrun⟩
  obtain ⟨hrequests, hcount⟩ := of_decide_eq_true hleft
  rw [hsteps] at hcalls
  exact ⟨by decide +kernel, hsteps, ⟨calls, hcalls, hresume, m', c', r, hrun, hrequests, hcount⟩,
    Option.isNone_iff_eq_none.1 hshort⟩

/-! ## 3. Steps with and without a limit -/

theorem spent?_of_unlimited (h : m.stepLimit = none) : m.spent? = none := by
  simp only [spent?, h]

theorem spent?_withStepLimit (m : Machine) (limit : Nat) :
    (m.withStepLimit limit).spent? =
      if limit ≤ m.steps then some (.stepLimit limit m.pc) else none := rfl

theorem apply_withStepLimit (m : Machine) (limit : Nat) (eff : Effect) :
    (m.withStepLimit limit).apply eff = ((m.apply eff).1.withStepLimit limit, (m.apply eff).2) := by
  cases eff with
  | take a =>
    cases hb : m.backlog with
    | nil =>
      rw [apply_take_nil hb, apply_take_nil (m := m.withStepLimit limit) hb]
      rfl
    | cons w rest =>
      rw [apply_take_cons hb, apply_take_cons (m := m.withStepLimit limit) hb]
      rfl
  | store | emit | jump | pass | moveBase | halt => rfl

/-- **A limit makes no difference to a step** that does not fetch or has an instruction left. -/
theorem step_withStepLimit (hfree : m.stepLimit = none)
    (hleft : m.fault = none → m.status = .running → m.steps < limit) :
    (m.withStepLimit limit).step = (m.step.1.withStepLimit limit, m.step.2) := by
  have hunspent (hf : m.fault = none) (hs : m.status = .running) :
      (m.withStepLimit limit).spent? = none := by
    rw [spent?_withStepLimit, if_neg (Nat.not_le.2 (hleft hf hs))]
  have ht := m.transition
  generalize m.step.1 = m' at ht ⊢
  generalize m.step.2 = r at ht ⊢
  cases ht with
  | stopped e hf => exact Transition.step_eq (.stopped e hf)
  | halted hf hs => exact Transition.step_eq (.halted hf hs)
  | waiting hf hs hb => exact Transition.step_eq (.waiting hf hs hb)
  | resumed hf hs w rest hb a ha =>
    exact Transition.step_eq (.resumed (m := m.withStepLimit limit) hf hs w rest hb a ha)
  | unwritable hf hs w rest hb e ha =>
    exact Transition.step_eq (.unwritable (m := m.withStepLimit limit) hf hs w rest hb e ha)
  | spent hf hs e hsp =>
    rw [spent?_of_unlimited hfree] at hsp
    cases hsp
  | unknown hf hs hsp hop => exact Transition.step_eq (.unknown hf hs (hunspent hf hs) hop)
  | refused hf hs hsp op hop e he =>
    exact Transition.step_eq
      (.refused (m := m.withStepLimit limit) hf hs (hunspent hf hs) op hop e he)
  | performed hf hs hsp op hop eff he =>
    exact step_of_performed (m := m.withStepLimit limit) hf hs (hunspent hf hs) hop he
      (apply_withStepLimit { m with steps := m.steps + 1 } limit eff)

theorem completeInput_withStepLimit (m : Machine) (limit : Nat) (w : Word) :
    (m.withStepLimit limit).completeInput w =
      ((m.completeInput w).1.withStepLimit limit, (m.completeInput w).2) := by
  have htarget : (m.withStepLimit limit).inputTarget = m.inputTarget := rfl
  unfold completeInput
  rw [htarget]
  cases m.inputTarget <;> rfl

theorem supply_withStepLimit (m : Machine) (limit : Nat) (answer : Answer) :
    (m.withStepLimit limit).supply answer =
      ((m.supply answer).1.withStepLimit limit, (m.supply answer).2) := by
  cases hf : m.fault with
  | some e => rw [supply_of_fault hf, supply_of_fault (m := m.withStepLimit limit) hf]
  | none =>
    by_cases hs : m.status = .awaitingInput
    · cases answer with
      | value w =>
        rw [supply_value hf hs, supply_value (m := m.withStepLimit limit) hf hs]
        exact completeInput_withStepLimit m limit w
      | noValue =>
        rw [supply_noValue hf hs, supply_noValue (m := m.withStepLimit limit) hf hs]
        exact completeInput_withStepLimit m limit m.idleInput
      | terminate =>
        rw [supply_terminate hf hs, supply_terminate (m := m.withStepLimit limit) hf hs]
        rfl
    · rw [supply_of_not_awaiting hf hs, supply_of_not_awaiting (m := m.withStepLimit limit) hf hs]
      rfl

/-! ## 4. Runs with and without a limit -/

/-- The state of a run with a limit set. -/
def bounded (limit : Nat) (s : Machine × Channel σ) : Machine × Channel σ :=
  (s.1.withStepLimit limit, s.2)

/-- The result of a run with a limit set. -/
def boundedResult (limit : Nat) (o : (Machine × Channel σ) × Except Fault Unit) :
    (Machine × Channel σ) × Except Fault Unit :=
  (bounded limit o.1, o.2)

theorem answerFrom_withStepLimit (m : Machine) (limit : Nat) (c : Channel σ) :
    (m.withStepLimit limit).answerFrom c = boundedResult limit (m.answerFrom c) := by
  have hinputs : (m.withStepLimit limit).inputs = m.inputs := rfl
  unfold answerFrom
  rw [hinputs]
  rcases c.request m.inputs with ⟨_ | (message | answer), c'⟩
  · rfl
  · rfl
  · simp only [supply_withStepLimit]
    rfl

/-- **A limit makes no difference to a turn** that does not fetch or has an instruction left. -/
theorem runTurn_withStepLimit (hfree : m.stepLimit = none)
    (hleft : m.fault = none → m.status = .running → m.steps < limit) (c : Channel σ) :
    runTurn (bounded limit (m, c)) = (runTurn (m, c)).map (bounded limit) (boundedResult limit) := by
  have hstep := step_withStepLimit hfree hleft
  simp only [bounded, runTurn, hstep]
  rcases m.step with ⟨m', e | s⟩
  · rfl
  · cases s with
    | executed | output | halted => rfl
    | needsInput =>
      simp only [answerFrom_withStepLimit]
      rcases m'.answerFrom c with ⟨s, e | u⟩ <;> rfl

/-- **A machine fetches after so many instructions**: it runs, and the next step is a fetch. -/
structure FetchesAfter (count : Nat) (m : Machine) : Prop where
  fault : m.fault = none
  status : m.status = .running
  steps : m.steps = count

/-- A machine that is about to fetch after as many instructions as are allowed is stopped, where it
    stands. -/
theorem FetchesAfter.step (h : m.FetchesAfter limit) :
    (m.withStepLimit limit).step =
      ({ m with stepLimit := some limit, fault := some (.stepLimit limit m.pc) },
        .error (.stepLimit limit m.pc)) := by
  have hspent : (m.withStepLimit limit).spent? = some (.stepLimit limit m.pc) := by
    rw [spent?_withStepLimit, if_pos (Nat.le_of_eq h.steps.symm)]
  exact Transition.step_eq (.spent (m := m.withStepLimit limit) h.fault h.status _ hspent)

/-- What a turn that goes on counts. -/
theorem count_of_drive {s : Machine × Channel σ} (hd : Drive m c (.more s)) :
    m.fault = none ∧ ((m.status = .running ∧ s.1.steps = m.steps + 1) ∨
      (m.status = .awaitingInput ∧ s.1.steps = m.steps)) := by
  cases hd with
  | executed m' h | emitted m' w h =>
    refine ⟨(fault_of_step_ok h).1, ?_⟩
    rcases (count_of_step h).2 with ⟨hs, -, hsteps⟩ | hwaits | ⟨-, hno⟩
    · exact .inl ⟨hs, hsteps⟩
    · exact .inr hwaits
    · cases hno
  | answered asking h c' answer hc m' hsupply =>
    obtain ⟨hfault, hwaiting⟩ := awaiting_of_needsInput h
    obtain ⟨hsupplied, -, -⟩ := supply_of_awaiting_ok hfault hwaiting hsupply
    refine ⟨(fault_of_step_ok h).1, ?_⟩
    rcases (count_of_step h).2 with ⟨hs, -, hsteps⟩ | ⟨hs, hsteps⟩ | ⟨-, hno⟩
    · exact .inl ⟨hs, hsupplied.trans hsteps⟩
    · exact .inr ⟨hs, hsupplied.trans hsteps⟩
    · cases hno

/-- **A run with a limit follows the run without**, as long as no more instructions are executed than
    allowed. -/
theorem reaches_bounded (limit : Nat) (hfree : m.stepLimit = none) {s : Machine × Channel σ}
    (hs : Turn.Reaches runTurn (m, c) s) :
    s.1.stepLimit = none ∧
      (s.1.steps ≤ limit → Turn.Reaches runTurn (bounded limit (m, c)) (bounded limit s)) := by
  refine hs.invariant (P := fun s => s.1.stepLimit = none ∧ (s.1.steps ≤ limit →
    Turn.Reaches runTurn (bounded limit (m, c)) (bounded limit s))) ⟨hfree, fun _ => .start⟩ ?_
  intro s s' ⟨hfree, hreaches⟩ ht
  have hd := drive s.1 s.2
  rw [ht] at hd
  refine ⟨(stepLimit_drive hd).trans hfree, fun hle => ?_⟩
  have hbefore : s.1.steps ≤ limit ∧ (s.1.fault = none → s.1.status = .running → s.1.steps < limit) := by
    rcases (count_of_drive hd).2 with ⟨-, hsteps⟩ | ⟨hwaits, hsteps⟩
    · exact ⟨by omega, fun _ _ => by omega⟩
    · refine ⟨by omega, fun _ hrunning => ?_⟩
      rw [hwaits] at hrunning
      cases hrunning
  have hturn := runTurn_withStepLimit hfree hbefore.2 s.2
  rw [ht] at hturn
  exact .step _ _ (hreaches hbefore.1) hturn

/-- A run that never comes to the fetch after `limit` instructions executes no more than these. -/
theorem steps_le_of_not_fetching (hle : m.steps ≤ limit)
    (hno : ∀ s, Turn.Reaches runTurn (m, c) s → ¬ s.1.FetchesAfter limit) {s : Machine × Channel σ}
    (hs : Turn.Reaches runTurn (m, c) s) : s.1.steps ≤ limit := by
  refine (hs.invariant (P := fun s => Turn.Reaches runTurn (m, c) s ∧ s.1.steps ≤ limit)
    ⟨.start, hle⟩ ?_).2
  intro s s' ⟨hreaches, hle⟩ ht
  have hd := drive s.1 s.2
  rw [ht] at hd
  refine ⟨.step s s' hreaches ht, ?_⟩
  obtain ⟨hf, ⟨hrunning, hsteps⟩ | ⟨-, hsteps⟩⟩ := count_of_drive hd
  · have hne : s.1.steps ≠ limit := fun heq => hno s hreaches ⟨hf, hrunning, heq⟩
    omega
  · omega

/-- **A run that never comes to that fetch is the same with the limit**, however many turns it is given. -/
theorem run_withStepLimit (hfree : m.stepLimit = none) (hle : m.steps ≤ limit)
    (hno : ∀ s, Turn.Reaches runTurn (m, c) s → ¬ s.1.FetchesAfter limit) (fuel : Nat) :
    (m.withStepLimit limit).run fuel c = (m.run fuel c).map (boundedResult limit) := by
  refine Turn.run_map (bounded limit) (boundedResult limit) (s := (m, c)) (fun s hs => ?_) fuel
  have hcount := steps_le_of_not_fetching hle hno hs
  refine runTurn_withStepLimit (reaches_bounded limit hfree hs).1 (fun hf hrunning => ?_) s.2
  exact Nat.lt_of_le_of_ne hcount fun heq => hno s hs ⟨hf, hrunning, heq⟩

/-- **No more instructions than allowed** have been executed. -/
structure WithinLimit (limit : Nat) (m : Machine) : Prop where
  stepLimit : m.stepLimit = some limit
  steps : m.steps ≤ limit

theorem WithinLimit.step (h : m.WithinLimit limit) : m.step.1.WithinLimit limit := by
  refine ⟨m.stepLimit_step.trans h.stepLimit, ?_⟩
  have ht := m.transition
  generalize m.step.1 = m' at ht ⊢
  generalize m.step.2 = r at ht
  cases ht with
  | stopped | halted | waiting | resumed | unwritable | spent | unknown => exact h.steps
  | refused hf hs hsp op hop e he => exact steps_lt_of_not_spent h.stepLimit hsp
  | performed hf hs hsp op hop eff he =>
    rw [(steps_apply _ eff).1]
    exact steps_lt_of_not_spent h.stepLimit hsp

theorem WithinLimit.supply (h : m.WithinLimit limit) (answer : Answer) :
    (m.supply answer).1.WithinLimit limit where
  stepLimit := (m.stepLimit_supply answer).trans h.stepLimit
  steps := by
    rw [eq_of_supply Machine.steps (fun _ _ => rfl) rfl answer]
    exact h.steps

theorem WithinLimit.turn {s : Machine × Channel σ} (h : s.1.WithinLimit limit) :
    (leaves (runTurn s)).1.1.WithinLimit limit :=
  (drive s.1 s.2).keeps (fun _ h => h.step) (fun _ answer h => h.supply answer) h

theorem WithinLimit.reached (h : m.WithinLimit limit) {s : Machine × Channel σ}
    (hs : Turn.Reaches runTurn (m, c) s) : s.1.WithinLimit limit := by
  refine hs.invariant (P := fun s => s.1.WithinLimit limit) h ?_
  intro s s' h ht
  have hturn := h.turn
  rw [ht] at hturn
  exact hturn

/-- **A step limit only cuts a run short.** Take a machine without a step limit that has executed at most
    `limit` instructions, such as a fresh one, with any backlog, and any channel. If its run never comes to
    a fetch after `limit` instructions, then it ends, and the run with the limit ends in as many turns
    with the same result, in the same machine but for the limit, and with the same channel: the same
    values have been passed on and the same requests made. If the run does come to such a fetch, the run
    with the limit ends there, with the fault that names the limit and the address of the fetch. But for
    this fault and the limit it ends in the machine that is about to fetch, and with the channel as it is
    at that point. In every state of the run with the limit -- before a turn, between a step and the
    answer to it, and at the end -- no more than `limit` instructions have been executed. -/
theorem step_limit_cuts_run (limit : Nat) (hfree : m.stepLimit = none) (hle : m.steps ≤ limit)
    (c : Channel σ) :
    ((∀ s, Turn.Reaches runTurn (m, c) s → ¬ s.1.FetchesAfter limit) →
      ∃ fuel m' c' r, m.run fuel c = some ((m', c'), r) ∧
        (m.withStepLimit limit).run fuel c = some ((m'.withStepLimit limit, c'), r)) ∧
    (∀ s, Turn.Reaches runTurn (m, c) s → s.1.FetchesAfter limit →
      ∃ fuel, (m.withStepLimit limit).run fuel c =
        some (({ s.1 with stepLimit := some limit, fault := some (.stepLimit limit s.1.pc) }, s.2),
          .error (.stepLimit limit s.1.pc))) ∧
    ∀ s, Turn.Reaches runTurn (m.withStepLimit limit, c) s →
      s.1.steps ≤ limit ∧ s.1.step.1.steps ≤ limit ∧ (leaves (runTurn s)).1.1.steps ≤ limit := by
  refine ⟨fun hno => ?_, fun s hs hfetches => ?_, fun s hs => ?_⟩
  · obtain ⟨o, ho⟩ := Option.isSome_iff_exists.1
      (run_isSome_of_stepLimit (m := m.withStepLimit limit) rfl c)
    have hsame := run_withStepLimit hfree hle hno ((m.withStepLimit limit).unspent limit + 1)
    rw [ho] at hsame
    obtain ⟨⟨⟨m', c'⟩, r⟩, hrun, rfl⟩ := Option.map_eq_some_iff.1 hsame.symm
    exact ⟨_, m', c', r, hrun, ho⟩
  · have hreaches := (reaches_bounded limit hfree hs).2 (Nat.le_of_eq hfetches.steps)
    refine hreaches.ends (.of_done ?_)
    simp only [bounded, runTurn, hfetches.step]
  · have hwithin : s.1.WithinLimit limit :=
      WithinLimit.reached (m := m.withStepLimit limit) ⟨rfl, hle⟩ hs
    exact ⟨hwithin.steps, hwithin.step.steps, hwithin.turn.steps⟩

/-- A machine that asks for a value, puts it out and halts. With three instructions allowed it halts as
    without a limit; with two it is stopped at the halt instruction, when the value has been put out. -/
theorem step_limit_cuts_run_at_halt :
    let m := ofProgram [3, 0, 4, 0, 99]
    let c := Channel.ofProvider Replies.provider [.ok (.value 7)]
    (∃ fuel m' c', m.run fuel c = some ((m', c'), .ok ()) ∧
      (m.withStepLimit 3).run fuel c = some ((m'.withStepLimit 3, c'), .ok ())) ∧
    ∃ fuel s, Turn.Reaches runTurn (m, c) s ∧ s.1.FetchesAfter 2 ∧
      (m.withStepLimit 2).run fuel c =
        some (({ s.1 with stepLimit := some 2, fault := some (.stepLimit 2 s.1.pc) }, s.2),
          .error (.stepLimit 2 s.1.pc)) ∧
      s.1.pc = 4 ∧ s.2.emitted = #[7] ∧ s.2.requests = #[0] := by
  intro m c
  have hthree : ((m.withStepLimit 3).run 3 c).any (fun o => o.2.isOk) = true := by decide +kernel
  have hfree : (m.run 3 c).any (fun o => o.2.isOk) = true := by decide +kernel
  have htwo : ((m.withStepLimit 2).run 3 c).any (fun o => decide (o.2.isOk = false ∧ o.1.1.pc = 4 ∧
      o.1.2.emitted = #[7] ∧ o.1.2.requests = #[0])) = true := by decide +kernel
  obtain ⟨o₃, ho₃, hok₃⟩ := (Option.any_eq_true ..).1 hthree
  obtain ⟨o, ho, hok⟩ := (Option.any_eq_true ..).1 hfree
  obtain ⟨o₂, ho₂, hleft⟩ := (Option.any_eq_true ..).1 htwo
  obtain ⟨hfails, hpc, hemitted, hrequests⟩ := of_decide_eq_true hleft
  have hcut₃ := step_limit_cuts_run (m := m) 3 rfl (Nat.zero_le _) c
  have hcut₂ := step_limit_cuts_run (m := m) 2 rfl (Nat.zero_le _) c
  refine ⟨?_, ?_⟩
  · have hno : ∀ s, Turn.Reaches runTurn (m, c) s → ¬ s.1.FetchesAfter 3 := by
      intro s hs hfetches
      obtain ⟨fuel, hstopped⟩ := hcut₃.2.1 s hs hfetches
      rw [Turn.Ends.unique ⟨3, ho₃⟩ ⟨fuel, hstopped⟩] at hok₃
      cases hok₃
    obtain ⟨fuel, m', c', r, hrun, hbounded⟩ := hcut₃.1 hno
    rw [Turn.Ends.unique ⟨3, ho⟩ ⟨fuel, hrun⟩] at hok
    cases r with
    | error e => cases hok
    | ok u => exact ⟨fuel, m', c', hrun, hbounded⟩
  · by_cases hno : ∀ s, Turn.Reaches runTurn (m, c) s → ¬ s.1.FetchesAfter 2
    · obtain ⟨fuel, m', c', r, hrun, hbounded⟩ := hcut₂.1 hno
      rw [Turn.Ends.unique ⟨3, ho⟩ ⟨fuel, hrun⟩] at hok
      rw [Turn.Ends.unique ⟨3, ho₂⟩ ⟨fuel, hbounded⟩, hok] at hfails
      cases hfails
    · obtain ⟨s, hs, hfetches⟩ : ∃ s, Turn.Reaches runTurn (m, c) s ∧ s.1.FetchesAfter 2 := by
        simpa using hno
      obtain ⟨fuel, hstopped⟩ := hcut₂.2.1 s hs hfetches
      obtain rfl := Turn.Ends.unique ⟨3, ho₂⟩ ⟨fuel, hstopped⟩
      exact ⟨fuel, s, hs, hfetches, hstopped, hpc, hemitted, hrequests⟩

end WordMachine.Machine
