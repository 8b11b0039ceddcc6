import WordMachine.Machine

/-!
# What one step can do

`Machine.step` looks at the fault, the status, the backlog, the step limit, the opcode and the
parameters, in this order. This file says once what can come of it:

* `Machine.Transition` -- one rule for each way that a step can go, with everything that is known on
  that way;
* `Machine.transition` -- the step of a machine is one of these ways, and each of them says all of the step
  (`Transition.step_eq`);
* `Machine.output_step` -- from it: a step adds to the output exactly what it gives back.

The ways of `Machine.supply` are few enough for an equation each (`supply_of_fault` to
`supply_terminate`), and `Machine.supply_leaves` says what they can leave. `Machine.Ready` holds of every
machine that is stepped and answered: a machine that waits has an address for the answer, so that no
answer is refused (`Ready.supply_ok`). The last section says what is counted: a step of a running machine
that comes out well is one instruction (`count_of_step`), an answer is none.
-/

namespace WordMachine.Machine

/-! ## 1. The rules -/

/-- **The ways of a step**: from `m` to the machine that it leaves, with how it comes out. -/
inductive Transition (m : Machine) : Machine → Except Fault Step → Prop where
  /-- A fault that was kept is reported again. -/
  | stopped (e : Fault) (hf : m.fault = some e) : Transition m m (.error e)
  /-- A halted machine stays as it is. -/
  | halted (hf : m.fault = none) (hs : m.status = .halted) : Transition m m (.ok .halted)
  /-- A machine that waits stays as it is while its backlog is empty. -/
  | waiting (hf : m.fault = none) (hs : m.status = .awaitingInput) (hb : m.backlog = []) :
      Transition m m (.ok .needsInput)
  /-- A machine that waits takes the value that has come into its backlog. -/
  | resumed (hf : m.fault = none) (hs : m.status = .awaitingInput) (w : Word) (rest : List Word)
      (hb : m.backlog = w :: rest) (a : Nat) (ht : m.inputTarget = .ok a) :
      Transition m ({ m with backlog := rest }.takeInput a w) (.ok .executed)
  /-- A machine that waits on an address that cannot be written. -/
  | unwritable (hf : m.fault = none) (hs : m.status = .awaitingInput) (w : Word) (rest : List Word)
      (hb : m.backlog = w :: rest) (e : Fault) (ht : m.inputTarget = .error e) :
      Transition m { m with backlog := rest, fault := some e } (.error e)
  /-- The instructions allowed are used up. -/
  | spent (hf : m.fault = none) (hs : m.status = .running) (e : Fault) (hsp : m.spent? = some e) :
      Transition m { m with fault := some e } (.error e)
  /-- The opcode is not in the table. -/
  | unknown (hf : m.fault = none) (hs : m.status = .running) (hsp : m.spent? = none)
      (hop : m.instruction.op? = none) :
      Transition m { m with fault := some (.decode m.instruction.opcode m.pc) }
        (.error (.decode m.instruction.opcode m.pc))
  /-- A parameter cannot be used. -/
  | refused (hf : m.fault = none) (hs : m.status = .running) (hsp : m.spent? = none) (op : Opcode)
      (hop : m.instruction.op? = some op) (e : Fault) (he : m.effect m.instruction op = .error e) :
      Transition m { m with steps := m.steps + 1, fault := some e } (.error e)
  /-- The instruction is executed. -/
  | performed (hf : m.fault = none) (hs : m.status = .running) (hsp : m.spent? = none) (op : Opcode)
      (hop : m.instruction.op? = some op) (eff : Effect) (he : m.effect m.instruction op = .ok eff) :
      Transition m ({ m with steps := m.steps + 1 }.apply eff).1
        (.ok ({ m with steps := m.steps + 1 }.apply eff).2)

/-- Where the instructions allowed are used up, the machine has a limit, and the fault names it. -/
theorem exists_limit_of_spent {m : Machine} {e : Fault} (h : m.spent? = some e) :
    ∃ limit, m.stepLimit = some limit ∧ limit ≤ m.steps ∧ e = .stepLimit limit m.pc := by
  unfold spent? at h
  split at h
  · rename_i limit hlimit
    split at h
    · rename_i hle
      cases h
      exact ⟨limit, hlimit, hle, rfl⟩
    · cases h
  · cases h

theorem step_of_running {m : Machine} (hf : m.fault = none) (hs : m.status = .running) :
    m.step = match m.fetch with
      | (m, .error e) => ({ m with fault := some e }, .error e)
      | (m, .ok s) => (m, .ok s) := by
  have hadvance : m.advance = m.fetch := by simp only [advance, hs]
  rcases hfetch : m.fetch with ⟨m', e | s⟩
  · simp only [step, hf, hadvance, hfetch]
  · simp only [step, hf, hadvance, hfetch]

theorem step_of_resumable {m : Machine} (hf : m.fault = none) (hs : m.status = .awaitingInput)
    {w : Word} {rest : List Word} (hb : m.backlog = w :: rest) :
    m.step = match m.inputTarget with
      | .ok a => ({ m with backlog := rest }.takeInput a w, .ok .executed)
      | .error e => ({ m with backlog := rest, fault := some e }, .error e) := by
  obtain ⟨memory, pc, base, status, backlog, output, inputs, steps, limit, idle, last, fault⟩ := m
  simp only at hf hs hb
  subst hf hs hb
  cases ht : inputTarget ⟨memory, pc, base, .awaitingInput, w :: rest, output, inputs, steps, limit, idle,
    last, none⟩ with
  | error e =>
    have ht' : inputTarget ⟨memory, pc, base, .awaitingInput, rest, output, inputs, steps, limit, idle,
      last, none⟩ = .error e := ht
    simp only [step, advance, completeInput, ht', Except.map]
  | ok a =>
    have ht' : inputTarget ⟨memory, pc, base, .awaitingInput, rest, output, inputs, steps, limit, idle,
      last, none⟩ = .ok a := ht
    simp only [step, advance, completeInput, ht', Except.map]

/-- The ways of a step that fetches. -/
theorem transition_fetch {m : Machine} (hf : m.fault = none) (hs : m.status = .running) :
    Transition m m.step.1 m.step.2 := by
  rw [step_of_running hf hs]
  unfold fetch
  cases hsp : m.spent? with
  | some e => exact .spent hf hs e hsp
  | none =>
    cases hop : m.instruction.op? with
    | none =>
      simp only [hop]
      exact .unknown hf hs hsp hop
    | some op =>
      simp only [hop]
      cases he : m.effect m.instruction op with
      | error e => exact .refused hf hs hsp op hop e he
      | ok eff => exact .performed hf hs hsp op hop eff he

/-- **A step goes one of the ways.** -/
theorem transition (m : Machine) : Transition m m.step.1 m.step.2 := by
  cases hf : m.fault with
  | some e =>
    have hstep : m.step = (m, .error e) := by simp only [step, hf]
    rw [hstep]
    exact .stopped e hf
  | none =>
    cases hs : m.status with
    | running => exact transition_fetch hf hs
    | halted =>
      have hstep : m.step = (m, .ok .halted) := by simp only [step, advance, hf, hs]
      rw [hstep]
      exact .halted hf hs
    | awaitingInput =>
      cases hb : m.backlog with
      | nil =>
        have hstep : m.step = (m, .ok .needsInput) := by simp only [step, advance, hf, hs, hb]
        rw [hstep]
        exact .waiting hf hs hb
      | cons w rest =>
        rw [step_of_resumable hf hs hb]
        cases ht : m.inputTarget with
        | error e => exact .unwritable hf hs w rest hb e ht
        | ok a => exact .resumed hf hs w rest hb a ht

/-- **The rules say all of a step**: each of them gives the step itself. -/
theorem Transition.step_eq {m m' : Machine} {r : Except Fault Step} (h : Transition m m' r) :
    m.step = (m', r) := by
  cases h with
  | stopped e hf => simp only [step, hf]
  | halted hf hs => simp only [step, advance, hf, hs]
  | waiting hf hs hb => simp only [step, advance, hf, hs, hb]
  | resumed hf hs w rest hb a ht | unwritable hf hs w rest hb e ht =>
    rw [step_of_resumable hf hs hb, ht]
  | spent hf hs e hsp =>
    rw [step_of_running hf hs]
    simp only [fetch, hsp]
  | unknown hf hs hsp hop =>
    rw [step_of_running hf hs]
    simp only [fetch, hsp, hop]
  | refused hf hs hsp op hop e he | performed hf hs hsp op hop eff he =>
    rw [step_of_running hf hs]
    simp only [fetch, hsp, hop, he]

theorem apply_take_cons {m : Machine} {a : Nat} {w : Word} {rest : List Word}
    (h : m.backlog = w :: rest) :
    m.apply (.take a) = ({ m with backlog := rest }.takeInput a w, .executed) := by
  simp only [apply, h]

theorem apply_take_nil {m : Machine} {a : Nat} (h : m.backlog = []) :
    m.apply (.take a) = ({ m with status := .awaitingInput }, .needsInput) := by
  simp only [apply, h]

/-! ## 2. What follows for the output -/

/-- The word that a step puts out. -/
def Step.word? : Except Fault Step → Option Word
  | .ok (.output w) => some w
  | _ => none

theorem output_apply (m : Machine) (eff : Effect) :
    (m.apply eff).1.output.toList =
      m.output.toList ++ (Step.word? (.ok (m.apply eff).2)).toList := by
  cases eff with
  | take a =>
    cases hb : m.backlog with
    | nil => simp [apply, hb, Step.word?]
    | cons w rest => simp [apply, hb, takeInput, store, Step.word?]
  | emit w => simp [apply, Step.word?]
  | store a w => simp [apply, store, Step.word?]
  | jump t => simp [apply, Step.word?]
  | pass => simp [apply, Step.word?]
  | moveBase d => simp [apply, Step.word?]
  | halt => simp [apply, Step.word?]

/-- **A step adds to the output exactly what it gives back.** -/
theorem output_step (m : Machine) :
    m.step.1.output.toList = m.output.toList ++ (Step.word? m.step.2).toList := by
  have h := m.transition
  generalize m.step.1 = m' at h ⊢
  generalize m.step.2 = r at h ⊢
  cases h with
  | performed hf hs hsp op hop eff he => exact output_apply _ eff
  | _ => simp [Step.word?, takeInput, store]

/-! ## 3. Answers -/

theorem supply_of_fault {m : Machine} {e : Fault} (hf : m.fault = some e) (answer : Answer) :
    m.supply answer = (m, .error e) := by
  simp only [supply, hf]

theorem supply_of_not_awaiting {m : Machine} (hf : m.fault = none) (hs : m.status ≠ .awaitingInput)
    (answer : Answer) : m.supply answer = (m, .error (.notAwaitingInput m.pc)) := by
  cases h : m.status with
  | awaitingInput => exact absurd h hs
  | running => simp only [supply, hf, h]
  | halted => simp only [supply, hf, h]

theorem supply_value {m : Machine} (hf : m.fault = none) (hs : m.status = .awaitingInput) (w : Word) :
    m.supply (.value w) = m.completeInput w := by
  simp only [supply, hf, hs]

theorem supply_noValue {m : Machine} (hf : m.fault = none) (hs : m.status = .awaitingInput) :
    m.supply .noValue = m.completeInput m.idleInput := by
  simp only [supply, hf, hs]

theorem supply_terminate {m : Machine} (hf : m.fault = none) (hs : m.status = .awaitingInput) :
    m.supply .terminate = ({ m with status := .halted }, .ok ()) := by
  simp only [supply, hf, hs]

theorem completeInput_of_ok {m : Machine} {a : Nat} (h : m.inputTarget = .ok a) (w : Word) :
    m.completeInput w = (m.takeInput a w, .ok ()) := by
  simp only [completeInput, h]

theorem completeInput_leaves (m : Machine) (w : Word) :
    (m.completeInput w).1 = m ∨ ∃ a, (m.completeInput w).1 = m.takeInput a w := by
  unfold completeInput
  split
  · exact .inr ⟨_, rfl⟩
  · exact .inl rfl

/-- **What an answer leaves**: the machine as it was, with a value taken, or halted. -/
theorem supply_leaves (m : Machine) (answer : Answer) :
    (m.supply answer).1 = m ∨ (∃ a w, (m.supply answer).1 = m.takeInput a w) ∨
      (m.supply answer).1 = { m with status := .halted } := by
  have hcomplete : ∀ w, (m.completeInput w).1 = m ∨ (∃ a w', (m.completeInput w).1 = m.takeInput a w') ∨
      (m.completeInput w).1 = { m with status := .halted } := by
    intro w
    rcases m.completeInput_leaves w with h | ⟨a, h⟩
    · exact .inl h
    · exact .inr (.inl ⟨a, w, h⟩)
  by_cases hf : m.fault = none
  · by_cases hs : m.status = .awaitingInput
    · cases answer with
      | value w =>
        rw [supply_value hf hs]
        exact hcomplete w
      | noValue =>
        rw [supply_noValue hf hs]
        exact hcomplete m.idleInput
      | terminate =>
        rw [supply_terminate hf hs]
        exact .inr (.inr rfl)
    · rw [supply_of_not_awaiting hf hs]
      exact .inl rfl
  · obtain ⟨e, he⟩ := Option.ne_none_iff_exists'.1 hf
    rw [supply_of_fault he]
    exact .inl rfl

/-- What neither a value taken nor a halt changes, no answer changes. -/
theorem eq_of_supply {α : Type} {m : Machine} (f : Machine → α)
    (htake : ∀ a w, f (m.takeInput a w) = f m) (hhalt : f { m with status := .halted } = f m)
    (answer : Answer) : f (m.supply answer).1 = f m := by
  rcases m.supply_leaves answer with h | ⟨a, w, h⟩ | h
  · rw [h]
  · rw [h, htake]
  · rw [h, hhalt]

/-- An answer puts nothing out. -/
theorem output_supply (m : Machine) (answer : Answer) : (m.supply answer).1.output = m.output :=
  eq_of_supply output (fun _ _ => rfl) rfl answer

/-- An answer is no fault of the machine, even if it is refused. -/
theorem fault_supply (m : Machine) (answer : Answer) : (m.supply answer).1.fault = m.fault :=
  eq_of_supply fault (fun _ _ => rfl) rfl answer

theorem stepLimit_supply (m : Machine) (answer : Answer) :
    (m.supply answer).1.stepLimit = m.stepLimit :=
  eq_of_supply stepLimit (fun _ _ => rfl) rfl answer

/-! ## 4. Requests -/

/-- A machine that waits has an address to put the answer at. -/
def Ready (m : Machine) : Prop :=
  m.fault = none → m.status = .awaitingInput → ∃ a, m.inputTarget = .ok a

theorem combine_ne_take (m : Machine) (i : Instruction) (f : Word → Word → Word) (a : Nat) :
    m.combine i f ≠ .ok (.take a) := by
  unfold combine
  cases m.param i .first with
  | error e => nofun
  | ok v =>
    cases m.param i .second with
    | error e => nofun
    | ok w => cases m.target i .third <;> nofun

theorem jumpWhen_ne_take (m : Machine) (i : Instruction) (test : Word → Bool) (a : Nat) :
    m.jumpWhen i test ≠ .ok (.take a) := by
  unfold jumpWhen
  cases m.param i .first with
  | error e => nofun
  | ok v =>
    cases m.param i .second with
    | error e => nofun
    | ok w =>
      show (if test v then _ else _) ≠ _
      split
      · cases Word.address? w <;> nofun
      · nofun

/-- Only the input instruction takes an input, and it does so at its first parameter. -/
theorem input_of_take {m : Machine} {i : Instruction} {op : Opcode} {a : Nat}
    (h : m.effect i op = .ok (.take a)) : op = .input ∧ m.target i .first = .ok a := by
  cases op with
  | input =>
    unfold effect at h
    cases ht : m.target i .first with
    | error e =>
      rw [ht] at h
      cases h
    | ok b =>
      rw [ht] at h
      cases h
      exact ⟨rfl, rfl⟩
  | add | mul | lessThan | equals => exact absurd h (combine_ne_take m i _ a)
  | jumpIfTrue | jumpIfFalse => exact absurd h (jumpWhen_ne_take m i _ a)
  | output =>
    unfold effect at h
    cases hp : m.param i .first <;> rw [hp] at h <;> cases h
  | adjustBase =>
    unfold effect at h
    cases hp : m.param i .first <;> rw [hp] at h <;> cases h
  | halt => cases h

theorem Ready.step {m : Machine} (h : m.Ready) : m.step.1.Ready := by
  have ht := m.transition
  generalize m.step.1 = m' at ht ⊢
  generalize m.step.2 = r at ht
  cases ht with
  | stopped | halted | waiting => exact h
  | resumed | unwritable | spent | unknown | refused => nofun
  | performed hf hs hsp op hop eff he =>
    intro hf' hs'
    cases eff with
    | take a =>
      cases hb : m.backlog with
      | nil =>
        simp only [apply]
        exact ⟨a, (input_of_take he).2⟩
      | cons w rest => simp [apply, hb, takeInput] at hs'
    | _ => simp [apply, store, hs] at hs'

theorem Ready.supply_ok {m : Machine} (h : m.Ready) (hf : m.fault = none)
    (hs : m.status = .awaitingInput) (answer : Answer) : (m.supply answer).2 = .ok () := by
  obtain ⟨a, ha⟩ := h hf hs
  cases answer with
  | value w => rw [supply_value hf hs, completeInput_of_ok ha]
  | noValue => rw [supply_noValue hf hs, completeInput_of_ok ha]
  | terminate => rw [supply_terminate hf hs]

theorem Ready.supply {m : Machine} (h : m.Ready) (answer : Answer) : (m.supply answer).1.Ready := by
  cases hf : m.fault with
  | some e =>
    rw [supply_of_fault hf]
    exact h
  | none =>
    by_cases hs : m.status = .awaitingInput
    · obtain ⟨a, ha⟩ := h hf hs
      cases answer with
      | value w =>
        rw [supply_value hf hs, completeInput_of_ok ha]
        nofun
      | noValue =>
        rw [supply_noValue hf hs, completeInput_of_ok ha]
        nofun
      | terminate =>
        rw [supply_terminate hf hs]
        nofun
    · rw [supply_of_not_awaiting hf hs]
      exact h

/-! ## 5. Counting -/

/-- The status that a step leaves, told from how it comes out. -/
def Step.status : Step → Status
  | .executed | .output _ => .running
  | .needsInput => .awaitingInput
  | .halted => .halted

theorem status_apply {m : Machine} (hs : m.status = .running) (eff : Effect) :
    (m.apply eff).1.status = (m.apply eff).2.status := by
  cases eff with
  | take a =>
    cases hb : m.backlog with
    | nil =>
      rw [apply_take_nil hb]
      rfl
    | cons w rest =>
      rw [apply_take_cons hb]
      rfl
  | halt => rfl
  | store a w => exact hs
  | emit w => exact hs
  | jump t => exact hs
  | pass => exact hs
  | moveBase d => exact hs

theorem steps_apply (m : Machine) (eff : Effect) :
    (m.apply eff).1.steps = m.steps ∧ (m.apply eff).1.fault = m.fault := by
  cases eff with
  | take a =>
    cases hb : m.backlog with
    | nil =>
      rw [apply_take_nil hb]
      exact ⟨rfl, rfl⟩
    | cons w rest =>
      rw [apply_take_cons hb]
      exact ⟨rfl, rfl⟩
  | store | emit | jump | pass | moveBase | halt => exact ⟨rfl, rfl⟩

/-- A running machine whose step does not fail executes an instruction. -/
theorem performed_of_step {m m' : Machine} {s : Step} (hf : m.fault = none) (hs : m.status = .running)
    (h : m.step = (m', .ok s)) :
    m.spent? = none ∧ ∃ op eff, m.instruction.op? = some op ∧ m.effect m.instruction op = .ok eff ∧
      { m with steps := m.steps + 1 }.apply eff = (m', s) := by
  have ht := m.transition
  rw [h] at ht
  generalize hr : Except.ok s = r at ht
  cases ht with
  | stopped | unwritable | spent | unknown | refused => cases hr
  | halted _ hs' | waiting _ hs' | resumed _ hs' =>
    rw [hs] at hs'
    cases hs'
  | performed _ _ hsp op hop eff he =>
    cases hr
    exact ⟨hsp, op, eff, hop, he, rfl⟩

theorem step_of_performed {m m' : Machine} {s : Step} {op : Opcode} {eff : Effect} (hf : m.fault = none)
    (hs : m.status = .running) (hsp : m.spent? = none) (hop : m.instruction.op? = some op)
    (he : m.effect m.instruction op = .ok eff)
    (happly : { m with steps := m.steps + 1 }.apply eff = (m', s)) : m.step = (m', .ok s) := by
  rw [(Transition.performed hf hs hsp op hop eff he).step_eq, happly]

/-- A running machine whose step does not fail has executed one more instruction. -/
theorem step_of_running_ok {m m' : Machine} {s : Step} (hf : m.fault = none) (hs : m.status = .running)
    (h : m.step = (m', .ok s)) :
    m'.steps = m.steps + 1 ∧ m'.fault = none ∧ m'.status = s.status := by
  obtain ⟨-, op, eff, -, -, happly⟩ := performed_of_step hf hs h
  obtain ⟨hsteps, hfault⟩ := steps_apply { m with steps := m.steps + 1 } eff
  have hstatus := status_apply (m := { m with steps := m.steps + 1 }) hs eff
  rw [happly] at hsteps hfault hstatus
  exact ⟨hsteps, hfault.trans hf, hstatus⟩

/-- A step that comes out well begins and ends without a fault. -/
theorem fault_of_step_ok {m m' : Machine} {s : Step} (h : m.step = (m', .ok s)) :
    m.fault = none ∧ m'.fault = none := by
  have ht := m.transition
  rw [h] at ht
  generalize hr : Except.ok s = r at ht
  cases ht with
  | stopped | unwritable | spent | unknown | refused => cases hr
  | halted hf | waiting hf | resumed hf => exact ⟨hf, hf⟩
  | performed hf hs => exact ⟨hf, (step_of_running_ok hf hs h).2.1⟩

/-- **What a step that comes out well counts**: a running machine executes one instruction, and one that
    waits or has halted none. -/
theorem count_of_step {m m' : Machine} {s : Step} (h : m.step = (m', .ok s)) :
    m'.status = s.status ∧
      ((m.status = .running ∧ m.spent? = none ∧ m'.steps = m.steps + 1) ∨
        (m.status = .awaitingInput ∧ m'.steps = m.steps) ∨ (m.status = .halted ∧ s = .halted)) := by
  have ht := m.transition
  rw [h] at ht
  generalize hr : Except.ok s = r at ht
  cases ht with
  | stopped | unwritable | spent | unknown | refused => cases hr
  | halted hf hs =>
    cases hr
    exact ⟨hs, .inr (.inr ⟨hs, rfl⟩)⟩
  | waiting hf hs hb =>
    cases hr
    exact ⟨hs, .inr (.inl ⟨hs, rfl⟩)⟩
  | resumed hf hs =>
    cases hr
    exact ⟨rfl, .inr (.inl ⟨hs, rfl⟩)⟩
  | performed hf hs hsp =>
    obtain ⟨hsteps, -, hstatus⟩ := step_of_running_ok hf hs h
    exact ⟨hstatus, .inl ⟨hs, hsp, hsteps⟩⟩

/-- A machine whose step asks for input waits for it. -/
theorem awaiting_of_needsInput {m m' : Machine} (h : m.step = (m', .ok .needsInput)) :
    m'.fault = none ∧ m'.status = .awaitingInput :=
  ⟨(fault_of_step_ok h).2, (count_of_step h).1⟩

/-- An answer that is taken ends the waiting and is no instruction of its own. -/
theorem supply_of_awaiting_ok {m m' : Machine} (hf : m.fault = none) (hs : m.status = .awaitingInput)
    {answer : Answer} (h : m.supply answer = (m', .ok ())) :
    m'.steps = m.steps ∧ m'.fault = none ∧ m'.status ≠ .awaitingInput := by
  have hcomplete : ∀ w, m.completeInput w = (m', .ok ()) →
      m'.steps = m.steps ∧ m'.fault = none ∧ m'.status ≠ .awaitingInput := by
    intro w hw
    unfold completeInput at hw
    split at hw
    · cases hw
      exact ⟨rfl, hf, nofun⟩
    · cases hw
  cases answer with
  | value w =>
    rw [supply_value hf hs] at h
    exact hcomplete w h
  | noValue =>
    rw [supply_noValue hf hs] at h
    exact hcomplete _ h
  | terminate =>
    rw [supply_terminate hf hs] at h
    cases h
    exact ⟨rfl, hf, nofun⟩

end WordMachine.Machine
