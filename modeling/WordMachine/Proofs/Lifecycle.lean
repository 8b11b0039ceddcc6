import WordMachine.Machine.Run
import WordMachine.Proofs.Transition

/-!
# The life of a machine

Whoever holds a machine sets it up, gives it input, steps it, resumes it, runs it and answers it, in any
order. This file says what holds of the machine at every point of such a life.

* `Machine.Drive` -- the ways of one turn of a run, as `Machine.Transition` has those of a step;
* `Machine.Operation`, `Machine.Does`, `Machine.Life` -- the operations, where one of them leads, and
  where any number of them lead; `Machine.Reachable` are the machines that a life leads to;
* `Machine.Preserved` -- what steps and answers keep, every operation keeps (`Preserved.does`), and so it
  holds of every reachable machine (`Preserved.reachable`);
* `Machine.Consistent` -- a machine that waits does so at an input instruction that can be completed, and
  a machine with a fault stands at the instruction at fault. This is preserved;
* `Machine.Ended` and `Machine.Still` -- a machine that has halted or failed executes nothing any more,
  whatever is done with it (`Life.still`);
* `Machine.reachable_lifecycle` -- both together, of every reachable machine;
* `Machine.failed_step_final` -- a step that fails changes nothing but the fault and the count of
  instructions, and it is the last.
-/

namespace WordMachine.Machine

variable {σ : Type}

/-! ## 1. The faults of an instruction -/

/-- Every fault that a result may have is of one kind. -/
def Raises (P : Fault → Prop) {α : Type} (r : Except Fault α) : Prop := ∀ e, r = .error e → P e

section Raises

variable {P : Fault → Prop}

theorem raises_ok {α : Type} (a : α) : Raises P (.ok a : Except Fault α) := nofun

theorem raises_error {α : Type} {e : Fault} (h : P e) : Raises P (.error e : Except Fault α) := by
  intro e' he
  cases he
  exact h

theorem Raises.bind {α β : Type} {r : Except Fault α} {f : α → Except Fault β} (hr : Raises P r)
    (hf : ∀ a, Raises P (f a)) : Raises P (r >>= f) := by
  cases r with
  | error e => exact raises_error (hr e rfl)
  | ok a => exact hf a

theorem raises_at {α : Type} {pc : Nat} {opcode : Word} (h : ∀ f : AccessFault, P (f.at pc opcode))
    (r : Except AccessFault α) : Raises P (r.mapError (·.at pc opcode)) := by
  cases r with
  | ok a => exact raises_ok a
  | error f => exact raises_error (h f)

variable {m : Machine} {i : Instruction}

theorem raises_combine (h : ∀ f : AccessFault, P (f.at m.pc i.opcode)) (f : Word → Word → Word) :
    Raises P (m.combine i f) := by
  refine Raises.bind (raises_at h _) fun a => ?_
  refine Raises.bind (raises_at h _) fun b => ?_
  exact Raises.bind (raises_at h _) fun c => raises_ok _

theorem raises_jumpWhen (h : ∀ f : AccessFault, P (f.at m.pc i.opcode)) (test : Word → Bool) :
    Raises P (m.jumpWhen i test) := by
  refine Raises.bind (raises_at h _) fun a => ?_
  refine Raises.bind (raises_at h _) fun b => ?_
  split
  · cases Word.address? b with
    | some t => exact raises_ok _
    | none => exact raises_error (h (.negativeAddress b))
  · exact raises_ok _

/-- **An instruction that cannot be done has a parameter that cannot be used.** -/
theorem raises_effect (h : ∀ f : AccessFault, P (f.at m.pc i.opcode)) (op : Opcode) :
    Raises P (m.effect i op) := by
  cases op with
  | add | mul | lessThan | equals => exact raises_combine h _
  | jumpIfTrue | jumpIfFalse => exact raises_jumpWhen h _
  | input => exact Raises.bind (raises_at h _) fun a => raises_ok _
  | output | adjustBase => exact Raises.bind (raises_at h _) fun a => raises_ok _
  | halt => exact raises_ok _

end Raises

/-- The fault of an instruction names it. -/
theorem pc?_at (pc : Nat) (opcode : Word) (f : AccessFault) : (f.at pc opcode).pc? = some pc := by
  cases f <;> rfl

theorem pc?_of_spent {m : Machine} {e : Fault} (h : m.spent? = some e) : e.pc? = some m.pc := by
  obtain ⟨limit, -, -, rfl⟩ := exists_limit_of_spent h
  rfl

/-! ## 2. One turn of a run -/

/-- **The ways of a turn** of a machine that runs through a channel. -/
inductive Drive (m : Machine) (c : Channel σ) :
    Turn (Machine × Channel σ) ((Machine × Channel σ) × Except Fault Unit) → Prop where
  /-- An instruction is executed. -/
  | executed (m' : Machine) (h : m.step = (m', .ok .executed)) : Drive m c (.more (m', c))
  /-- A value is put out and passed on. -/
  | emitted (m' : Machine) (w : Word) (h : m.step = (m', .ok (.output w))) :
      Drive m c (.more (m', c.emit w))
  /-- The machine halts, or has halted. -/
  | halted (m' : Machine) (h : m.step = (m', .ok .halted)) : Drive m c (.done ((m', c), .ok ()))
  /-- The step fails. -/
  | failed (m' : Machine) (e : Fault) (h : m.step = (m', .error e)) :
      Drive m c (.done ((m', c), .error e))
  /-- The machine waits, and there is nobody to ask. -/
  | unavailable (m' : Machine) (h : m.step = (m', .ok .needsInput)) (c' : Channel σ)
      (hc : c.request m'.inputs = (none, c')) :
      Drive m c (.done ((m', c'), .error (.inputUnavailable m'.pc)))
  /-- The machine waits, and who is asked fails. -/
  | unanswered (m' : Machine) (h : m.step = (m', .ok .needsInput)) (c' : Channel σ) (message : String)
      (hc : c.request m'.inputs = (some (.error message), c')) :
      Drive m c (.done ((m', c'), .error (.provider message m'.pc)))
  /-- The machine waits and is answered. -/
  | answered (m' : Machine) (h : m.step = (m', .ok .needsInput)) (c' : Channel σ) (answer : Answer)
      (hc : c.request m'.inputs = (some (.ok answer), c')) (m'' : Machine)
      (hs : m'.supply answer = (m'', .ok ())) : Drive m c (.more (m'', c'))
  /-- The machine waits, and the answer is refused. -/
  | refused (m' : Machine) (h : m.step = (m', .ok .needsInput)) (c' : Channel σ) (answer : Answer)
      (hc : c.request m'.inputs = (some (.ok answer), c')) (m'' : Machine) (e : Fault)
      (hs : m'.supply answer = (m'', .error e)) : Drive m c (.done ((m'', c'), .error e))

/-- **A turn goes one of the ways.** -/
theorem drive (m : Machine) (c : Channel σ) : Drive m c (runTurn (m, c)) := by
  rcases hstep : m.step with ⟨m', e | s⟩
  · simp only [runTurn, hstep]
    exact .failed m' e hstep
  · cases s with
    | executed =>
      simp only [runTurn, hstep]
      exact .executed m' hstep
    | output w =>
      simp only [runTurn, hstep]
      exact .emitted m' w hstep
    | halted =>
      simp only [runTurn, hstep]
      exact .halted m' hstep
    | needsInput =>
      simp only [runTurn, hstep, answerFrom]
      rcases hc : c.request m'.inputs with ⟨_ | (message | answer), c'⟩
      · exact .unavailable m' hstep c' hc
      · exact .unanswered m' hstep c' message hc
      · simp only
        rcases hs : m'.supply answer with ⟨m'', e | u⟩
        · exact .refused m' hstep c' answer hc m'' e hs
        · exact .answered m' hstep c' answer hc m'' hs

/-- What a turn of a run leaves, and whether it has failed. -/
def leaves : Turn (Machine × Channel σ) ((Machine × Channel σ) × Except Fault Unit) →
    (Machine × Channel σ) × Except Fault Unit
  | .more s => (s, .ok ())
  | .done r => r

/-- A turn of a run is a step, and perhaps an answer; so it keeps what these keep. -/
theorem Drive.keeps {P : Machine → Prop} (step : ∀ m, P m → P m.step.1)
    (supply : ∀ m answer, P m → P (m.supply answer).1) {m : Machine} {c : Channel σ}
    {t : Turn (Machine × Channel σ) ((Machine × Channel σ) × Except Fault Unit)} (hd : Drive m c t)
    (h : P m) : P (leaves t).1.1 := by
  have hstep := step m h
  cases hd with
  | executed m' hm | emitted m' w hm | halted m' hm | failed m' e hm | unavailable m' hm
  | unanswered m' hm =>
    rw [hm] at hstep
    exact hstep
  | answered m' hm c' answer hc m'' hs | refused m' hm c' answer hc m'' e hs =>
    rw [hm] at hstep
    have hsupply := supply m' answer hstep
    rw [hs] at hsupply
    exact hsupply

theorem resumeTurn_more {m m' : Machine} (h : m.resumeTurn = .more m') :
    m.step = (m', .ok .executed) := by
  unfold resumeTurn at h
  rcases hstep : m.step with ⟨m'', e | s⟩
  · simp only [hstep] at h
    cases h
  · cases s <;> simp only [hstep] at h <;> cases h
    rfl

theorem resumeTurn_done {m m' : Machine} {r : Except Fault Pause} (h : m.resumeTurn = .done (m', r)) :
    m.step.1 = m' := by
  unfold resumeTurn at h
  rcases hstep : m.step with ⟨m'', e | s⟩
  · simp only [hstep] at h
    cases h
    rfl
  · cases s <;> simp only [hstep] at h <;> cases h <;> rfl

/-! ## 3. Operations -/

/-- What can be done with a machine. -/
inductive Operation : Type 1 where
  | withInput (input : List Word)
  | withStepLimit (limit : Nat)
  | withIdleInput (value : Word)
  | pushInput (value : Word)
  | step
  | resume
  | supply (answer : Answer)
  | run {σ : Type} (c : Channel σ)

/-- The values that an operation puts at the end of the backlog. -/
def Operation.pushed : Operation → List Word
  | .withInput input => input
  | .pushInput value => [value]
  | .withStepLimit _ | .withIdleInput _ | .step | .resume | .supply _ | .run _ => []

/-- **One operation**: from a machine to the one that it leaves. Resuming and running lead anywhere only
    if they come to an end. -/
inductive Does (m : Machine) : Operation → Machine → Prop where
  | withInput (input : List Word) : Does m (.withInput input) (m.withInput input)
  | withStepLimit (limit : Nat) : Does m (.withStepLimit limit) (m.withStepLimit limit)
  | withIdleInput (value : Word) : Does m (.withIdleInput value) (m.withIdleInput value)
  | pushInput (value : Word) : Does m (.pushInput value) (m.pushInput value)
  | step : Does m .step m.step.1
  | resume (fuel : Nat) (m' : Machine) (r : Except Fault Pause) (h : m.resume fuel = some (m', r)) :
      Does m .resume m'
  | supply (answer : Answer) : Does m (.supply answer) (m.supply answer).1
  | run {σ : Type} (c : Channel σ) (fuel : Nat) (m' : Machine) (c' : Channel σ) (r : Except Fault Unit)
      (h : m.run fuel c = some ((m', c'), r)) : Does m (.run c) m'

/-- **A life**: operations one after the other. -/
inductive Life : Machine → List Operation → Machine → Prop where
  | none (m : Machine) : Life m [] m
  | cons (m m' m'' : Machine) (op : Operation) (ops : List Operation) (h : Does m op m')
      (hl : Life m' ops m'') : Life m (op :: ops) m''

/-- The machines that a life leads to, from any memory. -/
def Reachable (m : Machine) : Prop := ∃ memory ops, Life (ofMemory memory) ops m

/-! ## 4. What every operation keeps -/

/-- **What the steps and the answers of a machine keep**, and what is set from outside does not touch. -/
structure Preserved (P : Machine → Prop) : Prop where
  setUp : ∀ (m : Machine) (backlog : List Word) (stepLimit : Option Nat) (idleInput : Word), P m →
    P { m with backlog, stepLimit, idleInput }
  step : ∀ m, P m → P m.step.1
  supply : ∀ m answer, P m → P (m.supply answer).1

theorem Preserved.drive {P : Machine → Prop} (hP : Preserved P) {m : Machine} {c : Channel σ}
    {t : Turn (Machine × Channel σ) ((Machine × Channel σ) × Except Fault Unit)} (hd : Drive m c t)
    (h : P m) : P (leaves t).1.1 :=
  hd.keeps hP.step hP.supply h

theorem Preserved.reached {P : Machine → Prop} (hP : Preserved P) {m : Machine} {c : Channel σ}
    {s : Machine × Channel σ} (hs : Turn.Reaches runTurn (m, c) s) (h : P m) : P s.1 := by
  refine hs.invariant (P := fun s => P s.1) h ?_
  intro s s' hm ht
  have hleaves := hP.drive (Machine.drive s.1 s.2) hm
  rw [ht] at hleaves
  exact hleaves

theorem Preserved.resumed {P : Machine → Prop} (hP : Preserved P) {m m' : Machine} {fuel : Nat}
    {r : Except Fault Pause} (hr : m.resume fuel = some (m', r)) (h : P m) : P m' := by
  refine Turn.run_invariant (P := P) (Q := fun r => P r.1) ?_ ?_ hr h
  · intro m m' hm ht
    have hstep := hP.step m hm
    rw [resumeTurn_more ht] at hstep
    exact hstep
  · intro m r hm ht
    rw [← resumeTurn_done ht]
    exact hP.step m hm

theorem Preserved.ran {P : Machine → Prop} (hP : Preserved P) {m m' : Machine} {fuel : Nat}
    {c c' : Channel σ} {r : Except Fault Unit} (hr : m.run fuel c = some ((m', c'), r)) (h : P m) :
    P m' := by
  refine Turn.run_invariant (P := fun s => P s.1) (Q := fun r => P r.1.1) ?_ ?_ hr h
  · intro s s' hm ht
    have hleaves := hP.drive (Machine.drive s.1 s.2) hm
    rw [ht] at hleaves
    exact hleaves
  · intro s r hm ht
    have hleaves := hP.drive (Machine.drive s.1 s.2) hm
    rw [ht] at hleaves
    exact hleaves

theorem Preserved.does {P : Machine → Prop} (hP : Preserved P) {m m' : Machine} {op : Operation}
    (hd : Does m op m') (h : P m) : P m' := by
  cases hd with
  | withInput | withStepLimit | withIdleInput | pushInput => exact hP.setUp m _ _ _ h
  | step => exact hP.step m h
  | resume fuel m' r hr => exact hP.resumed hr h
  | supply answer => exact hP.supply m answer h
  | run c fuel m' c' r hr => exact hP.ran hr h

theorem Preserved.lives {P : Machine → Prop} (hP : Preserved P) {m m' : Machine} {ops : List Operation}
    (hl : Life m ops m') (h : P m) : P m' := by
  induction hl with
  | none m => exact h
  | cons m m' m'' op ops hd _ ih => exact ih (hP.does hd h)

/-- **What is preserved holds of every reachable machine** if it holds of every fresh one. -/
theorem Preserved.reachable {P : Machine → Prop} (hP : Preserved P)
    (start : ∀ memory, P (ofMemory memory)) {m : Machine} (h : m.Reachable) : P m := by
  obtain ⟨memory, ops, hl⟩ := h
  exact hP.lives hl (start memory)

/-! ## 5. Waiting and failing -/

/-- **A machine is consistent** if it waits only where an answer can be taken, and a fault that it has is
    that of the instruction it stands at. -/
structure Consistent (m : Machine) : Prop where
  awaiting : m.status = .awaitingInput →
    m.fault = none ∧ m.instruction.op? = some .input ∧ ∃ a, m.inputTarget = .ok a
  stopped : ∀ e, m.fault = some e → m.status = .running ∧ e.pc? = some m.pc

theorem consistent_of_not_awaiting {m : Machine} (hf : m.fault = none)
    (hs : m.status ≠ .awaitingInput) : m.Consistent where
  awaiting h := absurd h hs
  stopped e he := by
    rw [hf] at he
    cases he

theorem consistent_of_stopped {m : Machine} {e : Fault} (hs : m.status = .running)
    (he : e.pc? = some m.pc) : Consistent { m with fault := some e } where
  awaiting h := by
    have h' : m.status = .awaitingInput := h
    rw [hs] at h'
    cases h'
  stopped e' he' := by
    cases he'
    exact ⟨hs, he⟩

/-- Whatever an instruction does, the machine waits afterwards only if it is an input instruction. -/
theorem consistent_apply {m : Machine} (hf : m.fault = none) (hs : m.status = .running) {op : Opcode}
    (hop : m.instruction.op? = some op) {eff : Effect} (he : m.effect m.instruction op = .ok eff) :
    (m.apply eff).1.Consistent := by
  have hrun : m.status ≠ .awaitingInput := by
    rw [hs]
    nofun
  cases eff with
  | take a =>
    obtain ⟨rfl, ha⟩ := input_of_take he
    cases hb : m.backlog with
    | cons w rest =>
      rw [apply_take_cons hb]
      exact consistent_of_not_awaiting hf nofun
    | nil =>
      rw [apply_take_nil hb]
      refine ⟨fun _ => ⟨hf, hop, a, ha⟩, fun e he => ?_⟩
      rw [hf] at he
      cases he
  | store a w => exact consistent_of_not_awaiting hf hrun
  | emit w => exact consistent_of_not_awaiting hf hrun
  | jump t => exact consistent_of_not_awaiting hf hrun
  | pass => exact consistent_of_not_awaiting hf hrun
  | moveBase d => exact consistent_of_not_awaiting hf hrun
  | halt => exact consistent_of_not_awaiting hf nofun

theorem Consistent.step {m : Machine} (h : m.Consistent) : m.step.1.Consistent := by
  have ht := m.transition
  generalize m.step.1 = m' at ht ⊢
  generalize m.step.2 = r at ht
  cases ht with
  | stopped | halted | waiting => exact h
  | resumed hf hs w rest hb a ha => exact consistent_of_not_awaiting hf nofun
  | unwritable hf hs w rest hb e ha =>
    -- a consistent machine does not wait on an address that it could not write
    obtain ⟨-, -, a, ha'⟩ := h.awaiting hs
    rw [ha'] at ha
    cases ha
  | spent hf hs e hsp => exact consistent_of_stopped hs (pc?_of_spent hsp)
  | unknown hf hs hsp hop => exact consistent_of_stopped hs rfl
  | refused hf hs hsp op hop e he =>
    have hpc := raises_effect (P := fun e => e.pc? = some m.pc) (pc?_at m.pc _) op e he
    exact consistent_of_stopped (m := { m with steps := m.steps + 1 }) hs hpc
  | performed hf hs hsp op hop eff he =>
    exact consistent_apply (m := { m with steps := m.steps + 1 }) hf hs hop he

theorem Consistent.supply {m : Machine} (h : m.Consistent) (answer : Answer) :
    (m.supply answer).1.Consistent := by
  cases hf : m.fault with
  | some e =>
    rw [supply_of_fault hf]
    exact h
  | none =>
    by_cases hs : m.status = .awaitingInput
    · obtain ⟨-, -, a, ha⟩ := h.awaiting hs
      cases answer with
      | value w =>
        rw [supply_value hf hs, completeInput_of_ok ha]
        exact consistent_of_not_awaiting hf nofun
      | noValue =>
        rw [supply_noValue hf hs, completeInput_of_ok ha]
        exact consistent_of_not_awaiting hf nofun
      | terminate =>
        rw [supply_terminate hf hs]
        exact consistent_of_not_awaiting hf nofun
    · rw [supply_of_not_awaiting hf hs]
      exact h

/-- A consistent machine that asks takes every answer. -/
theorem Consistent.supply_ok_of_needsInput {m m' : Machine} (hm : m.Consistent)
    (h : m.step = (m', .ok .needsInput)) (answer : Answer) : (m'.supply answer).2 = .ok () := by
  obtain ⟨hf, hs⟩ := awaiting_of_needsInput h
  have hstep := hm.step
  rw [h] at hstep
  have hready : m'.Ready := fun _ hs => (hstep.awaiting hs).2.2
  exact hready.supply_ok hf hs answer

theorem preserved_consistent : Preserved Consistent where
  setUp _ _ _ _ h := ⟨h.awaiting, h.stopped⟩
  step _ h := h.step
  supply _ answer h := h.supply answer

/-- **Every reachable machine is consistent.** -/
theorem Reachable.consistent {m : Machine} (h : m.Reachable) : m.Consistent :=
  preserved_consistent.reachable (fun _ => consistent_of_not_awaiting rfl nofun) h

/-- A machine that waits takes the first value of its backlog once there is one. -/
theorem step_pushInput {m : Machine} (hf : m.fault = none) (hs : m.status = .awaitingInput) {a : Nat}
    (ha : m.inputTarget = .ok a) (w : Word) :
    (m.pushInput w).step =
      ({ m with backlog := (m.backlog ++ [w]).tail }.takeInput a (m.backlog.headD w), .ok .executed) := by
  cases hb : m.backlog with
  | nil =>
    exact Transition.step_eq
      (.resumed (m := m.pushInput w) hf hs w [] (congrArg (· ++ [w]) hb) a ha)
  | cons v rest =>
    exact Transition.step_eq
      (.resumed (m := m.pushInput w) hf hs v (rest ++ [w]) (congrArg (· ++ [w]) hb) a ha)

/-! ## 6. The end of a life -/

/-- **A machine has ended**, well or with a fault. -/
inductive Ended (m : Machine) : Except Fault Unit → Prop where
  | halted (hf : m.fault = none) (hs : m.status = .halted) : Ended m (.ok ())
  | stopped (e : Fault) (hf : m.fault = some e) : Ended m (.error e)

/-- **Nothing has been executed** between two states of a machine: they differ at most in the backlog and
    in what is set from outside. -/
structure Still (m m' : Machine) : Prop where
  memory : m'.memory = m.memory
  pc : m'.pc = m.pc
  base : m'.base = m.base
  status : m'.status = m.status
  output : m'.output = m.output
  inputs : m'.inputs = m.inputs
  steps : m'.steps = m.steps
  lastWrite : m'.lastWrite = m.lastWrite
  fault : m'.fault = m.fault

theorem Still.refl (m : Machine) : Still m m := ⟨rfl, rfl, rfl, rfl, rfl, rfl, rfl, rfl, rfl⟩

theorem Still.trans {m m' m'' : Machine} (h : Still m m') (h' : Still m' m'') : Still m m'' where
  memory := h'.memory.trans h.memory
  pc := h'.pc.trans h.pc
  base := h'.base.trans h.base
  status := h'.status.trans h.status
  output := h'.output.trans h.output
  inputs := h'.inputs.trans h.inputs
  steps := h'.steps.trans h.steps
  lastWrite := h'.lastWrite.trans h.lastWrite
  fault := h'.fault.trans h.fault

variable {m m' : Machine} {r : Except Fault Unit}

theorem Ended.of_still (h : m.Ended r) (hm : Still m m') : m'.Ended r := by
  cases h with
  | halted hf hs => exact .halted (hm.fault.trans hf) (hm.status.trans hs)
  | stopped e hf => exact .stopped e (hm.fault.trans hf)

theorem Ended.step (h : m.Ended r) : m.step = (m, r.map fun _ => .halted) := by
  cases h with
  | halted hf hs => simp only [Machine.step, advance, hf, hs, Except.map]
  | stopped e hf => simp only [Machine.step, hf, Except.map]

theorem supply_of_halted (hf : m.fault = none) (hs : m.status = .halted) (answer : Answer) :
    m.supply answer = (m, .error (.notAwaitingInput m.pc)) :=
  supply_of_not_awaiting hf (by rw [hs]; nofun) answer

theorem Ended.supply (h : m.Ended r) (answer : Answer) : (m.supply answer).1 = m := by
  cases h with
  | halted hf hs => rw [supply_of_halted hf hs]
  | stopped e hf => rw [supply_of_fault hf]

/-- A machine that has ended hands back control at once. -/
theorem Ended.resume (h : m.Ended r) (fuel : Nat) :
    m.resume (fuel + 1) = some (m, r.map fun _ => .halted) := by
  unfold Machine.resume
  rw [Turn.run_succ, resumeTurn, h.step]
  cases r <;> rfl

/-- A machine that has ended neither asks for input nor passes anything on. -/
theorem Ended.run (h : m.Ended r) (fuel : Nat) (c : Channel σ) :
    m.run (fuel + 1) c = some ((m, c), r) := by
  unfold Machine.run
  rw [Turn.run_succ, runTurn, h.step]
  cases r <;> rfl

theorem Does.still {op : Operation} (hd : Does m op m') (h : m.Ended r) :
    Still m m' ∧ m'.backlog = m.backlog ++ op.pushed := by
  cases hd with
  | withInput | pushInput => exact ⟨⟨rfl, rfl, rfl, rfl, rfl, rfl, rfl, rfl, rfl⟩, rfl⟩
  | withStepLimit | withIdleInput =>
    exact ⟨⟨rfl, rfl, rfl, rfl, rfl, rfl, rfl, rfl, rfl⟩, (List.append_nil _).symm⟩
  | step =>
    rw [h.step]
    exact ⟨.refl m, (List.append_nil _).symm⟩
  | resume fuel m' r' hr =>
    cases fuel with
    | zero => cases hr
    | succ fuel =>
      rw [h.resume] at hr
      cases hr
      exact ⟨.refl m, (List.append_nil _).symm⟩
  | supply answer =>
    rw [h.supply]
    exact ⟨.refl m, (List.append_nil _).symm⟩
  | run c fuel m' c' r' hr =>
    cases fuel with
    | zero => cases hr
    | succ fuel =>
      rw [h.run] at hr
      cases hr
      exact ⟨.refl m, (List.append_nil _).symm⟩

/-- **A machine that has ended executes nothing any more**, and its backlog only grows. -/
theorem Life.still {ops : List Operation} (hl : Life m ops m') (h : m.Ended r) :
    Still m m' ∧ m'.backlog = m.backlog ++ ops.flatMap Operation.pushed := by
  induction hl with
  | none m => exact ⟨.refl m, (List.append_nil _).symm⟩
  | cons m m' m'' op ops hd _ ih =>
    obtain ⟨hstill, hback⟩ := hd.still h
    obtain ⟨hstill', hback'⟩ := ih (h.of_still hstill)
    refine ⟨hstill.trans hstill', ?_⟩
    rw [hback', hback, List.append_assoc]
    rfl

/-! ## 7. Lives from the start -/

/-- **The three states of a machine**, whatever has been done with it since it was made. If it waits, it
    has no fault and stands at an input instruction whose destination can be written: it takes every
    answer, and a value that is pushed lets the next step take the first of the backlog. If it has a
    fault, it has not halted and does not wait, and the fault names the instruction that it stands at. If
    it has halted, then no operations, whatever their number and order, let it execute anything; it says
    so at once, and refuses answers. -/
theorem reachable_lifecycle {m : Machine} (h : m.Reachable) :
    (m.status = .awaitingInput →
      m.fault = none ∧ m.instruction.op? = some .input ∧
      ∃ a, m.inputTarget = .ok a ∧
        (∀ w, m.supply (.value w) = (m.takeInput a w, .ok ())) ∧
        m.supply .noValue = (m.takeInput a m.idleInput, .ok ()) ∧
        ∀ w, (m.pushInput w).step =
          ({ m with backlog := (m.backlog ++ [w]).tail }.takeInput a (m.backlog.headD w),
            .ok .executed)) ∧
    (∀ e, m.fault = some e → m.status = .running ∧ e.pc? = some m.pc) ∧
    (m.status = .halted → ∀ ops m', Life m ops m' →
      Still m m' ∧
      m'.step = (m', .ok .halted) ∧
      (∀ answer, m'.supply answer = (m', .error (.notAwaitingInput m'.pc))) ∧
      (∀ fuel, m'.resume (fuel + 1) = some (m', .ok .halted)) ∧
      ∀ (σ : Type) (c : Channel σ) fuel, m'.run (fuel + 1) c = some ((m', c), .ok ())) := by
  have hm := h.consistent
  refine ⟨fun hs => ?_, hm.stopped, fun hs ops m' hl => ?_⟩
  · obtain ⟨hf, hop, a, ha⟩ := hm.awaiting hs
    refine ⟨hf, hop, a, ha, fun w => ?_, ?_, step_pushInput hf hs ha⟩
    · rw [supply_value hf hs, completeInput_of_ok ha]
    · rw [supply_noValue hf hs, completeInput_of_ok ha]
  · have hf : m.fault = none := by
      cases hfault : m.fault with
      | none => rfl
      | some e =>
        obtain ⟨hrun, -⟩ := hm.stopped e hfault
        rw [hs] at hrun
        cases hrun
    have hend : m.Ended (.ok ()) := .halted hf hs
    obtain ⟨hstill, -⟩ := hl.still hend
    have hend' := hend.of_still hstill
    exact ⟨hstill, hend'.step, supply_of_halted (hstill.fault.trans hf) (hstill.status.trans hs),
      hend'.resume, fun _ c fuel => hend'.run fuel c⟩

/-- An input instruction whose destination is its own address. The machine waits at it and can be
    answered or ended there; a machine that may execute only one instruction fails there. -/
theorem reachable_lifecycle_self_overwriting :
    let start := ofProgram [109, 5, 203, -3, 99]
    let waiting := start.step.1.step.1
    let ended := (waiting.supply .terminate).1
    let failed := (start.withStepLimit 1).step.1.step.1
    waiting.status = .awaitingInput ∧ waiting.supply (.value 99) = (waiting.takeInput 2 99, .ok ()) ∧
    ended.status = .halted ∧ (ended.pushInput 4).step = (ended.pushInput 4, .ok .halted) ∧
    failed.fault = some (.stepLimit 1 2) ∧ failed.status = .running := by
  intro start waiting ended failed
  have hsteps : Life waiting [.supply .terminate] ended := .cons _ _ _ _ _ (.supply .terminate) (.none _)
  have hwaiting : waiting.Reachable :=
    ⟨_, [.step, .step], .cons _ _ _ _ _ .step (.cons _ _ _ _ _ .step (.none _))⟩
  have hended : ended.Reachable :=
    ⟨_, [.step, .step, .supply .terminate],
      .cons _ _ _ _ _ .step (.cons _ _ _ _ _ .step hsteps)⟩
  have hfailed : failed.Reachable :=
    ⟨_, [.withStepLimit 1, .step, .step],
      .cons _ _ _ _ _ (.withStepLimit 1) (.cons _ _ _ _ _ .step (.cons _ _ _ _ _ .step (.none _)))⟩
  have hs : waiting.status = .awaitingInput := by decide +kernel
  have hs' : ended.status = .halted := by decide +kernel
  have hf : failed.fault = some (.stepLimit 1 2) := by decide +kernel
  have htarget : (ofProgram [109, 5, 203, -3, 99]).step.1.step.1.inputTarget = .ok 2 := by
    with_unfolding_all rfl
  obtain ⟨-, -, a, ha, hvalue, -⟩ := (reachable_lifecycle hwaiting).1 hs
  obtain rfl : 2 = a := Except.ok.inj (htarget.symm.trans ha)
  obtain ⟨-, hstep, -⟩ := (reachable_lifecycle hended).2.2 hs' [.pushInput 4] _
    (.cons _ _ _ _ _ (.pushInput 4) (.none _))
  exact ⟨hs, hvalue 99, hs', hstep, hf, ((reachable_lifecycle hfailed).2.1 _ hf).1⟩

/-- A step that fails leaves everything but the fault and the count as it was. -/
theorem Consistent.failed {e : Fault} (h : m.Consistent) (hs : m.step = (m', .error e)) :
    m' = { m with steps := m'.steps, fault := some e } ∧ m.steps ≤ m'.steps ∧
      m'.steps ≤ m.steps + 1 := by
  have ht := m.transition
  rw [hs] at ht
  generalize hr : Except.error e = r at ht
  cases ht with
  | stopped e' hf =>
    cases hr
    refine ⟨?_, Nat.le_refl _, Nat.le_succ _⟩
    rw [← hf]
  | halted | waiting | resumed | performed => cases hr
  | unwritable hf hw w rest hb e' ha =>
    obtain ⟨-, -, a, ha'⟩ := h.awaiting hw
    rw [ha'] at ha
    cases ha
  | spent hf hw e' hsp =>
    cases hr
    exact ⟨rfl, Nat.le_refl _, Nat.le_succ _⟩
  | unknown hf hw hsp hop =>
    cases hr
    exact ⟨rfl, Nat.le_refl _, Nat.le_succ _⟩
  | refused hf hw hsp op hop e' he =>
    cases hr
    exact ⟨rfl, Nat.le_succ _, Nat.le_refl _⟩

/-- A step that fails leaves its fault on the machine. -/
theorem Consistent.fault_of_step_error {e : Fault} (hm : m.Consistent) (h : m.step = (m', .error e)) :
    m'.fault = some e := by
  obtain ⟨heq, -⟩ := hm.failed h
  rw [heq]

/-- **A step that fails is atomic and final.** It leaves a reachable machine as it was, but for the fault,
    which is kept, and for the count of instructions, which may grow by 1. Whatever operations follow,
    nothing is executed and nothing is taken from the backlog, and at each point every further step, every
    answer, every resumption and every run comes out with the same fault; the channel of a run stays as it
    is, so that nobody is asked for input or given output. -/
theorem failed_step_final {m m' : Machine} {e : Fault} (h : m.Reachable) (hs : m.step = (m', .error e)) :
    m' = { m with steps := m'.steps, fault := some e } ∧
    m.steps ≤ m'.steps ∧ m'.steps ≤ m.steps + 1 ∧
    ∀ ops m'', Life m' ops m'' →
      Still m' m'' ∧
      m''.backlog = m'.backlog ++ ops.flatMap Operation.pushed ∧
      m''.step = (m'', .error e) ∧
      (∀ answer, m''.supply answer = (m'', .error e)) ∧
      (∀ fuel, m''.resume (fuel + 1) = some (m'', .error e)) ∧
      ∀ (σ : Type) (c : Channel σ) fuel, m''.run (fuel + 1) c = some ((m'', c), .error e) := by
  obtain ⟨heq, hle, hle'⟩ := h.consistent.failed hs
  have hf : m'.fault = some e := by rw [heq]
  have hend : m'.Ended (.error e) := .stopped e hf
  refine ⟨heq, hle, hle', fun ops m'' hl => ?_⟩
  obtain ⟨hstill, hback⟩ := hl.still hend
  have hend' := hend.of_still hstill
  exact ⟨hstill, hback, hend'.step, supply_of_fault (hstill.fault.trans hf), hend'.resume,
    fun _ c fuel => hend'.run fuel c⟩

/-- An input instruction that cannot be done takes nothing from the backlog, and a value that comes later
    stays there too. -/
theorem failed_step_final_input_kept :
    let m := (ofProgram [103, 0, 99]).withInput [7]
    m.step = (m.step.1, .error (.writeMode 3 0)) ∧ m.step.1.backlog = [7] ∧ m.step.1.steps = 1 ∧
    (m.step.1.pushInput 8).backlog = [7, 8] ∧
    (m.step.1.pushInput 8).run 1 .buffered =
      some ((m.step.1.pushInput 8, .buffered), .error (.writeMode 3 0)) := by
  intro m
  have hm : m.Reachable := ⟨_, [.withInput [7]], .cons _ _ _ _ _ (.withInput [7]) (.none _)⟩
  have hr : ((ofProgram [103, 0, 99]).withInput [7]).step.2 = .error (.writeMode 3 0) := by
    with_unfolding_all rfl
  have hs : m.step = (m.step.1, .error (.writeMode 3 0)) := Prod.ext rfl hr
  obtain ⟨heq, -, -, hlater⟩ := failed_step_final hm hs
  obtain ⟨-, hback, -, -, -, hrun⟩ := hlater [.pushInput 8] _ (.cons _ _ _ _ _ (.pushInput 8) (.none _))
  have hkept : m.step.1.backlog = [7] := by
    rw [heq]
    rfl
  rw [hkept] at hback
  exact ⟨hs, hkept, by decide +kernel, hback, hrun Unit .buffered 0⟩

end WordMachine.Machine
