import WordMachine.Proofs.Intake

/-!
# A step follows the disassembly

How long an instruction is, which of its parameters it uses and which of them it writes through is said
twice: once in the opcode table, from which memory is read (`Memory.readingAt`), and once in what each
instruction does (`Machine.effect`, `Machine.apply`). This file shows that the two agree.

* `Machine.Enacts` -- the opcodes with what each may be about to do, and `enacts`, that there is nothing
  else;
* `Machine.Blames` -- an instruction that cannot be done has a parameter within its number of parameters
  that cannot be used, or jumps to a negative address;
* `Machine.Completes` -- an instruction is completed by its step, or by the answer to it, and
  `Machine.Performed` says what it leaves;
* `Machine.step_follows_reading` -- the agreement.
-/

namespace WordMachine

/-! ## 1. Readings -/

theorem Mode.two_lt_of_ofDigit {d digit : Nat} (h : Mode.ofDigit d = .unsupported digit) : 2 < digit := by
  match d with
  | 0 | 1 | 2 => cases h
  | d + 3 =>
    cases h
    omega

/-- An instruction has no mode but for a digit of its word, and the digits 0 to 2 are supported. -/
theorem Instruction.two_lt_of_mode {w : Word} {p : Param} {digit : Nat}
    (h : (Instruction.decode w).mode p = .unsupported digit) : 2 < digit := by
  cases p with
  | first => exact Mode.two_lt_of_ofDigit h
  | second => exact Mode.two_lt_of_ofDigit h
  | third => exact Mode.two_lt_of_ofDigit h

theorem addressOf_ne_unsupported (w : Word) (digit : Nat) :
    addressOf w ≠ .error (.unsupportedMode digit) := by
  unfold addressOf
  split <;> nofun

theorem Mode.unsupported_of_target {mode : Mode} {operand base : Word} {digit : Nat}
    (h : mode.target operand base = .error (.unsupportedMode digit)) : mode = .unsupported digit := by
  cases mode with
  | position => exact absurd h (addressOf_ne_unsupported _ _)
  | relative => exact absurd h (addressOf_ne_unsupported _ _)
  | immediate => cases h
  | unsupported d =>
    cases h
    rfl

namespace Memory

variable (m : Memory) (address : Nat)

theorem readingAt_of_op {op : Opcode} (h : (Instruction.decode (m.load address)).op? = some op) :
    m.readingAt address = .code op (m.operandsAt address (Instruction.decode (m.load address)) op) := by
  simp only [readingAt, h]

/-- A word is listed as data exactly if its opcode is not in the table. -/
theorem entryAt_eq_wordAt_iff :
    m.entryAt address = m.wordAt address ↔ (Instruction.decode (m.load address)).op? = none := by
  unfold entryAt wordAt
  rw [Entry.mk.injEq]
  cases hop : (Instruction.decode (m.load address)).op? with
  | none => simp only [readingAt, hop, and_self]
  | some op => simp only [m.readingAt_of_op address hop, reduceCtorEq, and_false]

/-- The parameters of an instruction stand in its reading at their places. -/
theorem getElem?_operandsAt (i : Instruction) {op : Opcode} {p : Param} (h : p.index < op.arity) :
    (m.operandsAt address i op)[p.index]? = some ⟨i.mode p, m.load (address + 1 + p.index)⟩ := by
  cases op <;> cases p <;> first | rfl | exact absurd h (by decide)

/-- Only the mode of a parameter makes it unsupported. -/
theorem unsupported_of_read {m : Memory} {mode : Mode} {operand base : Word} {digit : Nat}
    (h : m.read mode operand base = .error (.unsupportedMode digit)) : mode = .unsupported digit := by
  have htarget : mode.target operand base = .error (.unsupportedMode digit) := by
    unfold read at h
    split at h
    · cases h
    · cases ht : mode.target operand base with
      | error f =>
        rw [ht] at h
        cases h
        rfl
      | ok a =>
        rw [ht] at h
        cases h
  exact Mode.unsupported_of_target htarget

end Memory

/-- The parameter that is written through is one of the parameters. -/
theorem Opcode.index_lt_arity {op : Opcode} {p : Param} (h : op.writeParam? = some p) :
    p.index < op.arity := by
  cases op <;> cases h <;> decide

namespace Machine

variable {m m' : Machine} {i : Instruction} {op : Opcode} {eff : Effect}

/-! ## 2. What each opcode may do -/

/-- An instruction is a jump, and the value of its first parameter says that it is to be taken. -/
def Jumps (m : Machine) (i : Instruction) (op : Opcode) : Prop :=
  ∃ v, m.param i .first = .ok v ∧ ((op = .jumpIfTrue ∧ v ≠ 0) ∨ (op = .jumpIfFalse ∧ v = 0))

/-- **What an opcode may be about to do.** -/
inductive Enacts (m : Machine) (i : Instruction) : Opcode → Effect → Prop where
  | result (op : Opcode) (hop : op.writeParam? = some .third) (a : Nat) (w : Word)
      (ha : m.target i .third = .ok a) : Enacts m i op (.store a w)
  | input (a : Nat) (ha : m.target i .first = .ok a) : Enacts m i .input (.take a)
  | output (w : Word) : Enacts m i .output (.emit w)
  | taken (op : Opcode) (h : m.Jumps i op) (target : Nat) : Enacts m i op (.jump target)
  | passed (op : Opcode) (hop : op = .jumpIfTrue ∨ op = .jumpIfFalse) : Enacts m i op .pass
  | adjustBase (d : Word) : Enacts m i .adjustBase (.moveBase d)
  | halt : Enacts m i .halt .halt

theorem ok_of_bind {α β : Type} {r : Except Fault α} {f : α → Except Fault β} {b : β}
    (h : r >>= f = .ok b) : ∃ a, r = .ok a ∧ f a = .ok b := by
  cases r with
  | error e => cases h
  | ok a => exact ⟨a, rfl, h⟩

theorem enacts_combine {f : Word → Word → Word} (hop : op.writeParam? = some .third)
    (h : m.combine i f = .ok eff) : Enacts m i op eff := by
  obtain ⟨a, -, h⟩ := ok_of_bind h
  obtain ⟨b, -, h⟩ := ok_of_bind h
  obtain ⟨address, htarget, h⟩ := ok_of_bind h
  cases h
  exact .result op hop address _ htarget

theorem enacts_jumpWhen {test : Word → Bool} (hop : op = .jumpIfTrue ∨ op = .jumpIfFalse)
    (htest : ∀ v, m.param i .first = .ok v → test v = true → m.Jumps i op)
    (h : m.jumpWhen i test = .ok eff) : Enacts m i op eff := by
  obtain ⟨v, hv, h⟩ := ok_of_bind h
  obtain ⟨goal, -, h⟩ := ok_of_bind h
  split at h
  · rename_i ht
    split at h
    · cases h
      exact .taken op (htest v hv ht) _
    · cases h
  · cases h
    exact .passed op hop

/-- **An opcode is about to do nothing else.** -/
theorem enacts (h : m.effect i op = .ok eff) : Enacts m i op eff := by
  cases op with
  | add | mul | lessThan | equals => exact enacts_combine rfl h
  | jumpIfTrue =>
    exact enacts_jumpWhen (.inl rfl) (fun v hv ht => ⟨v, hv, .inl ⟨rfl, of_decide_eq_true ht⟩⟩) h
  | jumpIfFalse =>
    exact enacts_jumpWhen (.inr rfl) (fun v hv ht => ⟨v, hv, .inr ⟨rfl, of_decide_eq_true ht⟩⟩) h
  | input =>
    obtain ⟨a, ha, hok⟩ := ok_of_bind h
    cases hok
    exact .input a ha
  | output =>
    obtain ⟨w, -, hok⟩ := ok_of_bind h
    cases hok
    exact .output w
  | adjustBase =>
    obtain ⟨d, -, hok⟩ := ok_of_bind h
    cases hok
    exact .adjustBase d
  | halt =>
    cases h
    exact .halt

/-! ## 3. Whom a fault blames -/

/-- **What a fault of an instruction blames**: one of its parameters, which cannot be read or cannot be
    written through, or the address that it jumps to. -/
def Blames (m : Machine) (i : Instruction) (op : Opcode) (e : Fault) : Prop :=
  (∃ p : Param, p.index < op.arity ∧ (m.param i p = .error e ∨ m.target i p = .error e)) ∨
    ∃ goal, e = .address goal m.pc

theorem raises_param {p : Param} (hp : p.index < op.arity) : Raises (m.Blames i op) (m.param i p) :=
  fun _ he => .inl ⟨p, hp, .inl he⟩

theorem raises_target {p : Param} (hp : p.index < op.arity) : Raises (m.Blames i op) (m.target i p) :=
  fun _ he => .inl ⟨p, hp, .inr he⟩

theorem blames_combine (hop : op.arity = 3) (f : Word → Word → Word) :
    Raises (m.Blames i op) (m.combine i f) := by
  have hp (p : Param) : p.index < op.arity := by
    rw [hop]
    cases p <;> decide
  refine Raises.bind (raises_param (hp .first)) fun a => ?_
  refine Raises.bind (raises_param (hp .second)) fun b => ?_
  exact Raises.bind (raises_target (hp .third)) fun c => raises_ok _

theorem blames_jumpWhen (hop : op.arity = 2) (test : Word → Bool) :
    Raises (m.Blames i op) (m.jumpWhen i test) := by
  refine Raises.bind (raises_param (by rw [hop]; decide)) fun v => ?_
  refine Raises.bind (raises_param (by rw [hop]; decide)) fun goal => ?_
  split
  · cases Word.address? goal with
    | some t => exact raises_ok _
    | none => exact raises_error (.inr ⟨goal, rfl⟩)
  · exact raises_ok _

/-- **A fault blames no parameter that the instruction does not have.** -/
theorem blames (m : Machine) (i : Instruction) (op : Opcode) :
    Raises (m.Blames i op) (m.effect i op) := by
  cases op with
  | add | mul | lessThan | equals => exact blames_combine rfl _
  | jumpIfTrue | jumpIfFalse => exact blames_jumpWhen rfl _
  | input => exact Raises.bind (raises_target (by decide)) fun a => raises_ok _
  | output | adjustBase => exact Raises.bind (raises_param (by decide)) fun w => raises_ok _
  | halt => exact raises_ok _

theorem error_of_mapError {α β γ : Type} {r : Except α γ} {f : α → β} {e : β}
    (h : r.mapError f = .error e) : ∃ e', r = .error e' ∧ f e' = e := by
  cases r with
  | error e' =>
    cases h
    exact ⟨e', rfl, rfl⟩
  | ok a => cases h

theorem ok_of_mapError {α β γ : Type} {r : Except α γ} {f : α → β} {a : γ} (h : r.mapError f = .ok a) :
    r = .ok a := by
  cases r with
  | error e' => cases h
  | ok a' =>
    cases h
    rfl

/-- A mode fault blames a parameter of the instruction that has this mode. -/
theorem Blames.mode {digit pc : Nat} {opcode : Word} (h : m.Blames i op (.mode digit opcode pc)) :
    ∃ p : Param, p.index < op.arity ∧ i.mode p = .unsupported digit := by
  have hat : ∀ {f : AccessFault}, f.at m.pc i.opcode = .mode digit opcode pc → f = .unsupportedMode digit := by
    intro f hf
    cases f <;> cases hf
    rfl
  rcases h with ⟨p, hp, hparam | htarget⟩ | ⟨goal, hgoal⟩
  · obtain ⟨f, hf, hfault⟩ := error_of_mapError hparam
    obtain rfl := hat hfault
    exact ⟨p, hp, Memory.unsupported_of_read hf⟩
  · obtain ⟨f, hf, hfault⟩ := error_of_mapError htarget
    obtain rfl := hat hfault
    exact ⟨p, hp, Mode.unsupported_of_target hf⟩
  · cases hgoal

/-! ## 4. Instructions that are completed -/

/-- **An instruction is completed** by its step; or, if the step asks for input, by an answer that lets the
    machine go on. -/
inductive Completes (m : Machine) : Machine → Prop where
  | step (m' : Machine) (s : Step) (h : m.step = (m', .ok s)) (hs : s ≠ .needsInput) : Completes m m'
  | answered (asking m' : Machine) (answer : Answer) (h : m.step = (asking, .ok .needsInput))
      (hgoesOn : answer ≠ .terminate) (hs : asking.supply answer = (m', .ok ())) : Completes m m'

/-- What an instruction leaves that is completed. -/
inductive Performed (m : Machine) : Effect → Machine → Prop where
  | applied (eff : Effect) (h : ∀ a, eff ≠ .take a) :
      Performed m eff ({ m with steps := m.steps + 1 }.apply eff).1
  | taken (a : Nat) (w : Word) (rest : List Word) :
      Performed m (.take a) ({ m with steps := m.steps + 1, backlog := rest }.takeInput a w)

theorem performed_of_apply {s : Step} (h : { m with steps := m.steps + 1 }.apply eff = (m', s))
    (hs : s ≠ .needsInput) : Performed m eff m' := by
  cases eff with
  | take a =>
    cases hb : m.backlog with
    | nil =>
      rw [apply_take_nil (m := { m with steps := m.steps + 1 }) hb] at h
      exact absurd (Prod.mk.inj h).2.symm hs
    | cons w rest =>
      rw [apply_take_cons (m := { m with steps := m.steps + 1 }) hb] at h
      obtain ⟨rfl, -⟩ := Prod.mk.inj h
      exact .taken a w rest
  | store | emit | jump | pass | moveBase | halt =>
    obtain ⟨rfl, -⟩ := Prod.mk.inj h
    exact .applied _ nofun

/-- An answer that lets a machine go on is a value taken to the address that it waits on. -/
theorem takeInput_of_supply {a : Nat} {answer : Answer} (hf : m.fault = none)
    (hs : m.status = .awaitingInput) (ha : m.inputTarget = .ok a) (hgoesOn : answer ≠ .terminate)
    (hsupply : m.supply answer = (m', .ok ())) : ∃ w, m' = m.takeInput a w := by
  cases answer with
  | value w =>
    rw [supply_value hf hs, completeInput_of_ok ha] at hsupply
    exact ⟨w, (Prod.mk.inj hsupply).1.symm⟩
  | noValue =>
    rw [supply_noValue hf hs, completeInput_of_ok ha] at hsupply
    exact ⟨m.idleInput, (Prod.mk.inj hsupply).1.symm⟩
  | terminate => exact absurd rfl hgoesOn

/-- **What a completed instruction has done.** -/
theorem Completes.performed (hc : Completes m m') (hf : m.fault = none) (hs : m.status = .running) :
    ∃ op eff, m.instruction.op? = some op ∧ m.effect m.instruction op = .ok eff ∧
      Performed m eff m' := by
  cases hc with
  | step m' s h hno =>
    obtain ⟨-, op, eff, hop, he, happly⟩ := performed_of_step hf hs h
    exact ⟨op, eff, hop, he, performed_of_apply happly hno⟩
  | answered asking m' answer h hgoesOn hsupply =>
    obtain ⟨-, op, eff, hop, he, happly⟩ := performed_of_step hf hs h
    obtain ⟨a, rfl, -, heq⟩ := take_of_asking happly
    obtain ⟨hf', hs'⟩ := awaiting_of_needsInput h
    have ha : asking.inputTarget = .ok a := by
      rw [heq]
      exact (input_of_take he).2
    have htaken (w : Word) : Performed m (.take a) (asking.takeInput a w) := by
      rw [heq]
      exact .taken a w m.backlog
    obtain ⟨w, rfl⟩ := takeInput_of_supply hf' hs' ha hgoesOn hsupply
    exact ⟨op, _, hop, he, htaken w⟩

/-- **The next instruction follows** a completed one by the number of its words, unless it halts or
    jumps. -/
theorem Enacts.pc (h : Enacts m i op eff) (hp : Performed m eff m') (hhalt : op ≠ .halt)
    (hjump : ¬ m.Jumps i op) : m'.pc = m.pc + (1 + op.arity) := by
  cases h with
  | result op hop a w ha =>
    cases hp
    cases op <;> cases hop <;> rfl
  | input a ha =>
    cases hp with
    | applied eff h => exact absurd rfl (h a)
    | taken a w rest => rfl
  | output w | adjustBase d =>
    cases hp
    rfl
  | taken op h target => exact absurd h hjump
  | passed op hop =>
    cases hp
    cases hop with
    | inl h => rw [h]; rfl
    | inr h => rw [h]; rfl
  | halt => exact absurd rfl hhalt

/-- **A completed instruction writes through the parameter that the table names.** -/
theorem Enacts.writes (h : Enacts m i op eff) (hp : Performed m eff m') {p : Param}
    (hw : op.writeParam? = some p) :
    ∃ a w, m.target i p = .ok a ∧ m'.lastWrite = some a ∧ m'.memory = m.memory.store a w := by
  cases h with
  | result op hop a w ha =>
    obtain rfl : .third = p := Option.some.inj (hop.symm.trans hw)
    cases hp
    exact ⟨a, w, ha, rfl, rfl⟩
  | input a ha =>
    cases hw
    cases hp with
    | applied eff h => exact absurd rfl (h a)
    | taken a w rest => exact ⟨a, w, ha, rfl, rfl⟩
  | taken op h target =>
    obtain ⟨v, -, ⟨rfl, -⟩ | ⟨rfl, -⟩⟩ := h <;> cases hw
  | passed op hop =>
    obtain rfl | rfl := hop <;> cases hw
  | output | adjustBase | halt => cases hw

/-- **A completed instruction writes nothing** if the table names no parameter. -/
theorem Enacts.writesNothing (h : Enacts m i op eff) (hp : Performed m eff m')
    (hw : op.writeParam? = none) : m'.lastWrite = m.lastWrite ∧ m'.memory = m.memory := by
  cases h with
  | result op hop a w ha =>
    rw [hop] at hw
    cases hw
  | input a ha => cases hw
  | output | taken | passed | adjustBase | halt =>
    cases hp
    exact ⟨rfl, rfl⟩

/-- A step that fails or asks writes nothing. -/
theorem step_writesNothing (hf : m.fault = none) (hs : m.status = .running)
    (h : (∃ e, m.step.2 = .error e) ∨ m.step.2 = .ok .needsInput) :
    m.step.1.lastWrite = m.lastWrite ∧ m.step.1.memory = m.memory := by
  rcases hstep : m.step with ⟨m', e | s⟩
  · have ht := m.transition
    rw [hstep] at ht
    generalize hr : Except.error e = r at ht
    cases ht with
    | stopped | unwritable | spent | unknown | refused => exact ⟨rfl, rfl⟩
    | halted | waiting | resumed | performed => cases hr
  · rw [hstep] at h
    obtain ⟨e, he⟩ | hneeds := h
    · cases he
    · cases hneeds
      obtain ⟨-, op, eff, -, -, happly⟩ := performed_of_step hf hs hstep
      obtain ⟨a, -, -, rfl⟩ := take_of_asking happly
      exact ⟨rfl, rfl⟩

/-! ## 5. The agreement -/

theorem spent?_eq_none (h : ∀ limit, m.stepLimit = some limit → m.steps < limit) : m.spent? = none := by
  unfold spent?
  split
  · rename_i limit hlimit
    exact if_neg (Nat.not_le.2 (h limit hlimit))
  · rfl

theorem step_snd_of_running (hf : m.fault = none) (hs : m.status = .running) (hsp : m.spent? = none) :
    m.step.2 = match m.instruction.op? with
      | none => .error (.decode m.instruction.opcode m.pc)
      | some op => (m.effect m.instruction op).map m.outcome := by
  rw [step_snd]
  cases hop : m.instruction.op? with
  | none => simp only [outlook, fetchOutlook, hf, hs, hsp, hop]
  | some op => simp only [outlook, fetchOutlook, hf, hs, hsp, hop]

theorem error_of_map {α β : Type} {r : Except Fault α} {f : α → β} {e : Fault} (h : r.map f = .error e) :
    r = .error e := by
  cases r with
  | error e' =>
    cases h
    rfl
  | ok a => cases h

/-- A running machine with instructions left cannot decode exactly if the opcode is not in the table. -/
theorem decode_fault_iff (hf : m.fault = none) (hs : m.status = .running) (hsp : m.spent? = none) :
    (∃ opcode pc, m.step.2 = .error (.decode opcode pc)) ↔ m.instruction.op? = none := by
  rw [step_snd_of_running hf hs hsp]
  cases hop : m.instruction.op? with
  | none => exact ⟨fun _ => rfl, fun _ => ⟨_, _, rfl⟩⟩
  | some op =>
    have hother := raises_effect (m := m) (i := m.instruction)
      (P := fun e => ∀ opcode pc, e ≠ .decode opcode pc) (fun f => by cases f <;> nofun) op
    constructor
    · intro ⟨opcode, pc, h⟩
      exact absurd rfl (hother _ (error_of_map h) opcode pc)
    · nofun

/-- A running machine with instructions left has a mode fault only for a parameter that it uses. -/
theorem mode_fault_blames {digit pc : Nat} {opcode : Word} (hf : m.fault = none) (hs : m.status = .running)
    (hsp : m.spent? = none) (h : m.step.2 = .error (.mode digit opcode pc)) :
    ∃ (op : Opcode) (p : Param), m.instruction.op? = some op ∧ p.index < op.arity ∧
      m.instruction.mode p = .unsupported digit := by
  rw [step_snd_of_running hf hs hsp] at h
  cases hop : m.instruction.op? with
  | none =>
    rw [hop] at h
    cases h
  | some op =>
    rw [hop] at h
    obtain ⟨p, hp, hmode⟩ := (blames m m.instruction op _ (error_of_map h)).mode
    exact ⟨op, p, rfl, hp, hmode⟩

/-- **A step follows the disassembly.** Take a machine that runs, has no fault and has instructions left,
    and the entry at its address. The step cannot decode exactly if the opcode is not in the table, that
    is, if the entry is a word of data. Otherwise the entry is that opcode with its operands. If the
    instruction is completed, by its step or by the answer to it, then it goes on at the address after the
    entry, unless it halts or is a jump that is taken; and if the table names a parameter to write through,
    it has written at the address that this operand names in its mode, and nowhere else, and if not, it has
    written nothing. A step that fails or asks writes nothing. A mode fault is that of an unsupported mode
    of a parameter among the operands. -/
theorem step_follows_reading {m : Machine} (h : m.Constructible) (hf : m.fault = none)
    (hs : m.status = .running) (hbudget : ∀ limit, m.stepLimit = some limit → m.steps < limit) :
    let entry := m.memory.entryAt m.pc
    ((∃ opcode pc, m.step.2 = .error (.decode opcode pc)) ↔ m.instruction.op? = none) ∧
    (m.instruction.op? = none ↔ entry = m.memory.wordAt m.pc) ∧
    (∀ op, m.instruction.op? = some op →
      ∃ operands, entry.reading = .code op operands ∧
        ∀ m', Completes m m' →
          (op ≠ .halt → ¬ m.Jumps m.instruction op → m'.pc = m.pc + entry.width) ∧
          (∀ p, op.writeParam? = some p →
            ∃ operand a w, operands[p.index]? = some operand ∧
              operand.mode.target operand.word m.base = .ok a ∧ m'.lastWrite = some a ∧
              ∀ b, m'.memory.load b = if b = a then w else m.memory.load b) ∧
          (op.writeParam? = none → m'.lastWrite = m.lastWrite ∧ m'.memory = m.memory)) ∧
    ((∃ e, m.step.2 = .error e) ∨ m.step.2 = .ok .needsInput →
      m.step.1.lastWrite = m.lastWrite ∧ m.step.1.memory = m.memory) ∧
    (∀ digit opcode pc, m.step.2 = .error (.mode digit opcode pc) →
      ∃ (op : Opcode) (p : Param), m.instruction.op? = some op ∧ p.index < op.arity ∧
        m.instruction.mode p = .unsupported digit ∧ 2 < digit) := by
  have hsp := spent?_eq_none hbudget
  refine ⟨decode_fault_iff hf hs hsp, (m.memory.entryAt_eq_wordAt_iff m.pc).symm, fun op hop => ?_,
    step_writesNothing hf hs, fun digit opcode pc hmode => ?_⟩
  · have hreading := m.memory.readingAt_of_op m.pc hop
    refine ⟨_, hreading, fun m' hc => ?_⟩
    obtain ⟨op', eff, hop', he, hperformed⟩ := hc.performed hf hs
    obtain rfl : op' = op := Option.some.inj (hop'.symm.trans hop)
    have henacts := enacts he
    refine ⟨fun hhalt hjump => ?_, fun p hp => ?_, henacts.writesNothing hperformed⟩
    · have hwidth : (m.memory.entryAt m.pc).width = 1 + op'.arity := congrArg Reading.width hreading
      rw [hwidth]
      exact henacts.pc hperformed hhalt hjump
    · obtain ⟨a, w, ha, hlast, hmemory⟩ := henacts.writes hperformed hp
      refine ⟨_, a, w, m.memory.getElem?_operandsAt m.pc _ (Opcode.index_lt_arity hp), ok_of_mapError ha,
        hlast, fun b => ?_⟩
      rw [hmemory, Memory.load_store h.apart]
  · obtain ⟨op, p, hop, hp, hunsupported⟩ := mode_fault_blames hf hs hsp hmode
    exact ⟨op, p, hop, hp, hunsupported, Instruction.two_lt_of_mode hunsupported⟩

/-- An input instruction that asks, and whose answer takes the place of its own word; and an output
    instruction whose word has an unsupported mode for a parameter that it does not have. -/
theorem step_follows_reading_overwritten :
    let m := ofProgram [3, 0, 99]
    let m' := (m.step.1.supply (.value 7)).1
    m'.pc = m.pc + (m.memory.entryAt m.pc).width ∧
    (∃ w, m'.lastWrite = some 0 ∧ ∀ b, m'.memory.load b = if b = 0 then w else m.memory.load b) ∧
    ∀ digit opcode pc, (ofProgram [30004, 0, 99]).step.2 ≠ .error (.mode digit opcode pc) := by
  intro m m'
  have hm : m.Constructible := ⟨[3, 0, 99], [], [], .none _⟩
  have hm₂ : (ofProgram [30004, 0, 99]).Constructible := ⟨[30004, 0, 99], [], [], .none _⟩
  have hstep : (ofProgram [3, 0, 99]).step.2 = .ok .needsInput := by with_unfolding_all rfl
  have hsupply : ((ofProgram [3, 0, 99]).step.1.supply (.value 7)).2 = .ok () := by with_unfolding_all rfl
  have hc : Completes m m' :=
    .answered m.step.1 m' (.value 7) (Prod.ext rfl hstep) nofun (Prod.ext rfl hsupply)
  obtain ⟨-, -, hcode, -⟩ := step_follows_reading hm rfl rfl nofun
  obtain ⟨operands, hreading, hcompleted⟩ := hcode .input (by decide +kernel)
  obtain ⟨hpc, hwrites, -⟩ := hcompleted m' hc
  refine ⟨hpc nofun ?_, ?_, fun digit opcode pc hmode => ?_⟩
  · intro hjumps
    obtain ⟨v, -, ⟨h, -⟩ | ⟨h, -⟩⟩ := hjumps <;> cases h
  · obtain ⟨operand, a, w, hoperand, htarget, hlast, hload⟩ := hwrites .first rfl
    have hlast' : m'.lastWrite = some 0 := by decide +kernel
    obtain rfl : 0 = a := Option.some.inj (hlast'.symm.trans hlast)
    exact ⟨w, hlast, hload⟩
  · obtain ⟨-, -, -, -, hfaults⟩ := step_follows_reading hm₂ rfl rfl nofun
    obtain ⟨op, p, hop, hp, hunsupported, -⟩ := hfaults digit opcode pc hmode
    obtain rfl : .output = op := by
      have hop' : (ofProgram [30004, 0, 99]).instruction.op? = some .output := by decide +kernel
      exact Option.some.inj (hop'.symm.trans hop)
    cases p with
    | first =>
      have hposition : (ofProgram [30004, 0, 99]).instruction.mode .first = .position := by decide +kernel
      rw [hposition] at hunsupported
      cases hunsupported
    | second => exact absurd hp (by decide)
    | third => exact absurd hp (by decide)

end Machine

end WordMachine
