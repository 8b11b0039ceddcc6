import WordMachine.Proofs.Decoding
import WordMachine.Proofs.Ideal
import WordMachine.Proofs.Storage
import WordMachine.Proofs.Transition

/-!
# The machine does what the opcode table says

A machine with its two-part memory, its decoded instructions and its effects is set beside the ideal
machine of the opcode table.

* `Realises` -- a machine and an ideal machine agree on all that can be seen: every address of memory,
  the registers, the status, the backlog, the output, the counts and the fault. Also part of it is what
  keeps the agreement going: the sparse words lie past the dense region, and the input that a machine
  waits for goes to the address that the ideal machine has kept;
* `Realises.effect` -- one opcode: both refuse for the same reason, or do the same;
* `Realises.step`, `Realises.supply`, `Realises.push` -- one call;
* `calls_realise` -- any calls, from any image, stores and backlog.
-/

namespace WordMachine

/-! ## 1. The opcode table -/

/-- The row of the table that an opcode stands for. -/
def Opcode.operation : Opcode → Ideal.Operation
  | .add => .combine fun a b => a + b
  | .mul => .combine fun a b => a * b
  | .input => .input
  | .output => .output
  | .jumpIfTrue => .jump fun a => a ≠ 0
  | .jumpIfFalse => .jump fun a => a = 0
  | .lessThan => .combine fun a b => if a < b then 1 else 0
  | .equals => .combine fun a b => if a = b then 1 else 0
  | .adjustBase => .adjustBase
  | .halt => .halt

theorem Ideal.table_toInt (code : Word) :
    Ideal.table code.toInt = (Opcode.ofCode? code).map Opcode.operation := by
  unfold Ideal.table Opcode.ofCode?
  split <;> simp_all [Opcode.operation]

/-! ## 2. Words -/

theorem Word.toInt_addClamped (a b : Word) :
    (Word.addClamped a b).toInt = Ideal.nearest (a.toInt + b.toInt) := by
  unfold Word.addClamped Word.clamp Ideal.nearest Word.minInt Word.maxInt
  split
  · have h : (Int64.ofInt (-9223372036854775808)).toInt = -9223372036854775808 := by decide
    omega
  · split
    · have h : (Int64.ofInt 9223372036854775807).toInt = 9223372036854775807 := by decide
      omega
    · rw [Int64.toInt_ofInt_of_le (by omega) (by omega)]
      omega

theorem Word.ofInt_add_toInt (a b : Word) : Int64.ofInt (a.toInt + b.toInt) = a + b := by
  rw [Int64.ofInt_add, Int64.ofInt_toInt, Int64.ofInt_toInt]

theorem Word.ofInt_mul_toInt (a b : Word) : Int64.ofInt (a.toInt * b.toInt) = a * b := by
  rw [Int64.ofInt_mul, Int64.ofInt_toInt, Int64.ofInt_toInt]

theorem Word.ofInt_ite_lt (a b : Word) :
    Int64.ofInt (if a.toInt < b.toInt then 1 else 0) = Word.ofBool (decide (a < b)) := by
  unfold Word.ofBool
  by_cases h : a < b
  · have h' := Int64.lt_iff_toInt_lt.1 h
    simp [h, h']
  · have h' : ¬ a.toInt < b.toInt := fun h'' => h (Int64.lt_iff_toInt_lt.2 h'')
    simp [h, h']

theorem Word.ofInt_ite_eq (a b : Word) :
    Int64.ofInt (if a.toInt = b.toInt then 1 else 0) = Word.ofBool (decide (a = b)) := by
  unfold Word.ofBool
  by_cases h : a = b
  · simp [h]
  · have h' : ¬ a.toInt = b.toInt := fun h'' => h (Int64.toInt_inj.1 h'')
    simp [h, h']

theorem Word.decide_toInt_ne_zero (a : Word) : decide (a.toInt ≠ 0) = decide (a ≠ 0) :=
  decide_eq_decide.2 (not_congr (Int64.toInt_inj (x := a) (y := 0)))

theorem Word.decide_toInt_eq_zero (a : Word) : decide (a.toInt = 0) = decide (a = 0) :=
  decide_eq_decide.2 (Int64.toInt_inj (x := a) (y := 0))

/-! ## 3. Single ways of a step -/

theorem Ideal.take_cons {s : Ideal} {a : Nat} {w : Word} {rest : List Word}
    (h : s.backlog = w :: rest) :
    s.take a = ({ s with backlog := rest }.receive a w, .executed) := by
  simp only [Ideal.take, h]

theorem Ideal.take_nil {s : Ideal} {a : Nat} (h : s.backlog = []) :
    s.take a = ({ s with status := .awaiting a }, .needsInput) := by
  simp only [Ideal.take, h]

theorem Ideal.step_of_running {s : Ideal} (hf : s.fault = none) (hs : s.status = .running) :
    s.step = s.fetch := by
  simp only [Ideal.step, hf, hs]

theorem Ideal.fetch_of_none {s : Ideal} (h : Ideal.table s.code = none) :
    s.fetch = s.stop (.decode (Int64.ofInt s.code) s.pc) := by
  unfold Ideal.fetch
  rw [h]

theorem Ideal.fetch_of_error {s : Ideal} {op : Ideal.Operation} {e : Fault}
    (h : Ideal.table s.code = some op) (he : Ideal.perform { s with steps := s.steps + 1 } op = .error e) :
    s.fetch = { s with steps := s.steps + 1 }.stop e := by
  unfold Ideal.fetch
  rw [h]
  simp only [he]

theorem Ideal.fetch_of_ok {s : Ideal} {op : Ideal.Operation} {r : Ideal × Machine.Step}
    (h : Ideal.table s.code = some op) (hr : Ideal.perform { s with steps := s.steps + 1 } op = .ok r) :
    s.fetch = (r.1, .ok r.2) := by
  unfold Ideal.fetch
  rw [h]
  simp only [hr]

/-! ## 4. The relation -/

/-- The status that can be seen of an ideal machine. -/
def Ideal.Status.outward : Ideal.Status → WordMachine.Status
  | .running => .running
  | .awaiting _ => .awaitingInput
  | .halted => .halted

/-- **A machine realises an ideal machine**: all that can be seen of them is the same. -/
structure Realises (m : Machine) (s : Ideal) : Prop where
  memory : ∀ a, m.memory.load a = s.memory a
  pc : m.pc = s.pc
  base : m.base = s.base
  status : m.status = s.status.outward
  backlog : m.backlog = s.backlog
  output : m.output.toList = s.output
  inputs : m.inputs = s.inputs
  steps : m.steps = s.steps
  idleInput : m.idleInput = s.idleInput
  lastWrite : m.lastWrite = s.lastWrite
  fault : m.fault = s.fault
  unlimited : m.stepLimit = none
  apart : m.memory.Apart
  awaited : ∀ a, s.status = .awaiting a → m.inputTarget = .ok a

namespace Realises

variable {m : Machine} {s : Ideal}

/-- The start: a memory that was stored, and the function of what was stored. -/
theorem start (image : List Word) (stores : List (Nat × Word)) (backlog : List Word) (idle : Word) :
    Realises
      (((Machine.ofMemory ((Memory.ofImage image).storeAll stores)).withInput backlog).withIdleInput idle)
      (Ideal.start (fun a => (Memory.lastStored? stores a).getD (image[a]?.getD 0)) backlog idle) where
  memory := (Memory.stored_storeAll image stores).load_eq
  pc := rfl
  base := rfl
  status := rfl
  backlog := rfl
  output := rfl
  inputs := rfl
  steps := rfl
  idleInput := rfl
  lastWrite := rfl
  fault := rfl
  unlimited := rfl
  apart := (Memory.stored_storeAll image stores).apart
  awaited a h := by cases h

/-! ### Parameters -/

theorem code (h : Realises m s) : m.instruction.opcode.toInt = s.code := by
  unfold Machine.instruction Ideal.code
  rw [h.memory, h.pc, Instruction.toInt_opcode_decode]

theorem opcode (h : Realises m s) : m.instruction.opcode = Int64.ofInt s.code := by
  rw [← h.code, Int64.ofInt_toInt]

theorem mode (h : Realises m s) (p : Param) :
    m.instruction.mode p = Mode.ofDigit (s.digit p.index) := by
  unfold Machine.instruction Ideal.digit
  rw [h.memory, h.pc, Instruction.mode_decode]

theorem operand (h : Realises m s) (p : Param) : (m.operand p).toInt = s.operand p.index := by
  unfold Machine.operand Ideal.operand
  rw [h.memory, h.pc]

theorem address (h : Realises m s) (w : Word) (opcode : Word) :
    (addressOf w).mapError (·.at m.pc opcode) = s.address w.toInt := by
  unfold addressOf Word.address? Ideal.address
  by_cases hw : w.toInt < 0
  · rw [if_pos hw, if_neg (by omega), Int64.ofInt_toInt, ← h.pc]
    rfl
  · rw [if_neg hw, if_pos (by omega)]
    rfl

/-- The address that a parameter names is the same, and so is the reason if it names none. -/
theorem target (h : Realises m s) (p : Param) :
    m.target m.instruction p = s.location p.index := by
  unfold Machine.target Ideal.location
  rw [h.mode p, ← h.operand p, ← h.base, ← h.opcode, ← h.pc]
  match s.digit p.index with
  | 0 => exact h.address _ _
  | 1 => rfl
  | 2 =>
    rw [← Word.toInt_addClamped]
    exact h.address _ _
  | _ + 3 => rfl

/-- The value of a parameter is the same, and so is the reason if it has none. -/
theorem value (h : Realises m s) (p : Param) :
    s.value p.index = (m.param m.instruction p).map Int64.toInt := by
  have ht := h.target p
  unfold Machine.target at ht
  unfold Machine.param Ideal.value Memory.read
  rw [h.mode p] at ht ⊢
  rw [← ht, ← h.operand p]
  generalize s.digit p.index = d
  match d with
  | 1 => rfl
  | 0 | 2 | _ + 3 =>
    simp only [Mode.ofDigit]
    generalize Mode.target _ _ _ = r
    cases r with
    | error e => rfl
    | ok a =>
      show Except.ok (s.memory a).toInt = Except.ok (m.memory.load a).toInt
      rw [h.memory]

/-! ### What changes -/

theorem counted (h : Realises m s) :
    Realises { m with steps := m.steps + 1 } { s with steps := s.steps + 1 } :=
  { h with steps := congrArg (· + 1) h.steps }

theorem stopped (h : Realises m s) (e : Fault) :
    Realises { m with fault := some e } { s with fault := some e } :=
  { h with fault := rfl }

theorem push (h : Realises m s) (w : Word) : Realises (m.pushInput w) (s.push w) :=
  { h with backlog := congrArg (· ++ [w]) h.backlog }

theorem moved (h : Realises m s) (hs : s.status = .running) {pc pc' : Nat} (hpc : pc = pc') :
    Realises { m with pc := pc } { s with pc := pc' } :=
  { h with pc := hpc, awaited := fun a ha => by rw [hs] at ha; cases ha }

theorem written (h : Realises m s) (hs : s.status = .running) (a : Nat) (w : Word) :
    Realises (m.store a w) (s.write a w) :=
  { h with
    memory := fun b => by
      show (m.memory.store a w).load b = if b = a then w else s.memory b
      rw [Memory.load_store h.apart, h.memory]
    lastWrite := rfl
    apart := h.apart.store a w
    awaited := fun b hb => by
      have hb' : s.status = .awaiting b := hb
      rw [hs] at hb'
      cases hb' }

/-- An input that arrives ends the waiting, so nothing is asked of the address any more. -/
theorem received (h : Realises m s) (a : Nat) (w : Word) :
    Realises (m.takeInput a w) (s.receive a w) :=
  { h with
    memory := fun b => by
      show (m.memory.store a w).load b = if b = a then w else s.memory b
      rw [Memory.load_store h.apart, h.memory]
    pc := congrArg (· + 2) h.pc
    status := rfl
    inputs := congrArg (· + 1) h.inputs
    lastWrite := rfl
    apart := h.apart.store a w
    awaited := fun b hb => by cases hb }

theorem popped (h : Realises m s) (rest : List Word) :
    Realises { m with backlog := rest } { s with backlog := rest } :=
  { h with backlog := rfl }

theorem halted (h : Realises m s) :
    Realises { m with status := .halted } { s with status := .halted } :=
  { h with status := rfl, awaited := fun a ha => by cases ha }

/-! ### One opcode -/

/-- What an instruction is about to do and what an operation did: both are refused for the same reason,
    or doing the one leads to the other. -/
def Agrees (m : Machine) : Except Fault Machine.Effect → Except Fault (Ideal × Machine.Step) → Prop
  | .error e, .error e' => e = e'
  | .ok eff, .ok (s, r) => Realises (m.apply eff).1 s ∧ (m.apply eff).2 = r
  | _, _ => False

theorem take (h : Realises m s) {a : Nat} (ha : m.inputTarget = .ok a) :
    Realises (m.apply (.take a)).1 (s.take a).1 ∧ (m.apply (.take a)).2 = (s.take a).2 := by
  have hback := h.backlog
  cases hb : m.backlog with
  | cons w rest =>
    rw [hb] at hback
    rw [Machine.apply_take_cons hb, Ideal.take_cons hback.symm]
    exact ⟨(h.popped rest).received a w, rfl⟩
  | nil =>
    rw [hb] at hback
    rw [Machine.apply_take_nil hb, Ideal.take_nil hback.symm]
    refine ⟨{ h with status := rfl, awaited := fun b hb' => ?_ }, rfl⟩
    cases hb'
    exact ha

theorem combine (h : Realises m s) (hs : s.status = .running) {f : Word → Word → Word}
    {g : Int → Int → Int} (hfg : ∀ a b : Word, Int64.ofInt (g a.toInt b.toInt) = f a b) :
    Agrees m (m.combine m.instruction f) (s.perform (.combine g)) := by
  unfold Machine.combine Ideal.perform
  rw [show s.value 0 = _ from h.value .first, show s.value 1 = _ from h.value .second,
    ← show _ = s.location 2 from h.target .third]
  cases m.param m.instruction .first with
  | error e => exact rfl
  | ok a =>
    cases m.param m.instruction .second with
    | error e => exact rfl
    | ok b =>
      cases m.target m.instruction .third with
      | error e => exact rfl
      | ok c =>
        refine ⟨?_, rfl⟩
        show Realises { m.store c (f a b) with pc := m.pc + 4 }
          { s.write c (Int64.ofInt (g a.toInt b.toInt)) with pc := s.pc + 4 }
        rw [hfg]
        exact (h.written hs c _).moved hs (congrArg (· + 4) h.pc)

theorem jumpWhen (h : Realises m s) (hs : s.status = .running) {f : Word → Bool} {g : Int → Bool}
    (hfg : ∀ a : Word, g a.toInt = f a) :
    Agrees m (m.jumpWhen m.instruction f) (s.perform (.jump g)) := by
  unfold Machine.jumpWhen Ideal.perform
  rw [show s.value 0 = _ from h.value .first, show s.value 1 = _ from h.value .second]
  cases m.param m.instruction .first with
  | error e => exact rfl
  | ok a =>
    cases m.param m.instruction .second with
    | error e => exact rfl
    | ok b =>
      have hb := h.address b m.instruction.opcode
      show Agrees m (if f a = true then _ else _) (if g a.toInt = true then _ else _)
      rw [hfg]
      by_cases ha : f a = true
      · rw [if_pos ha, if_pos ha, ← hb]
        unfold addressOf
        cases Word.address? b with
        | none => exact rfl
        | some t => exact ⟨h.moved hs rfl, rfl⟩
      · rw [if_neg ha, if_neg ha]
        exact ⟨h.moved hs (congrArg (· + 3) h.pc), rfl⟩

/-- **One opcode**: machine and ideal machine refuse it for the same reason, or do the same. -/
theorem effect (h : Realises m s) (hs : s.status = .running) (op : Opcode) :
    Agrees m (m.effect m.instruction op) (s.perform op.operation) := by
  cases op with
  | add => exact h.combine hs Word.ofInt_add_toInt
  | mul => exact h.combine hs Word.ofInt_mul_toInt
  | lessThan => exact h.combine hs Word.ofInt_ite_lt
  | equals => exact h.combine hs Word.ofInt_ite_eq
  | jumpIfTrue => exact h.jumpWhen hs Word.decide_toInt_ne_zero
  | jumpIfFalse => exact h.jumpWhen hs Word.decide_toInt_eq_zero
  | input =>
    unfold Machine.effect Opcode.operation Ideal.perform
    rw [← show _ = s.location 0 from h.target .first]
    cases ht : m.target m.instruction .first with
    | error e => exact rfl
    | ok a => exact h.take ht
  | output =>
    unfold Machine.effect Opcode.operation Ideal.perform
    rw [show s.value 0 = _ from h.value .first]
    cases m.param m.instruction .first with
    | error e => exact rfl
    | ok a =>
      show Realises { m with output := m.output.push a, pc := m.pc + 2 }
        { s with output := s.output ++ [Int64.ofInt a.toInt], pc := s.pc + 2 } ∧ _
      rw [Int64.ofInt_toInt]
      have hout : (m.output.push a).toList = s.output ++ [a] := by
        rw [Array.toList_push, h.output]
      exact ⟨{ h.moved hs (congrArg (· + 2) h.pc) with output := hout }, rfl⟩
  | adjustBase =>
    unfold Machine.effect Opcode.operation Ideal.perform
    rw [show s.value 0 = _ from h.value .first]
    cases m.param m.instruction .first with
    | error e => exact rfl
    | ok a =>
      have hbase : m.base + a = Int64.ofInt (s.base.toInt + a.toInt) := by
        rw [Word.ofInt_add_toInt, h.base]
      refine ⟨{ h.moved hs (congrArg (· + 2) h.pc) with base := hbase, awaited := fun b hb => ?_ }, rfl⟩
      have hb' : s.status = .awaiting b := hb
      rw [hs] at hb'
      cases hb'
  | halt => exact ⟨h.halted, rfl⟩

/-! ### One call -/

/-- The row of the table is found for both or for neither. -/
theorem table (h : Realises m s) :
    Ideal.table s.code = m.instruction.op?.map Opcode.operation := by
  rw [← h.code]
  exact Ideal.table_toInt _

theorem idealStatus_running (h : Realises m s) (hs : m.status = .running) : s.status = .running := by
  have hst := h.status
  rw [hs] at hst
  cases hi : s.status with
  | running => rfl
  | awaiting a => rw [hi] at hst; cases hst
  | halted => rw [hi] at hst; cases hst

theorem idealStatus_halted (h : Realises m s) (hs : m.status = .halted) : s.status = .halted := by
  have hst := h.status
  rw [hs] at hst
  cases hi : s.status with
  | halted => rfl
  | awaiting a => rw [hi] at hst; cases hst
  | running => rw [hi] at hst; cases hst

theorem idealStatus_awaiting (h : Realises m s) (hs : m.status = .awaitingInput) :
    ∃ a, s.status = .awaiting a ∧ m.inputTarget = .ok a := by
  have hst := h.status
  rw [hs] at hst
  cases hi : s.status with
  | awaiting a => exact ⟨a, rfl, h.awaited a hi⟩
  | halted => rw [hi] at hst; cases hst
  | running => rw [hi] at hst; cases hst

/-- **One step**: the reply is the same, and the machines go on alike. -/
theorem step (h : Realises m s) : Realises m.step.1 s.step.1 ∧ m.step.2 = s.step.2 := by
  have ht := m.transition
  generalize m.step.1 = m' at ht ⊢
  generalize m.step.2 = r at ht ⊢
  cases ht with
  | stopped e hf =>
    have hstep : s.step = (s, .error e) := by
      simp only [Ideal.step, ← h.fault, hf]
    rw [hstep]
    exact ⟨h, rfl⟩
  | halted hf hs =>
    have hstep : s.step = (s, .ok .halted) := by
      simp only [Ideal.step, ← h.fault, hf, h.idealStatus_halted hs]
    rw [hstep]
    exact ⟨h, rfl⟩
  | waiting hf hs hb =>
    obtain ⟨a, hi, -⟩ := h.idealStatus_awaiting hs
    have hstep : s.step = (s, .ok .needsInput) := by
      simp only [Ideal.step, ← h.fault, hf, hi, ← h.backlog, hb]
    rw [hstep]
    exact ⟨h, rfl⟩
  | resumed hf hs w rest hb a ha =>
    obtain ⟨a', hi, ha'⟩ := h.idealStatus_awaiting hs
    obtain rfl : a = a' := Except.ok.inj (ha.symm.trans ha')
    have hstep : s.step = ({ s with backlog := rest }.receive a w, .ok .executed) := by
      simp only [Ideal.step, ← h.fault, hf, hi, ← h.backlog, hb]
    rw [hstep]
    exact ⟨(h.popped rest).received a w, rfl⟩
  | unwritable hf hs w rest hb e ha =>
    -- a machine does not wait on an address that it could not write
    obtain ⟨a, hi, ha'⟩ := h.idealStatus_awaiting hs
    rw [ha'] at ha
    cases ha
  | spent hf hs e hsp =>
    obtain ⟨limit, hlimit, -⟩ := Machine.exists_limit_of_spent hsp
    rw [h.unlimited] at hlimit
    cases hlimit
  | unknown hf hs hsp hop =>
    have htable : Ideal.table s.code = none := by rw [h.table, hop, Option.map_none]
    rw [Ideal.step_of_running (h.fault.symm.trans hf) (h.idealStatus_running hs),
      Ideal.fetch_of_none htable, ← h.opcode, ← h.pc]
    exact ⟨h.stopped _, rfl⟩
  | refused hf hs hsp op hop e he =>
    have hi := h.idealStatus_running hs
    have htable : Ideal.table s.code = some op.operation := by rw [h.table, hop, Option.map_some]
    have hagree : Agrees _ (m.effect m.instruction op) _ := h.counted.effect hi op
    rw [he] at hagree
    rw [Ideal.step_of_running (h.fault.symm.trans hf) hi]
    cases hp : Ideal.perform { s with steps := s.steps + 1 } op.operation with
    | ok r => rw [hp] at hagree; exact hagree.elim
    | error e' =>
      rw [hp] at hagree
      obtain rfl : e = e' := hagree
      rw [Ideal.fetch_of_error htable hp]
      exact ⟨h.counted.stopped e, rfl⟩
  | performed hf hs hsp op hop eff he =>
    have hi := h.idealStatus_running hs
    have htable : Ideal.table s.code = some op.operation := by rw [h.table, hop, Option.map_some]
    have hagree : Agrees _ (m.effect m.instruction op) _ := h.counted.effect hi op
    rw [he] at hagree
    rw [Ideal.step_of_running (h.fault.symm.trans hf) hi]
    cases hp : Ideal.perform { s with steps := s.steps + 1 } op.operation with
    | error e' => rw [hp] at hagree; exact hagree.elim
    | ok r =>
      rw [hp] at hagree
      rw [Ideal.fetch_of_ok htable hp]
      exact ⟨hagree.1, congrArg Except.ok hagree.2⟩

/-- **One answer**: the reply is the same, and the machines go on alike. -/
theorem supply (h : Realises m s) (answer : Answer) :
    Realises (m.supply answer).1 (s.supply answer).1 ∧ (m.supply answer).2 = (s.supply answer).2 := by
  have hfault := h.fault
  cases hf : m.fault with
  | some e =>
    rw [hf] at hfault
    have hi : s.supply answer = (s, .error e) := by simp only [Ideal.supply, ← hfault]
    rw [Machine.supply_of_fault hf, hi]
    exact ⟨h, rfl⟩
  | none =>
    rw [hf] at hfault
    by_cases hs : m.status = .awaitingInput
    · obtain ⟨a, hi, ha⟩ := h.idealStatus_awaiting hs
      cases answer with
      | value w =>
        have hsup : s.supply (.value w) = (s.receive a w, .ok ()) := by
          simp only [Ideal.supply, ← hfault, hi]
        rw [Machine.supply_value hf hs, Machine.completeInput_of_ok ha, hsup]
        exact ⟨h.received a w, rfl⟩
      | noValue =>
        have hsup : s.supply .noValue = (s.receive a s.idleInput, .ok ()) := by
          simp only [Ideal.supply, ← hfault, hi]
        rw [Machine.supply_noValue hf hs, Machine.completeInput_of_ok ha, hsup, h.idleInput]
        exact ⟨h.received a _, rfl⟩
      | terminate =>
        have hsup : s.supply .terminate = ({ s with status := .halted }, .ok ()) := by
          simp only [Ideal.supply, ← hfault, hi]
        rw [Machine.supply_terminate hf hs, hsup]
        exact ⟨h.halted, rfl⟩
    · have hi : s.supply answer = (s, .error (.notAwaitingInput s.pc)) := by
        cases hst : s.status with
        | awaiting a => exact absurd (h.status.trans (congrArg Ideal.Status.outward hst)) hs
        | running => simp only [Ideal.supply, ← hfault, hst]
        | halted => simp only [Ideal.supply, ← hfault, hst]
      rw [Machine.supply_of_not_awaiting hf hs, hi, h.pc]
      exact ⟨h, rfl⟩

theorem call (h : Realises m s) (c : Call) :
    Realises (m.call c).1 (s.call c).1 ∧ (m.call c).2 = (s.call c).2 := by
  cases c with
  | step =>
    obtain ⟨hr, he⟩ := h.step
    exact ⟨hr, congrArg Reply.stepped he⟩
  | push w => exact ⟨h.push w, rfl⟩
  | supply answer =>
    obtain ⟨hr, he⟩ := h.supply answer
    exact ⟨hr, congrArg Reply.supplied he⟩

theorem calls (h : Realises m s) (cs : List Call) :
    Realises (m.calls cs).1 (s.calls cs).1 ∧ (m.calls cs).2 = (s.calls cs).2 := by
  induction cs generalizing m s with
  | nil => exact ⟨h, rfl⟩
  | cons c rest ih =>
    obtain ⟨hr, he⟩ := h.call c
    obtain ⟨hr', he'⟩ := ih hr
    refine ⟨hr', ?_⟩
    show (m.call c).2 :: ((m.call c).1.calls rest).2 = (s.call c).2 :: ((s.call c).1.calls rest).2
    rw [he, he']

end Realises

/-! ## 5. Any calls -/

/-- **The machine does what the opcode table says.** Whatever image and stores its memory was built
    from, whatever its backlog and its idle value, and whatever steps, pushed values and answers follow:
    each call gives the reply that the ideal machine gives, and afterwards the two agree on all that can
    be seen. The calls are any list, so this holds after each of them. -/
theorem calls_realise (image : List Word) (stores : List (Nat × Word)) (backlog : List Word)
    (idle : Word) (cs : List Call) :
    let m := ((Machine.ofMemory ((Memory.ofImage image).storeAll stores)).withInput backlog).withIdleInput
      idle
    let s := Ideal.start (fun a => (Memory.lastStored? stores a).getD (image[a]?.getD 0)) backlog idle
    (m.calls cs).2 = (s.calls cs).2 ∧ Realises (m.calls cs).1 (s.calls cs).1 := by
  intro m s
  obtain ⟨hr, he⟩ := (Realises.start image stores backlog idle).calls cs
  exact ⟨he, hr⟩

end WordMachine
