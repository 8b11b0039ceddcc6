import WordMachine.Proofs.Lifecycle
import WordMachine.Proofs.Storage

/-!
# Taking input and keeping memory in order

What a step does to the input and to the memory of a machine, seen from outside.

* `Machine.taken?` -- the value that a machine has taken from one moment to the next;
* `Machine.Intake` -- a step takes the first value of the backlog or none (`intake_step`), and nothing
  leaves the backlog but what is taken (`balance_step`);
* `Machine.apply_withInput` -- more input makes no difference to an instruction that does not ask;
* `Machine.apart_step`, `Machine.apart_supply` -- steps and answers keep the sparse words past the dense
  region. So this holds of every machine whose memory was built by stores (`Machine.Constructible`).
-/

namespace WordMachine.Machine

variable {m m' : Machine}

/-! ## 1. Taking values -/

/-- The value that a machine has taken between two moments with at most one input instruction between
    them: it stands where it was stored. -/
def taken? (m m' : Machine) : Option Word :=
  if m'.inputs = m.inputs then none else m'.lastWrite.map m'.memory.load

theorem taken?_of_inputs (h : m'.inputs = m.inputs) : taken? m m' = none := if_pos h

theorem taken?_takeInput (hm : m'.memory.Apart) (h : m'.inputs = m.inputs) (a : Nat) (w : Word) :
    taken? m (m'.takeInput a w) = some w := by
  have hne : (m'.takeInput a w).inputs ≠ m.inputs := by
    show m'.inputs + 1 ≠ m.inputs
    omega
  have hload : (m'.memory.store a w).load a = w := by
    rw [Memory.load_store hm, if_pos rfl]
  exact (if_neg hne).trans (congrArg some hload)

/-- **What becomes of the input** from `m` to `m'`: nothing is taken, or the first value of the backlog.
    If the machine fails, that value may be lost, but it has not been taken. -/
inductive Intake (m m' : Machine) : Prop where
  | none (inputs : m'.inputs = m.inputs) (backlog : m'.fault = none → m'.backlog = m.backlog)
  | first (m₀ : Machine) (a : Nat) (w : Word) (h : m' = m₀.takeInput a w)
      (backlog : m.backlog = w :: m₀.backlog) (inputs : m₀.inputs = m.inputs)
      (memory : m₀.memory = m.memory) (fault : m₀.fault = none)

theorem intake_apply (hf : m.fault = none) (eff : Effect) : Intake m (m.apply eff).1 := by
  cases eff with
  | take a =>
    cases hb : m.backlog with
    | nil =>
      rw [apply_take_nil hb]
      exact .none rfl fun _ => rfl
    | cons w rest =>
      rw [apply_take_cons hb]
      exact .first _ a w rfl hb rfl rfl hf
  | store | emit | jump | pass | moveBase | halt => exact .none rfl fun _ => rfl

theorem intake_step (m : Machine) : Intake m m.step.1 := by
  have ht := m.transition
  generalize m.step.1 = m' at ht ⊢
  generalize m.step.2 = r at ht
  cases ht with
  | stopped | halted | waiting | spent | unknown | refused => exact .none rfl fun _ => rfl
  | unwritable => exact .none rfl nofun
  | resumed hf hs w rest hb a ha => exact .first _ a w rfl hb rfl rfl hf
  | performed hf hs hsp op hop eff he =>
    cases intake_apply (m := { m with steps := m.steps + 1 }) hf eff with
    | none inputs backlog => exact .none inputs backlog
    | first m₀ a w h backlog inputs memory fault =>
      exact .first m₀ a w h backlog inputs memory fault

theorem Intake.inputs_eq (h : Intake m m') (hm : m.memory.Apart) :
    m'.inputs = m.inputs + (taken? m m').toList.length := by
  cases h with
  | none inputs backlog =>
    rw [taken?_of_inputs inputs, inputs]
    rfl
  | first m₀ a w hm' backlog inputs memory fault =>
    rw [hm', taken?_takeInput (memory ▸ hm) inputs, ← inputs]
    rfl

/-- Only an input instruction asks, and only if the backlog is empty. -/
theorem take_of_asking {asking : Machine} {eff : Effect} (h : m.apply eff = (asking, .needsInput)) :
    ∃ a, eff = .take a ∧ m.backlog = [] ∧ asking = { m with status := .awaitingInput } := by
  cases eff with
  | take a =>
    by_cases hb : m.backlog = []
    · rw [apply_take_nil hb] at h
      exact ⟨a, rfl, hb, (Prod.mk.inj h).1.symm⟩
    · obtain ⟨w, rest, hb⟩ := List.exists_cons_of_ne_nil hb
      rw [apply_take_cons hb] at h
      cases h
  | store | emit | jump | pass | moveBase | halt => cases h

/-- **Every value that leaves the backlog is taken.** -/
theorem balance_step (h : m.Ready) :
    m.step.1.inputs + m.step.1.backlog.length = m.inputs + m.backlog.length := by
  have ht := m.transition
  generalize m.step.1 = m' at ht ⊢
  generalize m.step.2 = r at ht
  cases ht with
  | stopped | halted | waiting | spent | unknown | refused => rfl
  | resumed hf hs w rest hb a ha =>
    show m.inputs + 1 + rest.length = m.inputs + m.backlog.length
    rw [hb, List.length_cons]
    omega
  | unwritable hf hs w rest hb e ha =>
    obtain ⟨a, ha'⟩ := h hf hs
    rw [ha'] at ha
    cases ha
  | performed hf hs hsp op hop eff he =>
    cases intake_apply (m := { m with steps := m.steps + 1 }) hf eff with
    | none inputs backlog =>
      rw [inputs, backlog ((steps_apply _ eff).2.trans hf)]
    | first m₀ a w h backlog inputs memory fault =>
      have hlength : m.backlog.length = m₀.backlog.length + 1 := congrArg List.length backlog
      have hinputs : m₀.inputs = m.inputs := inputs
      rw [h]
      show m₀.inputs + 1 + m₀.backlog.length = m.inputs + m.backlog.length
      omega

/-! ## 2. More input -/

variable {input : List Word}

/-- More input makes no difference to an instruction, unless it takes an input and has none. -/
theorem apply_withInput (m : Machine) (input : List Word) (eff : Effect)
    (h : ∀ a, eff = .take a → m.backlog ≠ []) :
    (m.withInput input).apply eff = ((m.apply eff).1.withInput input, (m.apply eff).2) := by
  cases eff with
  | take a =>
    cases hb : m.backlog with
    | nil => exact absurd hb (h a rfl)
    | cons w rest =>
      have hfed : (m.withInput input).backlog = w :: (rest ++ input) := by
        show m.backlog ++ input = _
        rw [hb]
        rfl
      rw [apply_take_cons hb, apply_take_cons hfed]
      rfl
  | store | emit | jump | pass | moveBase | halt => rfl

/-- A machine that asks takes from whoever answers what it would have taken from its backlog. -/
theorem apply_take_withInput {w : Word} {rest : List Word} {a : Nat} (hb : m.backlog = []) :
    (m.withInput (w :: rest)).apply (.take a) =
      (({ m with status := .awaitingInput }.takeInput a w).withInput rest, .executed) := by
  have hfed : (m.withInput (w :: rest)).backlog = w :: rest := by
    show m.backlog ++ w :: rest = _
    rw [hb]
    rfl
  rw [apply_take_cons hfed]
  simp only [withInput, takeInput, store, hb, List.nil_append]

/-! ## 3. Memory in order -/

theorem apart_apply (hm : m.memory.Apart) (eff : Effect) : (m.apply eff).1.memory.Apart := by
  cases eff with
  | take a =>
    cases hb : m.backlog with
    | nil =>
      rw [apply_take_nil hb]
      exact hm
    | cons w rest =>
      rw [apply_take_cons hb]
      exact hm.store a w
  | store a w => exact hm.store a w
  | emit | jump | pass | moveBase | halt => exact hm

theorem apart_step (hm : m.memory.Apart) : m.step.1.memory.Apart := by
  have ht := m.transition
  generalize m.step.1 = m' at ht ⊢
  generalize m.step.2 = r at ht
  cases ht with
  | stopped | halted | waiting | unwritable | spent | unknown | refused => exact hm
  | resumed hf hs w rest hb a ha => exact hm.store a w
  | performed hf hs hsp op hop eff he => exact apart_apply (m := { m with steps := m.steps + 1 }) hm eff

theorem apart_supply (hm : m.memory.Apart) (answer : Answer) : (m.supply answer).1.memory.Apart := by
  rcases m.supply_leaves answer with h | ⟨a, w, h⟩ | h
  · rw [h]
    exact hm
  · rw [h]
    exact hm.store a w
  · rw [h]
    exact hm

theorem preserved_apart : Preserved fun m => m.memory.Apart where
  setUp _ _ _ _ h := h
  step _ h := apart_step h
  supply _ answer h := apart_supply h answer

/-- **A machine is constructible** if a life leads to it from a memory that was built by stores into an
    image. -/
def Constructible (m : Machine) : Prop :=
  ∃ image stores ops, Life (ofMemory ((Memory.ofImage image).storeAll stores)) ops m

theorem Constructible.reachable (h : m.Constructible) : m.Reachable := by
  obtain ⟨image, stores, ops, hl⟩ := h
  exact ⟨_, ops, hl⟩

theorem Constructible.apart (h : m.Constructible) : m.memory.Apart := by
  obtain ⟨image, stores, ops, hl⟩ := h
  exact preserved_apart.lives hl (Memory.stored_storeAll image stores).apart

end WordMachine.Machine
