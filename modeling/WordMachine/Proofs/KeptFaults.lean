import WordMachine.Channel.Source
import WordMachine.Proofs.Lifecycle

/-!
# Which failures of a run are kept

A run fails in a step, or at a request for input that nobody answers. A step keeps its fault on the
machine, and the machine is stopped for good. A request that is not answered leaves no fault: the run is
over, but the machine still waits.

* `Fault.isUnanswered` -- the faults of a request: there is nobody to ask, or who is asked fails;
* `Machine.StoppedBy` -- a fault that is kept, and that everything done later comes out with;
* `Machine.Candid` -- a machine keeps no fault of a request. This is preserved;
* `Machine.Broken` -- the two ways in which a run is broken off (`Machine.broken_of_run`);
* `Machine.failed_run_kept_iff` -- so a run that fails has stopped the machine if and only if the fault is
  not that of a request.
-/

namespace WordMachine

/-- Whether a fault is that of a request for input which was not answered. -/
def Fault.isUnanswered : Fault → Bool
  | .inputUnavailable _ | .provider .. => true
  | .decode .. | .address .. | .writeMode .. | .mode .. | .notAwaitingInput _ | .stepLimit ..
  | .snapshotLimit .. => false

namespace Machine

variable {σ : Type} {m m' : Machine} {e : Fault}

/-! ## 1. Stopped for good -/

/-- **A machine is stopped by a fault**: it keeps the fault; and whatever is done with it later, it
    executes nothing, every step, answer, resumption and run comes out with this fault, and the channel of
    a run stays as it is, so that nobody is asked for input. -/
def StoppedBy (m : Machine) (e : Fault) : Prop :=
  m.fault = some e ∧
  ∀ ops m', Life m ops m' →
    Still m m' ∧
    m'.step = (m', .error e) ∧
    (∀ answer, m'.supply answer = (m', .error e)) ∧
    (∀ fuel, m'.resume (fuel + 1) = some (m', .error e)) ∧
    ∀ (σ : Type) (c : Channel σ) fuel, m'.run (fuel + 1) c = some ((m', c), .error e)

/-- A fault that is kept is enough. -/
theorem stoppedBy_of_fault (hf : m.fault = some e) : m.StoppedBy e := by
  refine ⟨hf, fun ops m' hl => ?_⟩
  have hend : m.Ended (.error e) := .stopped e hf
  obtain ⟨hstill, -⟩ := hl.still hend
  have hend' := hend.of_still hstill
  exact ⟨hstill, hend'.step, supply_of_fault (hstill.fault.trans hf), hend'.resume,
    fun _ c fuel => hend'.run fuel c⟩

/-! ## 2. What is kept -/

/-- A machine keeps no fault of a request. -/
def Candid (m : Machine) : Prop := ∀ e, m.fault = some e → e.isUnanswered = false

theorem isUnanswered_at (pc : Nat) (opcode : Word) (f : AccessFault) :
    (f.at pc opcode).isUnanswered = false := by
  cases f <;> rfl

theorem isUnanswered_of_spent (h : m.spent? = some e) : e.isUnanswered = false := by
  obtain ⟨limit, -, -, rfl⟩ := exists_limit_of_spent h
  rfl

theorem candid_of_fault (he : e.isUnanswered = false) : Candid { m with fault := some e } := by
  intro e' he'
  cases he'
  exact he

/-- A step keeps the faults of instructions and of the step limit. -/
theorem Candid.step (h : m.Candid) : m.step.1.Candid := by
  have ht := m.transition
  generalize m.step.1 = m' at ht ⊢
  generalize m.step.2 = r at ht
  cases ht with
  | stopped | halted | waiting => exact h
  | resumed hf hs w rest hb a ha => exact h
  | unwritable hf hs w rest hb e ha =>
    have he := raises_at (P := fun e => e.isUnanswered = false) (isUnanswered_at m.pc _) _ e ha
    exact candid_of_fault (m := { m with backlog := rest }) he
  | spent hf hs e hsp => exact candid_of_fault (isUnanswered_of_spent hsp)
  | unknown hf hs hsp hop => exact candid_of_fault rfl
  | refused hf hs hsp op hop e he =>
    have he := raises_effect (P := fun e => e.isUnanswered = false) (isUnanswered_at m.pc _) op e he
    exact candid_of_fault (m := { m with steps := m.steps + 1 }) he
  | performed hf hs hsp op hop eff he =>
    intro e he
    rw [(steps_apply { m with steps := m.steps + 1 } eff).2] at he
    exact h e he

theorem preserved_candid : Preserved Candid where
  setUp _ _ _ _ h := h
  step _ h := h.step
  supply m answer h e he := h e ((m.fault_supply answer).symm.trans he)

/-! ## 3. Runs that fail -/

/-- **How a run is broken off**: by a fault that is kept, or by a request that is not answered, at which
    the machine still waits. -/
inductive Broken (m : Machine) (e : Fault) : Prop where
  | stopped (he : e.isUnanswered = false) (hf : m.fault = some e)
  | unanswered (he : e.isUnanswered = true) (hpc : e.pc? = some m.pc) (hf : m.fault = none)
      (hs : m.status = .awaitingInput)

/-- A turn that breaks a run off. -/
theorem broken_of_drive {c : Channel σ} (hm : m.Consistent) (hc : m.Candid) {s : Machine × Channel σ}
    (hd : Drive m c (.done (s, .error e))) : Broken s.1 e := by
  generalize ht : Turn.done (s, Except.error e) = t at hd
  have hkept := hc.step
  cases hd with
  | executed | emitted | answered | halted => cases ht
  | failed m' e' h =>
    cases ht
    have hf := hm.fault_of_step_error h
    rw [h] at hkept
    exact .stopped (hkept e hf) hf
  | unavailable m' h =>
    cases ht
    obtain ⟨hf, hs⟩ := awaiting_of_needsInput h
    exact .unanswered rfl rfl hf hs
  | unanswered m' h =>
    cases ht
    obtain ⟨hf, hs⟩ := awaiting_of_needsInput h
    exact .unanswered rfl rfl hf hs
  | refused m' h c' answer hc m'' e' hs =>
    -- an answer to a consistent machine that waits is taken
    have hok := hm.supply_ok_of_needsInput h answer
    rw [hs] at hok
    cases hok

/-- A run that fails is broken off in one of the two ways. -/
theorem broken_of_run {c c' : Channel σ} {fuel : Nat} (h : m.Reachable)
    (hr : m.run fuel c = some ((m', c'), .error e)) : Broken m' e := by
  have hstart : m.Consistent ∧ m.Candid :=
    ⟨h.consistent, preserved_candid.reachable (fun _ => nofun) h⟩
  refine Turn.run_invariant (P := fun s => s.1.Consistent ∧ s.1.Candid)
    (Q := fun r => ∀ e, r.2 = .error e → Broken r.1.1 e) ?_ ?_ hr hstart e rfl
  · intro s s' hs ht
    have hconsistent := preserved_consistent.drive (drive s.1 s.2) hs.1
    have hcandid := preserved_candid.drive (drive s.1 s.2) hs.2
    rw [ht] at hconsistent hcandid
    exact ⟨hconsistent, hcandid⟩
  · intro s r hs ht e he
    have hd := drive s.1 s.2
    rw [ht] at hd
    obtain ⟨s', result⟩ := r
    obtain rfl : result = .error e := he
    exact broken_of_drive hs.1 hs.2 hd

/-- **Which failures of a run are kept.** If the run of a reachable machine fails, then the machine is
    stopped by the fault if and only if the fault is not that of a request which was not answered. After a
    request that was not answered the machine has no fault. It still waits at the instruction that the
    fault names, and takes every answer. -/
theorem failed_run_kept_iff {c c' : Channel σ} {fuel : Nat} (h : m.Reachable)
    (hr : m.run fuel c = some ((m', c'), .error e)) :
    (m'.StoppedBy e ↔ e.isUnanswered = false) ∧
    (e.isUnanswered = true →
      m'.fault = none ∧ m'.status = .awaitingInput ∧ e.pc? = some m'.pc ∧
      ∀ answer, (m'.supply answer).2 = .ok ()) := by
  have hm' := preserved_consistent.ran hr h.consistent
  cases broken_of_run h hr with
  | stopped he hf =>
    refine ⟨⟨fun _ => he, fun _ => stoppedBy_of_fault hf⟩, fun hun => ?_⟩
    rw [he] at hun
    cases hun
  | unanswered he hpc hf hs =>
    refine ⟨⟨fun hstop => ?_, fun hno => ?_⟩, fun _ => ⟨hf, hs, hpc, ?_⟩⟩
    · have hfault := hstop.1
      rw [hf] at hfault
      cases hfault
    · rw [he] at hno
      cases hno
    · have hready : m'.Ready := fun _ hs => (hm'.awaiting hs).2.2
      exact hready.supply_ok hf hs

/-- A machine is given a value and comes to a word that is no instruction. It is stopped there. -/
theorem failed_run_kept_iff_decode :
    ∃ m' c', (ofProgram [3, 0, 98]).run 2 (.ofProvider Replies.provider [.ok (.value 5)]) =
        some ((m', c'), .error (.decode 98 2)) ∧
      m'.StoppedBy (.decode 98 2) := by
  have heval : ((ofProgram [3, 0, 98]).run 2 (.ofProvider Replies.provider [.ok (.value 5)])).any
      (fun r => match r.2 with | .error e => decide (e = .decode 98 2) | .ok () => false) = true := by
    decide +kernel
  obtain ⟨⟨⟨m', c'⟩, result⟩, hr, hresult⟩ := (Option.any_eq_true ..).1 heval
  cases result with
  | ok u => cases hresult
  | error e =>
    obtain rfl : e = .decode 98 2 := of_decide_eq_true hresult
    exact ⟨m', c', hr, ((failed_run_kept_iff ⟨_, [], .none _⟩ hr).1).2 rfl⟩

/-- Not every failure of a run is kept. Whether there is nobody to ask or who is asked fails, the run is
    over and the machine has no fault: a later run goes on at the same instruction and comes to its
    end. -/
theorem failed_run_not_kept :
    let m := ofProgram [3, 0, 99]
    let failing := Channel.ofProvider Replies.provider [.error "gone"]
    m.Reachable ∧
    m.run 1 .buffered = some ((m.step.1, .buffered), .error (.inputUnavailable 0)) ∧
    m.run 1 failing = some ((m.step.1, (failing.request 0).2), .error (.provider "gone" 0)) ∧
    m.step.1.fault = none ∧
    ¬ m.step.1.StoppedBy (.inputUnavailable 0) ∧ ¬ m.step.1.StoppedBy (.provider "gone" 0) ∧
    (m.step.1.run 2 (.ofProvider Replies.provider [.ok (.value 5)])).any (fun r => r.2.isOk) = true := by
  intro m failing
  have hf : m.step.1.fault = none := by decide +kernel
  have hno : ∀ e, ¬ m.step.1.StoppedBy e := by
    intro e hstop
    have hkept := hstop.1
    rw [hf] at hkept
    cases hkept
  have hresult : (ofProgram [3, 0, 99]).step.2 = .ok .needsInput := by with_unfolding_all rfl
  have hstep : m.step = (m.step.1, .ok .needsInput) := Prod.ext rfl hresult
  have hpc : m.step.1.pc = 0 := by decide +kernel
  have hinputs : m.step.1.inputs = 0 := by decide +kernel
  refine ⟨⟨_, [], .none _⟩, ?_, ?_, hf, hno _, hno _, by decide +kernel⟩
  · unfold run
    rw [Turn.run_succ, runTurn, hstep]
    simp only [answerFrom, Channel.buffered, Channel.request, hpc]
  · unfold run
    rw [Turn.run_succ, runTurn, hstep]
    simp only [answerFrom, failing, Channel.ofProvider, Channel.request, hpc, hinputs]
    rfl

end Machine

end WordMachine
