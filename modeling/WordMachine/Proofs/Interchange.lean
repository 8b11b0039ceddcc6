import WordMachine.Channel.Source
import WordMachine.Proofs.Intake

/-!
# Values in the backlog and values from a provider

An input instruction is completed in one of two ways: at once, with a value of the backlog, or after the
machine has asked, with an answer. This file shows that it makes no difference which.

* `Provider.after` -- the provider that first gives the values of a list, then asks another one;
* `Machine.step_withInput`, `Machine.step_withInput_of_asking` -- the step of a machine with more input in
  its backlog: that of the machine without it, or the step with the answer to it;
* `Machine.Alike` -- two runs side by side: one has in its backlog what the provider of the other is still
  to give. A turn of the one goes with a turn of the other (`Alike.turn`), so they end together
  (`Alike.run`);
* `Machine.backlog_interchangeable` -- backlog and provider are interchangeable.
-/

namespace WordMachine

variable {σ : Type}

/-- The provider that gives values in their order, and once there are none left passes requests on. -/
def Provider.after (p : Provider σ) : Provider (List Word × σ) where
  answer := fun index s =>
    match s with
    | (w :: rest, s) => (.ok (.value w), (rest, s))
    | ([], s) =>
      let (answer, s) := p.answer index s
      (answer, ([], s))

namespace Machine

variable {m m' : Machine} {input : List Word}

/-! ## 1. The step of a machine with more input -/

theorem withInput_nil (m : Machine) : m.withInput [] = m := by
  unfold withInput
  rw [List.append_nil]

/-- **More input makes no difference to a step that does not ask.** -/
theorem step_withInput (input : List Word) (hr : m.step.2 ≠ .ok .needsInput) :
    (m.withInput input).step = (m.step.1.withInput input, m.step.2) := by
  have ht := m.transition
  generalize m.step.1 = m' at ht ⊢
  generalize m.step.2 = r at ht hr ⊢
  cases ht with
  | stopped e hf => exact Transition.step_eq (.stopped e hf)
  | halted hf hs => exact Transition.step_eq (.halted hf hs)
  | waiting hf hs hb => exact absurd rfl hr
  | resumed hf hs w rest hb a ha =>
    exact Transition.step_eq
      (.resumed (m := m.withInput input) hf hs w (rest ++ input) (congrArg (· ++ input) hb) a ha)
  | unwritable hf hs w rest hb e ha =>
    exact Transition.step_eq
      (.unwritable (m := m.withInput input) hf hs w (rest ++ input) (congrArg (· ++ input) hb) e ha)
  | spent hf hs e hsp => exact Transition.step_eq (.spent (m := m.withInput input) hf hs e hsp)
  | unknown hf hs hsp hop => exact Transition.step_eq (.unknown (m := m.withInput input) hf hs hsp hop)
  | refused hf hs hsp op hop e he =>
    exact Transition.step_eq (.refused (m := m.withInput input) hf hs hsp op hop e he)
  | performed hf hs hsp op hop eff he =>
    refine step_of_performed (m := m.withInput input) hf hs hsp hop he ?_
    refine apply_withInput { m with steps := m.steps + 1 } input eff fun a heff hb => hr ?_
    rw [heff, apply_take_nil (m := { m with steps := m.steps + 1 }) hb]

/-- A machine that waits and is given a value goes on as one that has the value in its backlog. -/
theorem step_withInput_of_awaiting {w : Word} {rest : List Word} (hf : m.fault = none)
    (hs : m.status = .awaitingInput) (hb : m.backlog = []) {a : Nat} (ha : m.inputTarget = .ok a) :
    (m.withInput (w :: rest)).step = ((m.takeInput a w).withInput rest, .ok .executed) := by
  have hb' : (m.withInput (w :: rest)).backlog = w :: rest := by
    show m.backlog ++ w :: rest = w :: rest
    rw [hb, List.nil_append]
  rw [Transition.step_eq (.resumed (m := m.withInput (w :: rest)) hf hs w rest hb' a ha)]
  simp only [withInput, takeInput, store, hb, List.nil_append]

/-- **A step that asks, with a value as the answer, is one step of the machine that has the value in its
    backlog.** -/
theorem step_withInput_of_asking {asking : Machine} (hready : m.Ready)
    (h : m.step = (asking, .ok .needsInput)) :
    asking.backlog = [] ∧ ∃ a, asking.inputTarget = .ok a ∧ ∀ w rest,
      (m.withInput (w :: rest)).step = ((asking.takeInput a w).withInput rest, .ok .executed) := by
  have ht := m.transition
  rw [h] at ht
  generalize hr : Except.ok Step.needsInput = r at ht
  cases ht with
  | stopped | unwritable | spent | unknown | refused => cases hr
  | halted | resumed => cases hr
  | waiting hf hs hb =>
    obtain ⟨a, ha⟩ := hready hf hs
    exact ⟨hb, a, ha, fun w rest => step_withInput_of_awaiting hf hs hb ha⟩
  | performed hf hs hsp op hop eff he =>
    obtain ⟨a, rfl, hb, heq⟩ := take_of_asking (Prod.ext rfl (Except.ok.inj hr).symm)
    rw [heq]
    refine ⟨hb, a, (input_of_take he).2, fun w rest => ?_⟩
    exact step_of_performed (m := m.withInput (w :: rest)) hf hs hsp hop he
      (apply_take_withInput (m := { m with steps := m.steps + 1 }) hb)

/-! ## 2. Two runs side by side -/

variable {p : Provider σ} {first : Nat} {ys : List Word}

/-- **Two runs side by side.** The machine of the one has in its backlog what the provider of the other is
    still to give; else they are the same. `used` values have been given, in answer to the requests from
    `first` on. As long as there are values to give, no request has been passed on. -/
inductive Alike (p : Provider σ) (first : Nat) (ys : List Word) :
    Machine × Channel σ → Machine × Channel (List Word × σ) → Prop where
  | intro (m : Machine) (used : Nat) (s : σ) (emitted : Array Word) (passedOn made : Array Nat)
      (ready : m.Ready) (given : used ≤ ys.length)
      (requests : made.toList = List.range' first used ++ passedOn.toList)
      (ahead : used < ys.length → passedOn = #[] ∧ m.inputs + m.backlog.length = first + used) :
      Alike p first ys (m.withInput (ys.drop used), ⟨some p, s, emitted, passedOn⟩)
        (m, ⟨some p.after, (ys.drop used, s), emitted, made⟩)

/-- **Two turns side by side**: both runs go on, or both end with the same result. -/
inductive Paired (p : Provider σ) (first : Nat) (ys : List Word) :
    Turn (Machine × Channel σ) ((Machine × Channel σ) × Except Fault Unit) →
    Turn (Machine × Channel (List Word × σ)) ((Machine × Channel (List Word × σ)) × Except Fault Unit) →
    Prop where
  | more {fed : Machine × Channel σ} {asked : Machine × Channel (List Word × σ)}
      (h : Alike p first ys fed asked) : Paired p first ys (.more fed) (.more asked)
  | done {fed : Machine × Channel σ} {asked : Machine × Channel (List Word × σ)}
      (h : Alike p first ys fed asked) (r : Except Fault Unit) :
      Paired p first ys (.done (fed, r)) (.done (asked, r))

section Turns

variable {used : Nat} {s : σ} {emitted : Array Word} {passedOn made : Array Nat}

/-- Once all values have been given, the two runs are the same. -/
theorem alike_of_all_given (ready : m.Ready)
    (requests : made.toList = List.range' first ys.length ++ passedOn.toList) :
    Alike p first ys (m, ⟨some p, s, emitted, passedOn⟩)
      (m, ⟨some p.after, ([], s), emitted, made⟩) := by
  have h := Alike.intro (p := p) m ys.length s emitted passedOn made ready (Nat.le_refl _) requests
    (fun hlt => absurd hlt (Nat.lt_irrefl _))
  rwa [List.drop_length, withInput_nil] at h

/-- A turn without a request. -/
theorem paired_of_not_asking (hstep : m.step.2 ≠ .ok .needsInput) (ready : m.Ready)
    (given : used ≤ ys.length) (requests : made.toList = List.range' first used ++ passedOn.toList)
    (ahead : used < ys.length → passedOn = #[] ∧ m.inputs + m.backlog.length = first + used) :
    Paired p first ys (runTurn (m.withInput (ys.drop used), ⟨some p, s, emitted, passedOn⟩))
      (runTurn (m, ⟨some p.after, (ys.drop used, s), emitted, made⟩)) := by
  have hfed := step_withInput (ys.drop used) hstep
  have halike (emitted : Array Word) := Alike.intro (p := p) m.step.1 used s emitted passedOn made
    ready.step given requests fun hlt => ⟨(ahead hlt).1, (balance_step ready).trans (ahead hlt).2⟩
  rcases hasked : m.step with ⟨m', e | result⟩
  · rw [hasked] at hfed halike
    simp only [runTurn, hfed, hasked]
    exact .done (halike emitted) (.error e)
  · rw [hasked] at hfed halike hstep
    cases result with
    | executed =>
      simp only [runTurn, hfed, hasked]
      exact .more (halike emitted)
    | output w =>
      simp only [runTurn, hfed, hasked]
      exact .more (halike (emitted.push w))
    | needsInput => exact absurd rfl hstep
    | halted =>
      simp only [runTurn, hfed, hasked]
      exact .done (halike emitted) (.ok ())

/-- A turn with a request that is passed on. -/
theorem paired_of_passing {asking : Machine} (hstep : m.step = (asking, .ok .needsInput))
    (ready : m.Ready) (requests : made.toList = List.range' first ys.length ++ passedOn.toList) :
    Paired p first ys (runTurn (m, ⟨some p, s, emitted, passedOn⟩))
      (runTurn (m, ⟨some p.after, ([], s), emitted, made⟩)) := by
  have hready : asking.Ready := by
    have h := ready.step
    rwa [hstep] at h
  have hrequests : (made.push asking.inputs).toList =
      List.range' first ys.length ++ (passedOn.push asking.inputs).toList := by
    rw [Array.toList_push, Array.toList_push, requests, List.append_assoc]
  rcases hanswer : p.answer asking.inputs s with ⟨message | answer, s'⟩
  · simp only [runTurn, hstep, answerFrom, Channel.request, Provider.after, hanswer]
    exact .done (alike_of_all_given hready hrequests) _
  · simp only [runTurn, hstep, answerFrom, Channel.request, Provider.after, hanswer]
    have hready' := hready.supply answer
    rcases hsupply : asking.supply answer with ⟨m', e | u⟩
    · rw [hsupply] at hready'
      exact .done (alike_of_all_given hready' hrequests) _
    · rw [hsupply] at hready'
      exact .more (alike_of_all_given hready' hrequests)

/-- A turn with a request that is answered with the next value. -/
theorem paired_of_giving {asking : Machine} (hstep : m.step = (asking, .ok .needsInput))
    (ready : m.Ready) (hlt : used < ys.length)
    (requests : made.toList = List.range' first used ++ passedOn.toList)
    (ahead : passedOn = #[] ∧ m.inputs + m.backlog.length = first + used) :
    Paired p first ys (runTurn (m.withInput (ys.drop used), ⟨some p, s, emitted, passedOn⟩))
      (runTurn (m, ⟨some p.after, (ys.drop used, s), emitted, made⟩)) := by
  obtain ⟨hb, a, ha, hfed⟩ := step_withInput_of_asking ready hstep
  obtain ⟨hf, hs⟩ := awaiting_of_needsInput hstep
  obtain ⟨rfl, hbalance⟩ := ahead
  have hindex : asking.inputs = first + used := by
    have hkept := balance_step ready
    rw [hstep, hb] at hkept
    exact hkept.trans hbalance
  have hrequests : (made.push asking.inputs).toList = List.range' first (used + 1) ++ #[].toList := by
    rw [Array.toList_push, requests, List.range'_concat, hindex, Nat.one_mul, List.append_nil,
      List.append_nil]
  have halike := Alike.intro (p := p) (asking.takeInput a ys[used]) (used + 1) s emitted #[]
    (made.push asking.inputs) nofun hlt hrequests fun _ => ⟨rfl, by
      show asking.inputs + 1 + asking.backlog.length = first + (used + 1)
      rw [hb, hindex]
      rfl⟩
  have hsupply := (supply_value hf hs ys[used]).trans (completeInput_of_ok ha ys[used])
  rw [List.drop_eq_getElem_cons hlt]
  simp only [runTurn, hfed, hstep, answerFrom, Channel.request, Provider.after, hsupply]
  exact .more halike

end Turns

/-- **The two runs take their turns together.** -/
theorem Alike.turn {fed : Machine × Channel σ} {asked : Machine × Channel (List Word × σ)}
    (h : Alike p first ys fed asked) : Paired p first ys (runTurn fed) (runTurn asked) := by
  cases h with
  | intro m used s emitted passedOn made ready given requests ahead =>
    by_cases hasks : m.step.2 = .ok .needsInput
    · have hstep : m.step = (m.step.1, .ok .needsInput) := Prod.ext rfl hasks
      by_cases hlt : used < ys.length
      · exact paired_of_giving hstep ready hlt requests (ahead hlt)
      · obtain rfl : used = ys.length := by omega
        rw [List.drop_length, withInput_nil]
        exact paired_of_passing hstep ready requests
    · exact paired_of_not_asking hasks ready given requests ahead

/-- **The two runs end together**, with the same result. -/
theorem Alike.run {fed : Machine × Channel σ} {asked : Machine × Channel (List Word × σ)}
    (h : Alike p first ys fed asked) (fuel : Nat) :
    (fed.1.run fuel fed.2 = none ∧ asked.1.run fuel asked.2 = none) ∨
    ∃ fed' asked' r, fed.1.run fuel fed.2 = some (fed', r) ∧ asked.1.run fuel asked.2 = some (asked', r) ∧
      Alike p first ys fed' asked' := by
  unfold Machine.run
  induction fuel generalizing fed asked with
  | zero => exact .inl ⟨rfl, rfl⟩
  | succ fuel ih =>
    have hturn := h.turn
    rw [Turn.run_succ, Turn.run_succ]
    generalize runTurn (fed.1, fed.2) = t at hturn ⊢
    generalize runTurn (asked.1, asked.2) = t' at hturn ⊢
    cases hturn with
    | more h' => exact ih h'
    | done h' r => exact .inr ⟨_, _, r, rfl, rfl, h'⟩

/-! ## 3. Interchange -/

/-- A machine that waits, pushed a value and stepped, is the machine that is given the value. -/
theorem Consistent.step_pushInput_eq_supply (h : m.Consistent) (hs : m.status = .awaitingInput)
    (hb : m.backlog = []) (w : Word) :
    (m.pushInput w).step = ((m.supply (.value w)).1, .ok .executed) := by
  obtain ⟨hf, -, a, ha⟩ := h.awaiting hs
  have hstep : (m.withInput [w]).step = ((m.takeInput a w).withInput [], .ok .executed) :=
    step_withInput_of_awaiting hf hs hb ha
  rw [withInput_nil] at hstep
  rw [supply_value hf hs, completeInput_of_ok ha]
  exact hstep

/-- **Backlog and provider are interchangeable.** Take any memory, step limit and idle value, values `xs`
    and `ys` and a provider `p`. A machine with `xs` and `ys` in its backlog that runs with `p`, and one
    with `xs` in its backlog that runs with the provider which gives `ys` and then asks `p`, both go on,
    however many turns they are given, or end after the same number of turns with the same result. They
    then differ in their backlogs at most, have passed on the same values, and leave `p` in the same state.
    Of the requests of the second run the first ones, by consecutive indexes from the number of `xs` on,
    were answered with `ys`; the others, which are those of the first run, were passed on to `p`, and there
    are none of them as long as `ys` are left. Likewise, to a machine that waits with an empty backlog it
    makes no difference whether a value is pushed and a step taken, or the value is given as an answer. -/
theorem backlog_interchangeable (memory : Memory) (limit : Option Nat) (idle : Word) (xs ys : List Word)
    (p : Provider σ) (s : σ) :
    let start : Machine := { ofMemory memory with stepLimit := limit, idleInput := idle }
    (∀ fuel,
      ((start.withInput (xs ++ ys)).run fuel (.ofProvider p s) = none ∧
        (start.withInput xs).run fuel (.ofProvider p.after (ys, s)) = none) ∨
      ∃ fed asked c c' r used,
        (start.withInput (xs ++ ys)).run fuel (.ofProvider p s) = some ((fed, c), r) ∧
        (start.withInput xs).run fuel (.ofProvider p.after (ys, s)) = some ((asked, c'), r) ∧
        Still fed asked ∧ c'.emitted = c.emitted ∧ c'.state = (ys.drop used, c.state) ∧
        c'.requests.toList = List.range' xs.length used ++ c.requests.toList ∧
        used ≤ ys.length ∧ (used < ys.length → c.requests = #[])) ∧
    ∀ m : Machine, m.Reachable → m.status = .awaitingInput → m.backlog = [] → ∀ w,
      (m.pushInput w).step = ((m.supply (.value w)).1, .ok .executed) := by
  intro start
  refine ⟨fun fuel => ?_, fun m hm hs hb w => hm.consistent.step_pushInput_eq_supply hs hb w⟩
  have halike : Alike p xs.length ys (start.withInput (xs ++ ys), .ofProvider p s)
      (start.withInput xs, .ofProvider p.after (ys, s)) :=
    .intro (start.withInput xs) 0 s #[] #[] #[] nofun (Nat.zero_le _) rfl
      fun _ => ⟨rfl, Nat.zero_add _⟩
  cases halike.run fuel with
  | inl hnone => exact .inl hnone
  | inr hends =>
    obtain ⟨fed, asked, r, hfed, hasked, hend⟩ := hends
    cases hend with
    | intro m used s emitted passedOn made ready given requests ahead =>
      refine .inr ⟨_, m, _, _, r, used, hfed, hasked, ⟨rfl, rfl, rfl, rfl, rfl, rfl, rfl, rfl, rfl⟩, rfl,
        rfl, requests, given, fun hlt => (ahead hlt).1⟩

/-- Three inputs, of which the second is in the backlog or the first of the answers. And a machine that
    waits at an instruction which the value will take the place of. -/
theorem backlog_interchangeable_overwritten :
    let start := ofProgram [3, 0, 3, 0, 3, 0, 4, 0, 99]
    let m := (ofProgram [3, 0, 99]).step.1
    (∃ fed asked c c' r,
      (start.withInput [5, 6]).run 5 (.ofProvider Replies.provider [.ok (.value 8)]) =
        some ((fed, c), r) ∧
      (start.withInput [5]).run 5 (.ofProvider Replies.provider.after ([6], [.ok (.value 8)])) =
        some ((asked, c'), r) ∧
      Still fed asked ∧ c'.emitted = #[8] ∧ c.requests = #[2] ∧ c'.requests = #[1, 2]) ∧
    m.status = .awaitingInput ∧ (m.pushInput 7).step = ((m.supply (.value 7)).1, .ok .executed) := by
  intro start m
  obtain ⟨hruns, hpush⟩ := backlog_interchangeable (.ofImage [3, 0, 3, 0, 3, 0, 4, 0, 99]) none
    defaultIdleInput [5] [6] Replies.provider [.ok (.value 8)]
  have heval : ((start.withInput [5, 6]).run 5 (.ofProvider Replies.provider [.ok (.value 8)])).any
      (fun o => decide (o.1.2.emitted = #[8] ∧ o.1.2.requests = #[2])) = true := by decide +kernel
  obtain ⟨⟨⟨fed, c⟩, r⟩, hrun, hleft⟩ := (Option.any_eq_true ..).1 heval
  obtain ⟨hemitted, hrequests⟩ := of_decide_eq_true hleft
  have hm : m.Reachable := ⟨_, [.step], .cons _ _ _ _ _ .step (.none _)⟩
  have hs : m.status = .awaitingInput := by decide +kernel
  have hb : m.backlog = [] := by decide +kernel
  refine ⟨?_, hs, hpush m hm hs hb 7⟩
  rcases hruns 5 with ⟨hnone, -⟩ |
    ⟨fed', asked, c₁, c', r', used, hfed, hasked, hstill, hemitted', -, hrequests', hused, hahead⟩
  · cases hnone.symm.trans hrun
  · cases hfed.symm.trans hrun
    obtain rfl : used = 1 := by
      refine Nat.le_antisymm hused (Nat.le_of_not_lt fun hlt => ?_)
      rw [hahead hlt] at hrequests
      cases hrequests
    rw [hrequests] at hrequests'
    exact ⟨fed, asked, c, c', r, hrun, hasked, hstill, hemitted'.trans hemitted, hrequests,
      Array.toList_inj.1 hrequests'⟩

end Machine

end WordMachine
