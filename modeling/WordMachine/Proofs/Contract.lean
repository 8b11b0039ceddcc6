import WordMachine.Channel.Source
import WordMachine.Proofs.Intake

/-!
# The contract of a run with its channel

While a machine runs, its channel is used for two things: for requests, which the provider answers, and
for the values that are passed on. This file says which requests are made, where the input of the machine
comes from, and what is passed on.

* `Channel.requested`, `Channel.replies` -- requests by consecutive indexes, with the answers to them;
* `Machine.Writes` -- the value that an input instruction has written from one moment to the next;
* `Machine.Exchange` -- what passes between a machine and its surroundings in one turn of a run
  (`Consistent.exchange`);
* `Machine.balance_turn` -- as long as a run goes on, every request brings an input;
* `Machine.Account` -- what has passed between them since the start. A turn keeps it (`Account.turn`), so
  a run does (`run_keeps_contract`).
-/

namespace WordMachine

variable {σ : Type}

/-! ## 1. Requests in a row -/

/-- The value with which a machine goes on when its request is answered. -/
def Answer.word? (idle : Word) : Except String Answer → Option Word
  | .ok (.value w) => some w
  | .ok .noValue => some idle
  | .ok .terminate | .error _ => none

namespace Channel

/-- A channel after `n` requests, by consecutive indexes from `first` on. -/
def requested (c : Channel σ) (first : Nat) : Nat → Channel σ
  | 0 => c
  | n + 1 => ((c.requested first n).request (first + n)).2

/-- The answers to these requests. -/
def replies (c : Channel σ) (first : Nat) : Nat → List (Except String Answer)
  | 0 => []
  | n + 1 => c.replies first n ++ ((c.requested first n).request (first + n)).1.toList

variable {c c' : Channel σ} {i : Nat}

/-- What has been passed on makes no difference to a request. -/
theorem request_withEmitted (c : Channel σ) (emitted : Array Word) (i : Nat) :
    { c with emitted }.request i = ((c.request i).1, { (c.request i).2 with emitted }) := by
  obtain ⟨provider?, state, emitted', requests⟩ := c
  cases provider? <;> rfl

theorem provider?_request (c : Channel σ) (i : Nat) : (c.request i).2.provider? = c.provider? := by
  obtain ⟨provider?, state, emitted, requests⟩ := c
  cases provider? <;> rfl

theorem eq_of_request_none (h : c.request i = (none, c')) : c' = c := by
  obtain ⟨provider?, state, emitted, requests⟩ := c
  cases provider? with
  | none => exact (Prod.mk.inj h).2.symm
  | some p => cases h

theorem isSome_of_request {reply : Except String Answer} (h : c.request i = (some reply, c')) :
    c.provider?.isSome = true := by
  obtain ⟨provider?, state, emitted, requests⟩ := c
  cases provider? with
  | none => cases h
  | some p => rfl

/-- A provider that is asked leaves the index of the request. -/
theorem requests_request (h : c.provider?.isSome = true) (i : Nat) :
    (c.request i).2.requests = c.requests.push i := by
  obtain ⟨provider?, state, emitted, requests⟩ := c
  cases provider? with
  | none => cases h
  | some p => rfl

/-- One more request brings what its answer brings. -/
theorem filterMap_replies_succ {reply : Except String Answer} {first n : Nat}
    (h : ((c.requested first n).request (first + n)).1 = some reply)
    (f : Except String Answer → Option Word) :
    (c.replies first (n + 1)).filterMap f = (c.replies first n).filterMap f ++ (f reply).toList := by
  rw [replies, h, Option.toList_some, List.filterMap_append]
  cases hf : f reply <;> simp [hf]

theorem provider?_requested (c : Channel σ) (first n : Nat) :
    (c.requested first n).provider? = c.provider? := by
  induction n with
  | zero => rfl
  | succ n ih => exact (provider?_request _ _).trans ih

/-- **Requests in a row leave their indexes.** -/
theorem requests_requested (h : c.provider?.isSome = true) (first n : Nat) :
    (c.requested first n).requests.toList = c.requests.toList ++ List.range' first n := by
  induction n with
  | zero => exact (List.append_nil _).symm
  | succ n ih =>
    have hsome : (c.requested first n).provider?.isSome = true := by rwa [provider?_requested]
    rw [requested, requests_request hsome, Array.toList_push, ih, List.append_assoc, List.range'_concat,
      Nat.one_mul]

end Channel

namespace Machine

variable {m m' : Machine} {c c' : Channel σ}

/-! ## 2. One turn -/

/-- A machine stands at an input instruction, and this can write at `a`. -/
def AtInput (m : Machine) (a : Nat) : Prop := m.instruction.op? = some .input ∧ m.inputTarget = .ok a

/-- **The value that an input instruction has written** from `m` to `m'`, if any. -/
inductive Writes (m m' : Machine) : Option Word → Prop where
  | none (inputs : m'.inputs = m.inputs) : Writes m m' none
  | value (a : Nat) (w : Word) (instruction : m.AtInput a) (inputs : m'.inputs = m.inputs + 1)
      (lastWrite : m'.lastWrite = some a) (memory : m'.memory = m.memory.store a w) :
      Writes m m' (some w)

theorem Writes.taken?_eq {taken : Option Word} (h : Writes m m' taken) (hm : m.memory.Apart) :
    taken? m m' = taken := by
  cases h with
  | none inputs => exact taken?_of_inputs inputs
  | value a w instruction inputs lastWrite memory =>
    have hne : m'.inputs ≠ m.inputs := by omega
    rw [taken?, if_neg hne, lastWrite, memory, Option.map_some, Memory.load_store hm, if_pos rfl]

/-- **A step takes the first value of the backlog or none**, and it writes what it takes. -/
theorem Consistent.writes_step (h : m.Consistent) :
    ∃ taken, Writes m m.step.1 taken ∧ m.backlog = taken.toList ++ m.step.1.backlog := by
  have ht := m.transition
  generalize m.step.1 = m' at ht ⊢
  generalize m.step.2 = r at ht
  cases ht with
  | stopped | halted | waiting | spent | unknown | refused => exact ⟨none, .none rfl, rfl⟩
  | resumed hf hs w rest hb a ha =>
    obtain ⟨-, hop, -⟩ := h.awaiting hs
    exact ⟨some w, .value a w ⟨hop, ha⟩ rfl rfl rfl, hb⟩
  | unwritable hf hs w rest hb e ha =>
    obtain ⟨-, -, a, ha'⟩ := h.awaiting hs
    rw [ha'] at ha
    cases ha
  | performed hf hs hsp op hop eff he =>
    cases eff with
    | take a =>
      obtain ⟨rfl, ha⟩ := input_of_take he
      by_cases hb : m.backlog = []
      · rw [apply_take_nil (m := { m with steps := m.steps + 1 }) hb]
        exact ⟨none, .none rfl, rfl⟩
      · obtain ⟨w, rest, hb⟩ := List.exists_cons_of_ne_nil hb
        rw [apply_take_cons (m := { m with steps := m.steps + 1 }) hb]
        exact ⟨some w, .value a w ⟨hop, ha⟩ rfl rfl rfl, hb⟩
    | store | emit | jump | pass | moveBase | halt => exact ⟨none, .none rfl, rfl⟩

theorem idleInput_step (m : Machine) : m.step.1.idleInput = m.idleInput := by
  have ht := m.transition
  generalize m.step.1 = m' at ht ⊢
  generalize m.step.2 = r at ht
  cases ht with
  | stopped | halted | waiting | resumed | unwritable | spent | unknown | refused => rfl
  | performed hf hs hsp op hop eff he =>
    cases eff with
    | take a =>
      by_cases hb : m.backlog = []
      · rw [apply_take_nil (m := { m with steps := m.steps + 1 }) hb]
      · obtain ⟨w, rest, hb⟩ := List.exists_cons_of_ne_nil hb
        rw [apply_take_cons (m := { m with steps := m.steps + 1 }) hb]
        rfl
    | store | emit | jump | pass | moveBase | halt => rfl

/-- **A machine asks only at an input instruction that can be completed, and with an empty backlog.** It is
    then as it was, but that it waits. -/
theorem Consistent.asks (h : m.Consistent) (hs : m.step = (m', .ok .needsInput)) :
    m' = { m with steps := m'.steps, status := .awaitingInput } ∧ m.fault = none ∧ m.status ≠ .halted ∧
      m.backlog = [] ∧ ∃ a, m.AtInput a := by
  have ht := m.transition
  rw [hs] at ht
  generalize hr : Except.ok Step.needsInput = r at ht
  cases ht with
  | stopped | unwritable | spent | unknown | refused => cases hr
  | halted | resumed => cases hr
  | waiting hf hw hb =>
    obtain ⟨-, hop, a, ha⟩ := h.awaiting hw
    refine ⟨?_, hf, ?_, hb, a, hop, ha⟩
    · rw [← hw]
    · rw [hw]
      nofun
  | performed hf hw hsp op hop eff he =>
    obtain ⟨a, rfl, hb, heq⟩ := take_of_asking (Prod.ext rfl (Except.ok.inj hr).symm)
    obtain ⟨rfl, ha⟩ := input_of_take he
    refine ⟨?_, hf, ?_, hb, a, hop, ha⟩
    · rw [heq]
    · rw [hw]
      nofun

/-- **What passes between a machine and its surroundings in a turn** of a run, with the value that the
    machine takes. -/
inductive Exchange (m : Machine) (c : Channel σ) : Machine × Channel σ → Option Word → Prop where
  /-- Nobody is asked. What is taken comes off the front of the backlog, and what is put out is passed
      on. -/
  | own (m' : Machine) (taken : Option Word) (out : List Word) (writes : Writes m m' taken)
      (backlog : m.backlog = taken.toList ++ m'.backlog)
      (output : m'.output.toList = m.output.toList ++ out) (idleInput : m'.idleInput = m.idleInput) :
      Exchange m c (m', { c with emitted := c.emitted ++ out }) taken
  /-- The provider is asked, and what is taken is its answer. -/
  | asked (m' : Machine) (c' : Channel σ) (reply : Except String Answer)
      (request : c.request m.inputs = (some reply, c'))
      (writes : Writes m m' (Answer.word? m.idleInput reply)) (waits : m.status ≠ .halted)
      (instruction : ∃ a, m.AtInput a) (backlog : m.backlog = []) (backlog' : m'.backlog = [])
      (output : m'.output = m.output) (idleInput : m'.idleInput = m.idleInput) :
      Exchange m c (m', c') (Answer.word? m.idleInput reply)

/-- A turn without a request. -/
theorem Consistent.exchange_own (h : m.Consistent) {r : Except Fault Step} (hs : m.step = (m', r))
    (c : Channel σ) :
    ∃ taken, Exchange m c (m', { c with emitted := c.emitted ++ (Step.word? r).toList }) taken := by
  obtain ⟨taken, hwrites, hbacklog⟩ := h.writes_step
  have houtput := m.output_step
  have hidle := m.idleInput_step
  rw [hs] at hwrites hbacklog houtput hidle
  exact ⟨taken, .own m' taken _ hwrites hbacklog houtput hidle⟩

/-- A turn with a request that is not answered. -/
theorem Consistent.exchange_unanswered (h : m.Consistent) (hs : m.step = (m', .ok .needsInput))
    {message : String} (hc : c.request m'.inputs = (some (.error message), c')) :
    ∃ taken, Exchange m c (m', c') taken := by
  obtain ⟨heq, -, hw, hb, hinput⟩ := h.asks hs
  rw [heq] at hc ⊢
  exact ⟨_, .asked _ c' _ hc (.none rfl) hw hinput hb hb rfl rfl⟩

/-- A turn with a request that is answered. -/
theorem Consistent.exchange_answered (h : m.Consistent) (hs : m.step = (m', .ok .needsInput))
    {answer : Answer} (hc : c.request m'.inputs = (some (.ok answer), c')) :
    ∃ taken, Exchange m c ((m'.supply answer).1, c') taken := by
  obtain ⟨heq, hf, hw, hb, a, hop, ha⟩ := h.asks hs
  generalize m'.steps = steps at heq
  subst heq
  have hcomplete (w : Word) := completeInput_of_ok (m := { m with steps, status := .awaitingInput }) ha w
  refine ⟨_, .asked _ c' _ hc ?_ hw ⟨a, hop, ha⟩ hb ?_ (output_supply _ answer)
    (eq_of_supply idleInput (fun _ _ => rfl) rfl answer)⟩
  · cases answer with
    | value w =>
      rw [supply_value (m := { m with steps, status := .awaitingInput }) hf rfl, hcomplete]
      exact .value a w ⟨hop, ha⟩ rfl rfl rfl
    | noValue =>
      rw [supply_noValue (m := { m with steps, status := .awaitingInput }) hf rfl, hcomplete]
      exact .value a m.idleInput ⟨hop, ha⟩ rfl rfl rfl
    | terminate =>
      rw [supply_terminate (m := { m with steps, status := .awaitingInput }) hf rfl]
      exact .none rfl
  · exact (eq_of_supply backlog (fun _ _ => rfl) rfl answer).trans hb

/-- What a turn of a run leaves. -/
def afterTurn (s : Machine × Channel σ) : Machine × Channel σ := (leaves (runTurn s)).1

/-- **The turn of a consistent machine is an exchange.** -/
theorem Consistent.exchange (h : m.Consistent) (c : Channel σ) :
    ∃ taken, Exchange m c (afterTurn (m, c)) taken := by
  have hd := drive m c
  unfold afterTurn
  generalize runTurn (m, c) = t at hd ⊢
  cases hd with
  | executed m' hs | halted m' hs | failed m' e hs => exact h.exchange_own hs c
  | emitted m' w hs => exact h.exchange_own hs c
  | unavailable m' hs c' hc =>
    rw [Channel.eq_of_request_none hc]
    exact h.exchange_own hs c
  | unanswered m' hs c' message hc => exact h.exchange_unanswered hs hc
  | answered m' hs c' answer hc m'' hsupply | refused m' hs c' answer hc m'' e hsupply =>
    have hx := h.exchange_answered hs hc
    rw [hsupply] at hx
    exact hx

theorem Exchange.writes {s : Machine × Channel σ} {taken : Option Word} (h : Exchange m c s taken) :
    Writes m s.1 taken := by
  cases h with
  | own m' taken out writes => exact writes
  | asked m' c' reply request writes => exact writes

/-- The run of a halted machine is over. -/
theorem Consistent.not_halted_of_more (h : m.Consistent) {s : Machine × Channel σ}
    (ht : runTurn (m, c) = .more s) : m.status ≠ .halted := by
  intro hs
  have hf : m.fault = none := by
    cases hfault : m.fault with
    | none => rfl
    | some e =>
      obtain ⟨hrun, -⟩ := h.stopped e hfault
      rw [hs] at hrun
      cases hrun
  have hend : m.Ended (.ok ()) := .halted hf hs
  rw [runTurn, hend.step] at ht
  cases ht

/-- An answer with which the machine goes on is an input. -/
theorem inputs_of_supply {answer : Answer} (hf : m.fault = none) (hw : m.status = .awaitingInput)
    (h : m.supply answer = (m', .ok ())) (hs : m'.status ≠ .halted) :
    m'.inputs = m.inputs + 1 ∧ m'.backlog = m.backlog := by
  obtain ⟨-, -, hrunning⟩ := supply_of_awaiting_ok hf hw h
  have hleaves := m.supply_leaves answer
  rw [h] at hleaves
  rcases hleaves with rfl | ⟨a, w, rfl⟩ | rfl
  · exact absurd hw hrunning
  · exact ⟨rfl, rfl⟩
  · exact absurd rfl hs

/-- **As long as a run goes on, every request brings an input.** -/
theorem Consistent.balance_turn (h : m.Consistent) (ht : runTurn (m, c) = .more (m', c'))
    (hs : m'.status ≠ .halted) :
    m'.inputs + m'.backlog.length + c.requests.size =
      m.inputs + m.backlog.length + c'.requests.size := by
  have hd := drive m c
  have hbalance := balance_step fun _ hs => (h.awaiting hs).2.2
  rw [ht] at hd
  cases hd with
  | executed m' hm | emitted m' w hm =>
    rw [hm] at hbalance
    exact congrArg (· + c.requests.size) hbalance
  | answered asking hm c' answer hc m' hsupply =>
    rw [hm] at hbalance
    dsimp only at hbalance
    have hpush := congrArg Array.size (Channel.requests_request (Channel.isSome_of_request hc) asking.inputs)
    rw [hc, Array.size_push] at hpush
    dsimp only at hpush
    obtain ⟨hf, hw⟩ := awaiting_of_needsInput hm
    obtain ⟨hinputs, hbacklog⟩ := inputs_of_supply hf hw hsupply hs
    rw [hinputs, hbacklog]
    omega

/-! ## 3. The whole run -/

/-- **What has passed between a machine and its surroundings** from `m` and `c` to `m'` and `c'`: `asked`
    requests, and in `log` the values that input instructions have written. -/
structure Account (m : Machine) (c : Channel σ) (asked : Nat) (m' : Machine) (c' : Channel σ)
    (log : List Word) : Prop where
  idleInput : m'.idleInput = m.idleInput
  /-- The requests have consecutive indexes, from the number of inputs taken and at hand on. -/
  channel : c' = { c.requested (m.inputs + m.backlog.length) asked with emitted := c'.emitted }
  available : asked ≠ 0 → c.provider?.isSome = true
  /-- The values of the backlog come first, in their order, and then those of the provider. -/
  served : ∃ served, m.backlog = served ++ m'.backlog ∧
    log = served ++
      (c.replies (m.inputs + m.backlog.length) asked).filterMap (Answer.word? m.idleInput)
  emptied : asked ≠ 0 → m'.backlog = []
  /-- What has been put out has been passed on. -/
  passedOn : ∃ out, m'.output.toList = m.output.toList ++ out ∧
    c'.emitted.toList = c.emitted.toList ++ out

section Account

variable {m₁ m₂ : Machine} {c₁ c₂ : Channel σ} {asked : Nat} {log : List Word}

theorem Account.start (m : Machine) (c : Channel σ) : Account m c 0 m c [] where
  idleInput := rfl
  channel := rfl
  available h := absurd rfl h
  served := ⟨[], rfl, rfl⟩
  emptied h := absurd rfl h
  passedOn := ⟨[], (List.append_nil _).symm, (List.append_nil _).symm⟩

theorem Account.requests (h : Account m c asked m₁ c₁ log) :
    c₁.requests.toList = c.requests.toList ++ List.range' (m.inputs + m.backlog.length) asked := by
  rw [h.channel]
  cases asked with
  | zero => exact (List.append_nil _).symm
  | succ n => exact Channel.requests_requested (h.available (Nat.succ_ne_zero n)) _ _

/-- A turn without a request. -/
theorem Account.own (h : Account m c asked m₁ c₁ log) {taken : Option Word} {out : List Word}
    (backlog : m₁.backlog = taken.toList ++ m₂.backlog)
    (output : m₂.output.toList = m₁.output.toList ++ out) (idleInput : m₂.idleInput = m₁.idleInput) :
    Account m c asked m₂ { c₁ with emitted := c₁.emitted ++ out } (log ++ taken.toList) where
  idleInput := idleInput.trans h.idleInput
  channel := by
    rw [h.channel]
  available := h.available
  served := by
    obtain ⟨served, hserved, hlog⟩ := h.served
    by_cases hasked : asked = 0
    · subst hasked
      refine ⟨served ++ taken.toList, ?_, ?_⟩
      · rw [hserved, backlog, List.append_assoc]
      · rw [hlog]
        simp only [Channel.replies, List.filterMap_nil, List.append_nil]
    · have hempty := (List.append_eq_nil_iff.1 (backlog.symm.trans (h.emptied hasked))).1
      rw [hempty, List.nil_append] at backlog
      refine ⟨served, ?_, ?_⟩
      · rw [hserved, backlog]
      · rw [hlog, hempty, List.append_nil]
  emptied hasked := (List.append_eq_nil_iff.1 (backlog.symm.trans (h.emptied hasked))).2
  passedOn := by
    obtain ⟨out', houtput, hemitted⟩ := h.passedOn
    refine ⟨out' ++ out, ?_, ?_⟩
    · rw [output, houtput, List.append_assoc]
    · rw [Array.toList_appendList, hemitted, List.append_assoc]

/-- A turn with a request. -/
theorem Account.ask (h : Account m c asked m₁ c₁ log) {reply : Except String Answer}
    (request : c₁.request (m.inputs + m.backlog.length + asked) = (some reply, c₂))
    (backlog : m₁.backlog = []) (backlog' : m₂.backlog = []) (output : m₂.output = m₁.output)
    (idleInput : m₂.idleInput = m₁.idleInput) :
    Account m c (asked + 1) m₂ c₂ (log ++ (Answer.word? m₁.idleInput reply).toList) := by
  have hnext := request
  rw [h.channel, Channel.request_withEmitted] at hnext
  obtain ⟨hreply, hc₂⟩ := Prod.mk.inj hnext
  have hemitted : c₂.emitted = c₁.emitted := by rw [← hc₂]
  refine ⟨idleInput.trans h.idleInput, ?_, fun _ => ?_, ?_, fun _ => backlog', ?_⟩
  · rw [hemitted, ← hc₂]
    rfl
  · have hsome := Channel.isSome_of_request request
    rw [h.channel] at hsome
    rwa [← Channel.provider?_requested c (m.inputs + m.backlog.length) asked]
  · obtain ⟨served, hserved, hlog⟩ := h.served
    refine ⟨served, ?_, ?_⟩
    · rw [hserved, backlog, backlog']
    · rw [hlog, h.idleInput, Channel.filterMap_replies_succ hreply, List.append_assoc]
  · rw [output, hemitted]
    exact h.passedOn

/-- **A turn keeps the account.** -/
theorem Account.turn (h : Account m c asked m₁ c₁ log) {s : Machine × Channel σ} {taken : Option Word}
    (hx : Exchange m₁ c₁ s taken)
    (index : m₁.status ≠ .halted → m₁.inputs + m₁.backlog.length = m.inputs + m.backlog.length + asked) :
    ∃ asked', Account m c asked' s.1 s.2 (log ++ taken.toList) := by
  cases hx with
  | own m' taken out writes backlog output idleInput => exact ⟨asked, h.own backlog output idleInput⟩
  | asked m' c' reply request writes waits instruction backlog backlog' output idleInput =>
    have hindex := index waits
    rw [backlog, List.length_nil, Nat.add_zero] at hindex
    rw [hindex] at request
    exact ⟨asked + 1, h.ask request backlog backlog' output idleInput⟩

end Account

/-- The values that input instructions write in a turn of a run: one or none. -/
def turnInput (s : Machine × Channel σ) : List Word := (taken? s.1 (afterTurn s).1).toList

/-- **What every turn of a run keeps**, with the values that have been written so far. -/
structure Underway (m : Machine) (c : Channel σ) (s : Machine × Channel σ) (log : List Word) : Prop where
  consistent : s.1.Consistent
  apart : s.1.memory.Apart
  balance : s.1.status ≠ .halted → s.1.inputs + s.1.backlog.length + c.requests.size =
    m.inputs + m.backlog.length + s.2.requests.size
  account : ∃ asked, Account m c asked s.1 s.2 log

theorem Underway.start (hm : m.Consistent) (ha : m.memory.Apart) (c : Channel σ) :
    Underway m c (m, c) [] :=
  ⟨hm, ha, fun _ => rfl, 0, .start m c⟩

section Underway

variable {s s' : Machine × Channel σ} {log : List Word}

/-- What has passed once a turn is over, be it the last. -/
theorem Underway.account_afterTurn (h : Underway m c s log) :
    ∃ asked, Account m c asked (afterTurn s).1 (afterTurn s).2 (log ++ turnInput s) := by
  obtain ⟨taken, hx⟩ := h.consistent.exchange s.2
  obtain ⟨asked, haccount⟩ := h.account
  rw [turnInput, hx.writes.taken?_eq h.apart]
  refine haccount.turn hx fun hs => ?_
  have hbalance := h.balance hs
  have hsize := congrArg List.length haccount.requests
  rw [List.length_append, List.length_range', Array.length_toList, Array.length_toList] at hsize
  omega

theorem Underway.turn (h : Underway m c s log) (ht : runTurn s = .more s') :
    Underway m c s' (log ++ turnInput s) := by
  have hleaves : afterTurn s = s' := by rw [afterTurn, ht, leaves]
  have hdrive := drive s.1 s.2
  rw [ht] at hdrive
  refine ⟨preserved_consistent.drive hdrive h.consistent, preserved_apart.drive hdrive h.apart,
    fun hs => ?_, hleaves ▸ h.account_afterTurn⟩
  have hbefore := h.balance (h.consistent.not_halted_of_more (c := s.2) ht)
  have hturn := h.consistent.balance_turn (c := s.2) ht hs
  omega

/-- At every point of a run: who is asked is asked for an input instruction that can be completed, with an
    empty backlog; and what is taken is written by such an instruction. -/
theorem Underway.requests_at_input (h : Underway m c s log) :
    ((afterTurn s).2.requests ≠ s.2.requests → s.1.backlog = [] ∧ ∃ a, s.1.AtInput a) ∧
    ∀ w ∈ turnInput s, ∃ a, s.1.AtInput a ∧ (afterTurn s).1.lastWrite = some a ∧
      (afterTurn s).1.memory = s.1.memory.store a w := by
  obtain ⟨taken, hx⟩ := h.consistent.exchange s.2
  have hwrites := hx.writes
  rw [turnInput, hwrites.taken?_eq h.apart]
  refine ⟨fun hrequests => ?_, fun w hw => ?_⟩
  · generalize afterTurn s = s' at hx hrequests
    cases hx with
    | own => exact absurd rfl hrequests
    | asked m' c' reply request writes waits instruction backlog => exact ⟨backlog, instruction⟩
  · cases hwrites with
    | none => cases hw
    | value a v instruction inputs lastWrite memory =>
      obtain rfl : w = v := List.mem_singleton.1 hw
      exact ⟨a, instruction, lastWrite, memory⟩

end Underway

/-- **The contract of a run with its channel.** Take any constructible machine, a channel in any state and
    a run that has come to its end, whatever its result. The provider has been asked with consecutive
    indexes, from the number of inputs that the machine had taken and had in its backlog on. The values
    that input instructions have written are values of the backlog, in their order, and after them the
    answers of the provider; if the provider was asked at all, they are all the values of the backlog.
    What has been passed on is what has been added to the output. And at every point of the run, the
    provider is asked only if the backlog is empty and the machine stands at an input instruction that can
    be completed; and every value that is taken is written where such an instruction is to write. -/
theorem run_keeps_contract {fuel : Nat} {r : Except Fault Unit} (h : m.Constructible)
    (hr : m.run fuel c = some ((m', c'), r)) :
    let first := m.inputs + m.backlog.length
    (∃ asked served out,
      c'.requests.toList = c.requests.toList ++ List.range' first asked ∧
      c' = { c.requested first asked with emitted := c'.emitted } ∧
      Turn.run (Turn.noted turnInput runTurn) fuel ((m, c), #[]) = some (((m', c'), r),
        (served ++ (c.replies first asked).filterMap (Answer.word? m.idleInput)).toArray) ∧
      m.backlog = served ++ m'.backlog ∧ (asked ≠ 0 → m'.backlog = []) ∧
      m'.output.toList = m.output.toList ++ out ∧ c'.emitted.toList = c.emitted.toList ++ out) ∧
    ∀ s, Turn.Reaches runTurn (m, c) s →
      ((afterTurn s).2.requests ≠ s.2.requests → s.1.backlog = [] ∧ ∃ a, s.1.AtInput a) ∧
      ∀ w ∈ turnInput s, ∃ a, s.1.AtInput a ∧ (afterTurn s).1.lastWrite = some a ∧
        (afterTurn s).1.memory = s.1.memory.store a w := by
  intro first
  have hstart := Underway.start h.reachable.consistent h.apart c
  refine ⟨?_, fun s hs => ?_⟩
  · obtain ⟨t, log, hunderway, hdone, hnoted⟩ := Turn.run_noted_invariant
      (P := Underway m c) (fun _ _ _ hlog ht => hlog.turn ht) #[] hr hstart
    obtain ⟨asked, haccount⟩ := hunderway.account_afterTurn
    have hleaves : afterTurn t = (m', c') := by rw [afterTurn, hdone, leaves]
    rw [hleaves] at haccount
    obtain ⟨served, hserved, hlog⟩ := haccount.served
    obtain ⟨out, houtput, hemitted⟩ := haccount.passedOn
    rw [hlog] at hnoted
    exact ⟨asked, served, out, haccount.requests, haccount.channel, hnoted, hserved, haccount.emptied,
      houtput, hemitted⟩
  · obtain ⟨log, hunderway⟩ := hs.invariant (P := fun s => ∃ log, Underway m c s log) ⟨[], hstart⟩
      fun a b ⟨log, hlog⟩ ht => ⟨_, hlog.turn ht⟩
    exact hunderway.requests_at_input

/-- A machine that takes a value from its backlog, goes on with its idle value, is given a value, and fails
    with its provider at its fourth input instruction. -/
theorem run_keeps_contract_failing :
    let m := (ofProgram [3, 0, 4, 0, 3, 0, 4, 0, 3, 0, 4, 0, 3, 0]).withInput [7]
    let c := Channel.ofProvider Replies.provider [.ok .noValue, .ok (.value 8), .error "closed"]
    ∃ m' c' e, m.run 7 c = some ((m', c'), .error e) ∧
      c'.requests = #[1, 2, 3] ∧ c'.emitted = m'.output ∧ m'.output = #[7, -1, 8] ∧
      Turn.run (Turn.noted turnInput runTurn) 7 ((m, c), #[]) =
        some (((m', c'), .error e), #[7, -1, 8]) := by
  intro m c
  have hm : m.Constructible := ⟨_, [], [.withInput [7]], .cons _ _ _ _ _ (.withInput [7]) (.none _)⟩
  have heval : (m.run 7 c).any (fun o => decide (o.2.toOption = none ∧
      o.1.1.output = #[7, -1, 8] ∧ o.1.2.requests = #[1, 2, 3])) = true := by decide +kernel
  obtain ⟨⟨⟨m', c'⟩, r⟩, hrun, hleft⟩ := (Option.any_eq_true ..).1 heval
  obtain ⟨hresult, houtput', hrequests'⟩ := of_decide_eq_true hleft
  obtain ⟨e, rfl⟩ : ∃ e, r = .error e := by
    cases r with
    | ok u => cases hresult
    | error e => exact ⟨e, rfl⟩
  obtain ⟨⟨asked, served, out, hrequests, -, hnoted, hserved, hemptied, houtput, hemitted⟩, -⟩ :=
    run_keeps_contract hm hrun
  obtain rfl : asked = 3 := by
    rw [hrequests'] at hrequests
    have hlength := congrArg List.length hrequests
    rw [List.length_append, List.length_range'] at hlength
    exact (hlength.trans (Nat.zero_add _)).symm
  rw [hemptied nofun, List.append_nil] at hserved
  obtain rfl : served = [7] := hserved.symm
  exact ⟨m', c', e, hrun, hrequests', Array.toList_inj.1 (hemitted.trans houtput.symm), houtput', hnoted⟩

end Machine

end WordMachine
