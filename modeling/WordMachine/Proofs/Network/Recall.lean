import WordMachine.Proofs.Network.Convergence

/-!
# What the monitor recalls

A monitor keeps a pair, a word, a packet and a number, however much it has been told. That is enough to
answer by the whole of its past:

* `Monitor.Call` -- what a monitor is told: a packet arrives, or the network is idle;
* `Monitor.after` -- a new monitor after any calls, with the answers that it has given;
* `Monitor.received`, `Monitor.unseen`, `Monitor.passed` -- what the calls and the answers say;
* `Monitor.Recalls` -- the monitor agrees with its past. Every call keeps this (`Recalls.call`);
* `Monitor.answers_by_history` -- so every answer is the one that the past asks for.
-/

namespace WordMachine

/-- The pair that an answer of a monitor passes on. -/
def MonitorAction.pair? : MonitorAction → Option (Word × Word)
  | .deliver x y => some (x, y)
  | .wait | .converged _ => none

namespace Monitor

/-! ## 1. Calls -/

/-- What a monitor is told. -/
inductive Call where
  /-- A packet arrives. -/
  | receive (p : Packet)
  /-- The network is idle, and an answer is wanted. -/
  | idle
  deriving DecidableEq, Repr

/-- One call: the monitor afterwards, and its answers so far. -/
def call : Monitor × List MonitorAction → Call → Monitor × List MonitorAction
  | (m, answers), .receive p => (m.receive p, answers)
  | (m, answers), .idle => (m.onIdle.2, answers ++ [m.onIdle.1])

/-- **A new monitor after calls**, and the answers that it has given. -/
def after (calls : List Call) : Monitor × List MonitorAction := calls.foldl call ({}, [])

/-- The packet that arrives with a call. -/
def Call.packet? : Call → Option Packet
  | .receive p => some p
  | .idle => none

/-- The packets that no answer has taken into account, once there has been one more call. -/
def Call.unseen (packets : List Packet) : Call → List Packet
  | .receive p => packets ++ [p]
  | .idle => []

/-- The packets that have arrived. -/
def received (calls : List Call) : List Packet := calls.filterMap Call.packet?

/-- The packets that have arrived since the network was idle last, or since the start. -/
def unseen (calls : List Call) : List Packet := calls.foldl Call.unseen []

/-- The pairs that answers have passed on. -/
def passed (answers : List MonitorAction) : List (Word × Word) :=
  answers.filterMap MonitorAction.pair?

@[simp] theorem received_concat_receive (calls : List Call) (p : Packet) :
    received (calls ++ [.receive p]) = received calls ++ [p] := by
  simp [received, Call.packet?]

@[simp] theorem received_concat_idle (calls : List Call) :
    received (calls ++ [.idle]) = received calls := by
  simp [received, Call.packet?]

@[simp] theorem unseen_concat (calls : List Call) (c : Call) :
    unseen (calls ++ [c]) = c.unseen (unseen calls) := by
  simp [unseen]

@[simp] theorem passed_concat (answers : List MonitorAction) (a : MonitorAction) :
    passed (answers ++ [a]) = passed answers ++ a.pair?.toList := by
  unfold passed
  rw [List.filterMap_append]
  cases ha : a.pair? <;> simp [ha]

/-! ## 2. The ways of an answer -/

variable {m : Monitor} {calls : List Call} {answers : List MonitorAction} {x y : Word}

theorem onIdle_of_none (h : m.pending = none) : m.onIdle = (.wait, m) := by
  simp only [onIdle, h]

theorem onIdle_of_same (h : m.pending = some (x, y)) (hy : m.lastDelivered = some y) :
    m.onIdle = (.converged y, { m with pending := none }) := by
  simp only [onIdle, h, hy, if_true]

theorem onIdle_of_new (h : m.pending = some (x, y)) (hy : m.lastDelivered ≠ some y) :
    m.onIdle = (.deliver x y,
      { m with pending := none, lastDelivered := some y, deliveries := m.deliveries + 1 }) := by
  simp only [onIdle, h, hy, if_false]

/-- **An answer uses up what was kept.** -/
theorem pending_onIdle (m : Monitor) : m.onIdle.2.pending = none := by
  rcases hp : m.pending with _ | ⟨x, y⟩
  · rw [onIdle_of_none hp]
    exact hp
  · by_cases hy : m.lastDelivered = some y
    · rw [onIdle_of_same hp hy]
    · rw [onIdle_of_new hp hy]

/-! ## 3. The past -/

/-- **The monitor agrees with its past**: it keeps the last packet that no answer has taken into account,
    the last `y` that it has passed on, the first packet of all, and the number of pairs passed on. No two
    pairs in a row have had the same `y`. -/
structure Recalls (m : Monitor) (calls : List Call) (answers : List MonitorAction) : Prop where
  pending : m.pending = (unseen calls).getLast?.map fun p => (p.x, p.y)
  lastDelivered : m.lastDelivered = ((passed answers).map Prod.snd).getLast?
  first : m.first = (received calls).head?
  deliveries : m.deliveries = (passed answers).length
  varied : Network.Varied ((passed answers).map Prod.snd)

theorem recalls_new : Recalls {} [] [] := ⟨rfl, rfl, rfl, rfl, nofun⟩

theorem Recalls.receive (h : Recalls m calls answers) (p : Packet) :
    Recalls (m.receive p) (calls ++ [.receive p]) answers where
  pending := by simp [Monitor.receive, Call.unseen]
  lastDelivered := h.lastDelivered
  first := by
    rw [received_concat_receive, List.head?_append, ← h.first]
    rfl
  deliveries := h.deliveries
  varied := h.varied

/-- An answer that passes nothing on leaves all but the pair that was kept. -/
theorem Recalls.silent (h : Recalls m calls answers) {a : MonitorAction} (ha : a.pair? = none) :
    Recalls { m with pending := none } (calls ++ [.idle]) (answers ++ [a]) := by
  have hpassed : passed (answers ++ [a]) = passed answers := by
    rw [passed_concat, ha]
    exact List.append_nil _
  refine ⟨by simp [Call.unseen], ?_, ?_, ?_, ?_⟩
  · rw [hpassed]
    exact h.lastDelivered
  · rw [received_concat_idle]
    exact h.first
  · rw [hpassed]
    exact h.deliveries
  · rw [hpassed]
    exact h.varied

/-- An answer that passes a pair on has another `y` than the one before. -/
theorem Recalls.deliver (h : Recalls m calls answers) (x : Word) (hy : m.lastDelivered ≠ some y) :
    Recalls { m with pending := none, lastDelivered := some y, deliveries := m.deliveries + 1 }
      (calls ++ [.idle]) (answers ++ [.deliver x y]) := by
  have hpassed : passed (answers ++ [.deliver x y]) = passed answers ++ [(x, y)] :=
    passed_concat answers _
  refine ⟨by simp [Call.unseen], ?_, ?_, ?_, ?_⟩
  · simp [hpassed]
  · rw [received_concat_idle]
    exact h.first
  · simp [hpassed, h.deliveries]
  · rw [hpassed, List.map_append]
    refine h.varied.concat ?_
    rw [← h.lastDelivered]
    exact hy

theorem Recalls.idle (h : Recalls m calls answers) :
    Recalls m.onIdle.2 (calls ++ [.idle]) (answers ++ [m.onIdle.1]) := by
  rcases hp : m.pending with _ | ⟨x, y⟩
  · rw [onIdle_of_none hp]
    have hm : m = { m with pending := none } := by rw [← hp]
    rw [hm]
    exact h.silent rfl
  · by_cases hy : m.lastDelivered = some y
    · rw [onIdle_of_same hp hy]
      exact h.silent rfl
    · rw [onIdle_of_new hp hy]
      exact h.deliver x hy

/-- **Every call keeps the monitor in agreement with its past.** -/
theorem Recalls.call (h : Recalls m calls answers) (c : Call) :
    Recalls (call (m, answers) c).1 (calls ++ [c]) (call (m, answers) c).2 := by
  cases c with
  | receive p => exact h.receive p
  | idle => exact h.idle

theorem Recalls.all {s : Monitor × List MonitorAction} {before : List Call}
    (h : Recalls s.1 before s.2) (calls : List Call) :
    Recalls (calls.foldl Monitor.call s).1 (before ++ calls) (calls.foldl Monitor.call s).2 := by
  induction calls generalizing s before with
  | nil =>
    rw [List.append_nil]
    exact h
  | cons c rest ih =>
    have hnext := ih (h.call c)
    rw [List.append_assoc] at hnext
    exact hnext

theorem recalls_after (calls : List Call) : Recalls (after calls).1 calls (after calls).2 :=
  Recalls.all (s := ({}, [])) recalls_new calls

/-! ## 4. Answers -/

/-- A monitor waits exactly if no packet has arrived since its last answer. -/
theorem Recalls.wait_iff (h : Recalls m calls answers) : m.onIdle.1 = .wait ↔ unseen calls = [] := by
  have hnone : m.pending = none ↔ unseen calls = [] := by
    rw [h.pending, Option.map_eq_none_iff, List.getLast?_eq_none_iff]
  rw [← hnone]
  rcases hp : m.pending with _ | ⟨x, y⟩
  · rw [onIdle_of_none hp]
    simp
  · by_cases hy : m.lastDelivered = some y
    · rw [onIdle_of_same hp hy]
      simp
    · rw [onIdle_of_new hp hy]
      simp

/-- Otherwise it compares the last packet with the pair that it has passed on last. -/
theorem Recalls.compare (h : Recalls m calls answers) {p : Packet}
    (hp : (unseen calls).getLast? = some p) :
    (m.onIdle.1 = .converged p.y ↔ ((passed answers).map Prod.snd).getLast? = some p.y) ∧
      (m.onIdle.1 = .deliver p.x p.y ↔ ((passed answers).map Prod.snd).getLast? ≠ some p.y) := by
  have hpending : m.pending = some (p.x, p.y) := by
    rw [h.pending, hp]
    rfl
  rw [← h.lastDelivered]
  by_cases hy : m.lastDelivered = some p.y
  · rw [onIdle_of_same hpending hy]
    simp [hy]
  · rw [onIdle_of_new hpending hy]
    simp [hy]

/-- **A monitor answers by the whole of its past**, whatever it has been told since it was made. When the
    network is idle, it waits if and only if no packet has arrived since the network was idle before. If
    one has, then for the last of these it reports that the network has settled if and only if the pair
    passed on last had the same `y`, and passes the packet on otherwise; nothing is kept afterwards. So no
    two pairs passed on in a row have the same `y`. The monitor knows how many they are, and which packet
    was the first of all. -/
theorem answers_by_history (calls : List Call) :
    ((after calls).1.onIdle.1 = .wait ↔ unseen calls = []) ∧
    (∀ p, (unseen calls).getLast? = some p →
      ((after calls).1.onIdle.1 = .converged p.y ↔
        ((passed (after calls).2).map Prod.snd).getLast? = some p.y) ∧
      ((after calls).1.onIdle.1 = .deliver p.x p.y ↔
        ((passed (after calls).2).map Prod.snd).getLast? ≠ some p.y)) ∧
    (after calls).1.onIdle.2.pending = none ∧
    after (calls ++ [.idle]) =
      ((after calls).1.onIdle.2, (after calls).2 ++ [(after calls).1.onIdle.1]) ∧
    (∀ (k : Nat) (y y' : Word), ((passed (after calls).2).map Prod.snd)[k]? = some y →
      ((passed (after calls).2).map Prod.snd)[k + 1]? = some y' → y ≠ y') ∧
    (after calls).1.deliveries = (passed (after calls).2).length ∧
    (after calls).1.first = (received calls).head? := by
  have h := recalls_after calls
  refine ⟨h.wait_iff, fun p hp => h.compare hp, pending_onIdle _, ?_, h.varied, h.deliveries, h.first⟩
  unfold after
  rw [List.foldl_append]
  rfl

-- only the pair passed on last counts: a `y` may come back after another one
example : (after [.receive ⟨255, 1, 7⟩, .idle, .idle, .receive ⟨255, 2, 8⟩, .idle,
    .receive ⟨255, 3, 8⟩, .receive ⟨255, 4, 7⟩, .idle]).2 =
      [.deliver 1 7, .wait, .deliver 2 8, .deliver 4 7] := by decide

end Monitor

end WordMachine
