import WordMachine.CommandLine
import WordMachine.Proofs.Orderings

/-!
# The best order of the settings

Amplifiers without phases are searched for the order of the settings that has the largest answer. The
search runs amplifiers order by order, with a journal of what they do, and stops at the first failure.
This file shows what comes of it, for every program:

* `Session.Settles` -- a session comes to a result and prints nothing, whatever goes to the journal.
  `Settles.bind` puts sessions together, and a process that is followed comes to what it comes to
  without a journal (`settles_follow?`);
* `Wiring.answer?` -- the answer of one order, as the pipeline and the rings give it. A session that runs
  the amplifiers comes to the same (`settles_amplifierAnswer`);
* `FirstMax` -- the first of the largest answers. The comparison with the best so far finds it
  (`best_of_ok`), there is no other (`FirstMax.unique`), and the first order without an answer ends the
  search (`best_of_error`);
* `best_order_reported` -- what is printed, and what is reported of a search that fails.
-/

namespace WordMachine.CommandLine

/-! ## 1. Sessions that print nothing -/

namespace Session

variable {α β σ ρ : Type} {around : Surroundings}

/-- A session comes to a result and prints nothing, whatever has been printed and reported before. -/
def Settles (s : Session α) (r : Except Stop α) : Prop :=
  ∀ t : Transcript, ∃ reported, (ExceptT.run s).run t = (r, { t with reported := reported })

theorem settles_pure (a : α) : Settles (pure a) (.ok a) := fun t => ⟨t.reported, rfl⟩

theorem settles_throw (stop : Stop) : Settles (throw stop : Session α) (.error stop) := fun t =>
  ⟨t.reported, rfl⟩

theorem run_bind (s : Session α) (next : α → Session β) (t : Transcript) :
    (ExceptT.run (s >>= next)).run t =
      match (ExceptT.run s).run t with
      | (.ok a, t') => (ExceptT.run (next a)).run t'
      | (.error stop, t') => (.error stop, t') := by
  show (ExceptT.run s >>= ExceptT.bindCont next).run t = _
  rw [StateT.run_bind]
  obtain ⟨_ | _, t'⟩ := (ExceptT.run s).run t <;> rfl

/-- **One session after the other** comes to what their results come to. -/
theorem Settles.bind {s : Session α} {next : α → Session β} {r : Except Stop α}
    {rest : α → Except Stop β} (hs : Settles s r) (hnext : ∀ a, Settles (next a) (rest a)) :
    Settles (s >>= next) (r.bind rest) := by
  intro t
  obtain ⟨reported, hs⟩ := hs t
  rw [run_bind, hs]
  cases r with
  | error stop => exact ⟨reported, rfl⟩
  | ok a =>
    obtain ⟨reported', hnext⟩ := hnext a { t with reported := reported }
    exact ⟨reported', hnext⟩

theorem settles_report (line : String) : Settles (report line) (.ok ()) := fun t =>
  ⟨t.reported.push line, rfl⟩

theorem settles_forM_report (lines : List String) : Settles (lines.forM report) (.ok ()) := by
  induction lines with
  | nil => exact settles_pure ()
  | cons line rest ih => exact (settles_report line).bind fun _ => ih

theorem settles_note (notes : List Note) : Settles (note around notes) (.ok ()) :=
  settles_forM_report _

/-- Notes of a result do not change it. -/
theorem Settles.noted {s : Session α} {r : Except Stop α} (hs : Settles s r) (notes : α → List Note) :
    Settles (do
      let a ← s
      note around (notes a)
      return a) r := by
  have hnote : ∀ a, Settles (do note around (notes a); return a) (.ok a) := fun a =>
    (settles_note (notes a)).bind fun _ => settles_pure a
  have h := hs.bind hnote
  cases r with
  | error stop => exact h
  | ok a => exact h

/-- **A process that is followed** comes to what it comes to without a journal. -/
theorem settles_follow? (notes : σ → List Note) (turn : σ → Turn σ ρ) (fuel : Nat) (s : σ) :
    Settles (follow? around notes turn fuel s) (.ok (Turn.run turn fuel s)) := by
  intro t
  have hget : (ExceptT.run (get : Session Transcript)).run t = (.ok t, t) := rfl
  unfold follow?
  rw [run_bind, hget, ← Turn.run_noted (linesAt around notes) turn fuel s t.reported]
  simp only
  cases Turn.run (Turn.noted (linesAt around notes) turn) fuel (s, t.reported) with
  | some ended => exact ⟨ended.2, rfl⟩
  | none => exact ⟨t.reported, rfl⟩

/-- What comes of a process that may be endless. -/
def orEndless (r : Option ρ) : Except Stop ρ := r.elim (.error .endless) .ok

theorem settles_follow (notes : σ → List Note) (turn : σ → Turn σ ρ) (s : σ) :
    Settles (follow around notes turn s) (orEndless (Turn.run turn Turn.patience s)) := by
  intro t
  obtain ⟨reported, hfollow⟩ := settles_follow? notes turn Turn.patience s t
  refine ⟨reported, ?_⟩
  unfold follow
  rw [run_bind, hfollow]
  cases Turn.run turn Turn.patience s with
  | some r => rfl
  | none => rfl

end Session

/-! ## 2. The answer of one order -/

open Session

variable {around : Surroundings} {w : Wiring} {program phases : List Word}

/-- The answer of amplifiers, as the pipeline and the rings give it. -/
def Wiring.answer? (w : Wiring) (program phases : List Word) : Option (Except Failure Word) :=
  if w.feedback then
    if w.threaded then Ring.runToEnd program phases w.config else Ring.run program phases w.config
  else Pipeline.run Turn.patience program phases

/-- What a session makes of an answer. -/
def outcome : Option (Except Failure Word) → Except Stop Word
  | some (.ok value) => .ok value
  | some (.error failure) => .error (.failed failure.record)
  | none => .error .endless

theorem settles_settled (answer : Option (Except Failure Word)) :
    Settles (settled answer) (outcome answer) := by
  obtain _ | _ | value := answer
  · exact settles_throw _
  · exact settles_throw _
  · exact settles_pure value

theorem Pipeline.run_mono {n m : Nat} {r : Except Failure Word} (h : Pipeline.run n program phases = some r)
    (hnm : n ≤ m) : Pipeline.run m program phases = some r := by
  cases phases with
  | nil => exact h
  | cons phase rest => exact Turn.run_mono (show Turn.run Pipeline.turn n _ = some r from h) hnm

theorem settles_pipelineAnswer :
    Settles (pipelineAnswer around program phases)
      (outcome (Pipeline.run Turn.patience program phases)) := by
  unfold pipelineAnswer Pipeline.run
  cases Pipeline.start? program phases with
  | none => exact settles_throw _
  | some p =>
    have h : Settles (do settled (some (← follow around Pipeline.turnNotes Pipeline.turn p))) _ :=
      (settles_follow Pipeline.turnNotes Pipeline.turn p).bind fun answer => settles_settled (some answer)
    show Settles _ (outcome (Turn.run Pipeline.turn Turn.patience p))
    cases hrun : Turn.run Pipeline.turn Turn.patience p with
    | none => rwa [hrun] at h
    | some answer => rwa [hrun] at h

theorem settles_ringAnswer :
    Settles (ringAnswer around program phases w)
      (outcome (if w.threaded then Ring.runToEnd program phases w.config
        else Ring.run program phases w.config)) := by
  -- whatever the turn is and whatever is told of the ring in the end
  have hfollow : ∀ (turn : Ring.Shift → Turn Ring.Shift Ring)
      (answer? : Option Ring → Option (Except Failure Word)),
      Settles (do
        let ring ← follow? around (Ring.turnNotes w.threaded) turn (w.config.turns phases)
          (.first (Ring.seated program w.config.stepLimit phases))
        let answer ← settled (answer? ring)
        note around (Ring.answerNotes w.threaded phases.length answer)
        return answer)
      (outcome (answer? (Turn.run turn (w.config.turns phases)
        (.first (Ring.seated program w.config.stepLimit phases))))) := by
    intro turn answer?
    exact (settles_follow? _ turn _ _).bind fun ring =>
      (settles_settled (answer? ring)).noted (Ring.answerNotes w.threaded phases.length)
  unfold ringAnswer Ring.runToEnd Ring.run
  by_cases hempty : phases.isEmpty = true
  · simp only [hempty, if_true, ite_self]
    exact settles_throw _
  · cases hthreaded : w.threaded with
    | false =>
      simp only [hempty, if_false, Bool.false_and, Bool.false_eq_true, hthreaded] at hfollow ⊢
      exact hfollow Ring.turn (Ring.answer? w.config)
    | true =>
      simp only [hempty, if_false, Bool.true_and, if_true, Bool.false_eq_true, hthreaded] at hfollow ⊢
      split
      · exact settles_throw _
      · exact hfollow Ring.turnToEnd Ring.answerToEnd?

theorem settles_amplifierAnswer :
    Settles (amplifierAnswer around program phases w) (outcome (w.answer? program phases)) := by
  unfold amplifierAnswer Wiring.answer?
  split
  · exact settles_ringAnswer
  · exact settles_pipelineAnswer

/-! ## 3. The search -/

/-- **The order that a search is to find**: the ones before it have smaller answers, the ones after it no
    larger ones. -/
def FirstMax (value : List Word → Word) (orders : List (List Word)) (best : List Word) : Prop :=
  ∃ before after, orders = before ++ best :: after ∧
    (∀ order ∈ before, value order < value best) ∧ ∀ order ∈ after, value order ≤ value best

section

variable {value : List Word → Word} {order best : List Word} {orders : List (List Word)}

theorem FirstMax.mem (h : FirstMax value orders best) : best ∈ orders := by
  obtain ⟨before, after, rfl, -, -⟩ := h
  exact List.mem_append_right _ List.mem_cons_self

theorem FirstMax.le (h : FirstMax value orders best) (horder : order ∈ orders) :
    value order ≤ value best := by
  obtain ⟨before, after, rfl, hbefore, hafter⟩ := h
  rcases List.mem_append.1 horder with h | h
  · exact Int64.le_of_lt (hbefore order h)
  · rcases List.mem_cons.1 h with rfl | h
    · exact Int64.le_refl _
    · exact hafter order h

/-- There is one such order: of two, neither may stand before the other, since their answers are equal. -/
theorem FirstMax.unique {best' : List Word} (h : FirstMax value orders best)
    (h' : FirstMax value orders best') : best = best' := by
  have hle := h.le h'.mem
  have hle' := h'.le h.mem
  obtain ⟨before, after, horders, hbefore, -⟩ := h
  obtain ⟨before', after', horders', hbefore', -⟩ := h'
  obtain ⟨between, rfl, hrest⟩ | ⟨between, rfl, hrest⟩ :=
    List.append_eq_append_iff.1 (horders.symm.trans horders')
  · cases between with
    | nil => exact (List.cons.inj hrest).1
    | cons o rest =>
      obtain rfl := (List.cons.inj hrest).1
      have hmem : best ∈ before ++ best :: rest := List.mem_append_right _ List.mem_cons_self
      exact absurd hle (Int64.not_le.2 (hbefore' best hmem))
  · cases between with
    | nil => exact (List.cons.inj hrest).1.symm
    | cons o rest =>
      obtain rfl := (List.cons.inj hrest).1
      have hmem : best' ∈ before' ++ best' :: rest := List.mem_append_right _ List.mem_cons_self
      exact absurd hle' (Int64.not_le.2 (hbefore best' hmem))

/-- An order in front that has a smaller answer is not the one. -/
theorem FirstMax.cons (h : FirstMax value orders best) (hlt : value order < value best) :
    FirstMax value (order :: orders) best := by
  obtain ⟨before, after, rfl, hbefore, hafter⟩ := h
  exact ⟨order :: before, after, rfl, List.forall_mem_cons.2 ⟨hlt, hbefore⟩, hafter⟩

/-- Nor is an order behind the first one that has no larger answer than that. -/
theorem FirstMax.insert {first : List Word} (h : FirstMax value (first :: orders) best)
    (hle : value order ≤ value first) : FirstMax value (first :: order :: orders) best := by
  obtain ⟨before, after, horders, hbefore, hafter⟩ := h
  cases before with
  | nil =>
    obtain ⟨rfl, rfl⟩ := List.cons.inj horders
    exact ⟨[], order :: orders, rfl, hbefore, List.forall_mem_cons.2 ⟨hle, hafter⟩⟩
  | cons o before =>
    obtain ⟨rfl, rfl⟩ := List.cons.inj horders
    obtain ⟨hfirst, hbefore⟩ := List.forall_mem_cons.1 hbefore
    have horder : value order < value best := Int64.lt_of_le_of_lt hle hfirst
    exact ⟨first :: order :: before, after, rfl,
      List.forall_mem_cons.2 ⟨hfirst, List.forall_mem_cons.2 ⟨horder, hbefore⟩⟩, hafter⟩

end

/-- **The search finds the first of the largest answers**, if every order has an answer. -/
theorem best_of_ok {answer : List Word → Except Stop Word} {value : List Word → Word}
    {orders : List (List Word)} (h : ∀ order ∈ orders, answer order = .ok (value order))
    (first : List Word) :
    ∃ best, Settings.best answer (some (first, value first)) orders = .ok (some (best, value best)) ∧
      FirstMax value (first :: orders) best := by
  induction orders generalizing first with
  | nil => exact ⟨first, rfl, [], [], rfl, nofun, nofun⟩
  | cons order rest ih =>
    obtain ⟨horder, hrest⟩ := List.forall_mem_cons.1 h
    have hstep : Settings.best answer (some (first, value first)) (order :: rest) =
        Settings.best answer
          (if value first < value order then some (order, value order)
            else some (first, value first)) rest := by
      rw [Settings.best, horder]
      rfl
    rw [hstep]
    split
    · next hlt =>
      obtain ⟨best, hbest, hmax⟩ := ih hrest order
      exact ⟨best, hbest, hmax.cons (Int64.lt_of_lt_of_le hlt (hmax.le List.mem_cons_self))⟩
    · next hlt =>
      obtain ⟨best, hbest, hmax⟩ := ih hrest first
      exact ⟨best, hbest, hmax.insert (Int64.not_lt.1 hlt)⟩

theorem best_of_all_ok {answer : List Word → Except Stop Word} {value : List Word → Word}
    {orders : List (List Word)} (h : ∀ order ∈ orders, answer order = .ok (value order))
    (hne : orders ≠ []) :
    ∃ best, Settings.best answer none orders = .ok (some (best, value best)) ∧
      FirstMax value orders best := by
  obtain ⟨first, rest, rfl⟩ := List.exists_cons_of_ne_nil hne
  obtain ⟨hfirst, hrest⟩ := List.forall_mem_cons.1 h
  rw [Settings.best, hfirst]
  exact best_of_ok hrest first

/-- **The first order without an answer ends the search.** -/
theorem best_of_error {answer : List Word → Except Stop Word} {before after : List (List Word)}
    (h : ∀ order ∈ before, ∃ value, answer order = .ok value) {order : List Word} {stop : Stop}
    (hstop : answer order = .error stop) (sofar : Option (List Word × Word)) :
    Settings.best answer sofar (before ++ order :: after) = .error stop := by
  induction before generalizing sofar with
  | nil =>
    rw [List.nil_append, Settings.best, hstop]
    rfl
  | cons o rest ih =>
    obtain ⟨⟨value, hvalue⟩, hrest⟩ := List.forall_mem_cons.1 h
    rw [List.cons_append, Settings.best, hvalue]
    cases sofar with
    | none => exact ih hrest _
    | some top => exact ih hrest _

theorem settles_best {answer : List Word → Session Word} {result : List Word → Except Stop Word}
    (h : ∀ order, Settles (answer order) (result order)) (sofar : Option (List Word × Word))
    (orders : List (List Word)) :
    Settles (Settings.best answer sofar orders) (Settings.best result sofar orders) := by
  induction orders generalizing sofar with
  | nil => exact settles_pure sofar
  | cons order rest ih =>
    refine (h order).bind fun value => ?_
    cases sofar with
    | none => exact ih _
    | some top => exact ih _

/-! ## 4. Amplifiers without phases -/

/-- The first of the settings that are searched. -/
def firstSetting (feedback : Bool) : Word := if feedback then 5 else 0

theorem firstSetting_le (feedback : Bool) :
    (firstSetting feedback).toInt + amplifierCount ≤ 2 ^ 63 - 1 := by
  cases feedback <;> decide

theorem searched_eq (feedback : Bool) :
    searched feedback = Settings.ordersFrom (Settings.settings (firstSetting feedback) amplifierCount).toArray
      (Settings.swaps amplifierCount) :=
  congrArg (·.getD []) (Settings.orderings?_eq (firstSetting_le feedback))

/-- **Every order of the five settings is searched.** -/
theorem mem_searched_iff (feedback : Bool) (l : List Word) :
    l ∈ searched feedback ↔
      (l.map Int64.toInt).Perm (if feedback then [5, 6, 7, 8, 9] else [0, 1, 2, 3, 4]) := by
  rw [searched_eq, Settings.mem_orders_iff (firstSetting_le feedback)]
  cases feedback <;> rfl

theorem searched_ne_nil (feedback : Bool) : searched feedback ≠ [] := by
  obtain ⟨rest, hrest⟩ := Settings.ordersFrom_head
    (Settings.settings (firstSetting feedback) amplifierCount).toArray (Settings.swaps amplifierCount)
  rw [searched_eq, hrest]
  exact List.cons_ne_nil _ _

section

variable (around : Surroundings) (program : List Word) (w : Wiring)

/-- What the search over all orders comes to. -/
theorem settles_search :
    Settles (Settings.best (fun order => amplifierAnswer around program order w) none
        (searched w.feedback))
      (Settings.best (fun order => outcome (w.answer? program order)) none (searched w.feedback)) :=
  settles_best (fun _ => settles_amplifierAnswer) none (searched w.feedback)

/-- The best order and its answer are printed. -/
theorem run_amplify_of_ok {best : List Word} {value : Word} (t : Transcript)
    (h : Settings.best (fun order => outcome (w.answer? program order)) none (searched w.feedback) =
      .ok (some (best, value))) :
    ∃ reported, (ExceptT.run (amplify around program [] w)).run t =
      (.ok (), ⟨t.printed.push
        s!"{Word.decimal value} (phases {Text.bracketed (best.map Word.decimal)})", reported⟩) := by
  obtain ⟨reported, hsearch⟩ := settles_search around program w t
  refine ⟨reported, ?_⟩
  unfold amplify
  rw [if_pos List.isEmpty_nil, run_bind, hsearch, h]
  rfl

/-- A search that breaks off prints nothing. -/
theorem run_amplify_of_error {stop : Stop} (t : Transcript)
    (h : Settings.best (fun order => outcome (w.answer? program order)) none (searched w.feedback) =
      .error stop) :
    ∃ reported, (ExceptT.run (amplify around program [] w)).run t =
      (.error stop, { t with reported := reported }) := by
  obtain ⟨reported, hsearch⟩ := settles_search around program w t
  refine ⟨reported, ?_⟩
  unfold amplify
  rw [if_pos List.isEmpty_nil, run_bind, hsearch, h]

end

/-- **The best order is reported.** For every program and every wiring, amplifiers without phases are
searched in the orders that the loop over the settings comes to, which are all orders of the five settings
from 0, or in a ring from 5:

* if every order has an answer, the line that is printed has the largest of them, and the first order that
  has it;
* if the first order that has none fails, the search fails as it does, and prints nothing; if that order
  never ends, neither does the search.

The answer of an order is the one of the pipeline or of the ring (`Wiring.answer?`). A ring may have a time
limit, and its clock may leave any number of turns to each order: an order whose time is used up is one that
fails. -/
theorem best_order_reported (around : Surroundings) (program : List Word) (w : Wiring) (t : Transcript) :
    Turn.Ends Settings.Search.turn (.start (Settings.settings (if w.feedback then 5 else 0) 5))
      (searched w.feedback) ∧
    (∀ l, l ∈ searched w.feedback ↔
      (l.map Int64.toInt).Perm (if w.feedback then [5, 6, 7, 8, 9] else [0, 1, 2, 3, 4])) ∧
    (∀ value : List Word → Word,
      (∀ order ∈ searched w.feedback, w.answer? program order = some (.ok (value order))) →
      ∃ best, FirstMax value (searched w.feedback) best ∧
        ∃ reported, (ExceptT.run (amplify around program [] w)).run t =
          (.ok (), ⟨t.printed.push
            s!"{Word.decimal (value best)} (phases {Text.bracketed (best.map Word.decimal)})",
            reported⟩)) ∧
    (∀ before order after, searched w.feedback = before ++ order :: after →
      (∀ l ∈ before, ∃ value, w.answer? program l = some (.ok value)) →
      (∀ failure, w.answer? program order = some (.error failure) →
        ∃ reported, (ExceptT.run (amplify around program [] w)).run t =
          (.error (.failed failure.record), { t with reported := reported })) ∧
      (w.answer? program order = none →
        ∃ reported, (ExceptT.run (amplify around program [] w)).run t =
          (.error .endless, { t with reported := reported }))) := by
  refine ⟨?_, mem_searched_iff w.feedback, fun value hvalue => ?_,
    fun before order after horders hbefore => ?_⟩
  · rw [searched_eq]
    exact Settings.Search.ends _
  · have hok : ∀ order ∈ searched w.feedback,
        outcome (w.answer? program order) = .ok (value order) := fun order ho => by
      rw [hvalue order ho]
      rfl
    obtain ⟨best, hbest, hmax⟩ := best_of_all_ok hok (searched_ne_nil w.feedback)
    exact ⟨best, hmax, run_amplify_of_ok around program w t hbest⟩
  · have hok : ∀ l ∈ before, ∃ value, outcome (w.answer? program l) = .ok value := fun l hl => by
      obtain ⟨value, hvalue⟩ := hbefore l hl
      exact ⟨value, by rw [hvalue]; rfl⟩
    have hstop : ∀ stop, outcome (w.answer? program order) = .error stop →
        ∃ reported, (ExceptT.run (amplify around program [] w)).run t =
          (.error stop, { t with reported := reported }) := fun stop h =>
      run_amplify_of_error around program w t (horders ▸ best_of_error hok h none)
    exact ⟨fun failure h => hstop _ (by rw [h]; rfl), fun h => hstop _ (by rw [h]; rfl)⟩

/-- Amplifiers that answer with -1 less their setting: the best orders end with 0, and their answer is still
negative. Amplifiers that put out nothing fail in the first order, and so does a ring whose clock allows it
no turn. -/
theorem best_order_reported_negative :
    (∃ reported, (ExceptT.run (amplify ⟨fun _ => .ok "", false, none⟩
        [3, 0, 102, -1, 0, 0, 101, -1, 0, 0, 4, 0, 99] [] ⟨false, false, {}⟩)).run {} =
      (.ok (), ⟨#["-1 (phases [3, 4, 1, 2, 0])"], reported⟩)) ∧
    (∃ reported, (ExceptT.run (amplify ⟨fun _ => .ok "", false, none⟩ [99] [] ⟨false, false, {}⟩)).run {} =
      (.error (.failed "NoOutput \x7b node: 0 \x7d"), ⟨#[], reported⟩)) ∧
    ∃ reported, (ExceptT.run (amplify ⟨fun _ => .ok "", false, none⟩ [99] []
        ⟨true, false, ⟨some (.ofSeconds 1), none, fun _ _ => 0⟩⟩)).run {} =
      (.error (.failed "TimedOut \x7b after: 1s \x7d"), ⟨#[], reported⟩) := by
  refine ⟨?_, ?_, ?_⟩
  · obtain ⟨-, hall, hprinted, -⟩ := best_order_reported ⟨fun _ => .ok "", false, none⟩
      [3, 0, 102, -1, 0, 0, 101, -1, 0, 0, 4, 0, 99] ⟨false, false, {}⟩ {}
    -- an amplifier hands over after five steps, whatever the signal that it is given
    have hstage : ∀ (index : Nat) (parameter signal : Word) (waiting : List Word) (fuel : Nat),
        Turn.run Pipeline.turn (fuel + 5) ⟨[3, 0, 102, -1, 0, 0, 101, -1, 0, 0, 4, 0, 99], index, parameter,
            waiting, Pipeline.amplifier [3, 0, 102, -1, 0, 0, 101, -1, 0, 0, 4, 0, 99] parameter signal⟩ =
          (Pipeline.handOver [3, 0, 102, -1, 0, 0, 101, -1, 0, 0, 4, 0, 99] index waiting
            (-1 + -1 * parameter)).casesOn (Turn.run Pipeline.turn fuel) some := by
      intro index parameter signal waiting fuel
      simp [Turn.run, Pipeline.turn, Pipeline.amplifier, Machine.ofProgram, Machine.ofMemory, Memory.ofImage,
        Machine.withInput, Machine.step, Machine.advance, Machine.fetch, Machine.spent?, Machine.instruction,
        Instruction.decode, Instruction.op?, Opcode.ofCode?, Instruction.mode, Mode.ofDigit, Machine.effect,
        Machine.combine, Machine.param, Machine.target, Machine.operand, Param.index, Memory.load, Memory.read,
        Mode.target, addressOf, Word.address?, Machine.apply, Machine.takeInput, Machine.store, Memory.store,
        Memory.setDense, Except.map, Except.mapError, bind, Except.bind, pure, Except.pure]
      cases Pipeline.handOver _ index waiting (-1 + -1 * parameter) <;> rfl
    have hrun : ∀ a b c d e : Word,
        Pipeline.run 25 [3, 0, 102, -1, 0, 0, 101, -1, 0, 0, 4, 0, 99] [a, b, c, d, e] =
          some (.ok (-1 + -1 * e)) := by
      intro a b c d e
      simp only [Pipeline.run, Pipeline.start?, Pipeline.handOver, hstage]
    obtain ⟨best, hbest, hreported⟩ := hprinted (fun order => -1 + -1 * order.getLast?.getD 0)
      fun order horder => by
        have hfive : order.length = 5 := by simpa using ((hall order).1 horder).length_eq
        obtain ⟨a, rest, rfl⟩ := List.exists_of_length_succ order hfive
        obtain ⟨b, c, d, e, rfl⟩ := List.length_eq_four.1 (Nat.succ.inj hfive)
        exact Pipeline.run_mono (hrun a b c d e) (by decide)
    have hfirst : FirstMax (fun order => -1 + -1 * order.getLast?.getD 0) (searched false)
        [3, 4, 1, 2, 0] :=
      ⟨(searched false).take 96, (searched false).drop 97, by decide +kernel, by decide +kernel,
        by decide +kernel⟩
    obtain rfl := hbest.unique hfirst
    exact hreported
  · obtain ⟨-, -, -, hstopped⟩ := best_order_reported ⟨fun _ => .ok "", false, none⟩ [99]
      ⟨false, false, {}⟩ {}
    have hrun : Pipeline.run 50 [99] [0, 1, 2, 3, 4] = some (.error (.noOutput 0)) := by decide +kernel
    have hfirst : searched false = [] ++ [0, 1, 2, 3, 4] :: (searched false).drop 1 := by decide +kernel
    have hbefore : ∀ l ∈ ([] : List (List Word)), ∃ value,
        Wiring.answer? ⟨false, false, {}⟩ [99] l = some (.ok value) := by simp
    exact (hstopped [] [0, 1, 2, 3, 4] _ hfirst hbefore).1 _ (Pipeline.run_mono hrun (by decide))
  · obtain ⟨-, -, -, hstopped⟩ := best_order_reported ⟨fun _ => .ok "", false, none⟩ [99]
      ⟨true, false, ⟨some (.ofSeconds 1), none, fun _ _ => 0⟩⟩ {}
    have hfirst : searched true = [] ++ [5, 6, 7, 8, 9] :: (searched true).drop 1 := by decide +kernel
    have hbefore : ∀ l ∈ ([] : List (List Word)), ∃ value,
        Wiring.answer? ⟨true, false, ⟨some (.ofSeconds 1), none, fun _ _ => 0⟩⟩ [99] l = some (.ok value) := by
      simp
    exact (hstopped [] [5, 6, 7, 8, 9] _ hfirst hbefore).1 (.timedOut (.ofSeconds 1)) rfl

end WordMachine.CommandLine
