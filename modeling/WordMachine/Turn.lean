/-!
# Turns

Everything here that runs -- a machine, a recording, a ring of amplifiers, a network -- is a
process: a state, and a turn that either goes on to a next state or ends with a result. A process may
run forever, so it is given a number of turns to spend.

* `Turn` -- what one turn leaves;
* `Turn.run` -- at most so many turns; `none` if the process has not ended by then;
* `Turn.Ends` -- the result of a process, whatever the number of turns it takes;
* `Turn.Reaches` -- the states that a process passes through;
* `Turn.noted` -- the same process with a journal of what is worth noting of each turn.
-/

namespace WordMachine

/-- What one turn of a process leaves: a state to go on from, or the result. -/
inductive Turn (σ : Type) (ρ : Type) where
  | more (next : σ)
  | done (result : ρ)

namespace Turn

variable {σ ρ ν : Type}

/-- Runs a process for at most `fuel` turns. -/
def run (turn : σ → Turn σ ρ) : Nat → σ → Option ρ
  | 0, _ => none
  | fuel + 1, s =>
    match turn s with
    | .more s' => run turn fuel s'
    | .done r => some r

/-- More turns than any process on a real computer can take. -/
def patience : Nat := 4611686018427387904

/-- The process that starts in `s` ends with `r`. -/
def Ends (turn : σ → Turn σ ρ) (s : σ) (r : ρ) : Prop := ∃ fuel, run turn fuel s = some r

/-- The states that a process passes through, its start included. -/
inductive Reaches (turn : σ → Turn σ ρ) (start : σ) : σ → Prop where
  | start : Reaches turn start start
  | step (s s' : σ) (h : Reaches turn start s) (hs : turn s = .more s') : Reaches turn start s'

/-- A process that keeps a journal. `notes` says what is worth noting of the turn that a state is
    about to take. -/
def noted (notes : σ → List ν) (turn : σ → Turn σ ρ) :
    σ × Array ν → Turn (σ × Array ν) (ρ × Array ν)
  | (s, journal) =>
    let journal := journal ++ notes s
    match turn s with
    | .more s' => .more (s', journal)
    | .done r => .done (r, journal)

/-! ## Laws -/

@[simp] theorem run_zero (turn : σ → Turn σ ρ) (s : σ) : run turn 0 s = none := rfl

theorem run_succ (turn : σ → Turn σ ρ) (fuel : Nat) (s : σ) :
    run turn (fuel + 1) s = match turn s with
      | .more s' => run turn fuel s'
      | .done r => some r := rfl

/-- More turns keep a result that has been found. -/
theorem run_mono {turn : σ → Turn σ ρ} {n m : Nat} {s : σ} {r : ρ} (h : run turn n s = some r)
    (hnm : n ≤ m) : run turn m s = some r := by
  induction n generalizing m s with
  | zero => simp at h
  | succ n ih =>
    obtain ⟨m, rfl⟩ : ∃ k, m = k + 1 := ⟨m - 1, by omega⟩
    rw [run_succ] at h ⊢
    split at h
    · exact ih h (by omega)
    · exact h

/-- A process has at most one result. -/
theorem Ends.unique {turn : σ → Turn σ ρ} {s : σ} {r r' : ρ} (h : Ends turn s r)
    (h' : Ends turn s r') : r = r' := by
  obtain ⟨n, hn⟩ := h
  obtain ⟨m, hm⟩ := h'
  have hn' := run_mono hn (Nat.le_max_left n m)
  have hm' := run_mono hm (Nat.le_max_right n m)
  rw [hn'] at hm'
  exact Option.some.inj hm'

theorem Ends.of_done {turn : σ → Turn σ ρ} {s : σ} {r : ρ} (h : turn s = .done r) : Ends turn s r :=
  ⟨1, by rw [run_succ, h]⟩

theorem Ends.of_more {turn : σ → Turn σ ρ} {s s' : σ} {r : ρ} (h : turn s = .more s')
    (hr : Ends turn s' r) : Ends turn s r := by
  obtain ⟨fuel, hfuel⟩ := hr
  refine ⟨fuel + 1, ?_⟩
  rw [run_succ, h]
  exact hfuel

theorem Reaches.trans {turn : σ → Turn σ ρ} {s t u : σ} (h : Reaches turn s t)
    (h' : Reaches turn t u) : Reaches turn s u := by
  induction h' with
  | start => exact h
  | step a b _ hab ih => exact ih.step a b hab

/-- A process ends as it does from a state that it reaches. -/
theorem Reaches.ends {turn : σ → Turn σ ρ} {s t : σ} {r : ρ} (h : Reaches turn s t)
    (ht : Ends turn t r) : Ends turn s r := by
  induction h with
  | start => exact ht
  | step a b _ hab ih => exact ih (.of_more hab ht)

/-- What every turn keeps holds of every state that is reached. -/
theorem Reaches.invariant {turn : σ → Turn σ ρ} {P : σ → Prop} {s t : σ} (h : Reaches turn s t)
    (hs : P s) (keep : ∀ a b, P a → turn a = .more b → P b) : P t := by
  induction h with
  | start => exact hs
  | step a b _ hab ih => exact keep a b ih hab

/-- What every turn keeps passes on to the result. -/
theorem run_invariant {turn : σ → Turn σ ρ} {P : σ → Prop} {Q : ρ → Prop}
    (more : ∀ s s', P s → turn s = .more s' → P s') (done : ∀ s r, P s → turn s = .done r → Q r)
    {fuel : Nat} {s : σ} {r : ρ} (h : run turn fuel s = some r) (hs : P s) : Q r := by
  induction fuel generalizing s with
  | zero => simp at h
  | succ fuel ih =>
    rw [run_succ] at h
    cases ht : turn s with
    | more s' =>
      rw [ht] at h
      exact ih h (more s s' hs ht)
    | done r' =>
      rw [ht] at h
      obtain rfl := Option.some.inj h
      exact done s r' hs ht

/-- A journal does not change the result. -/
theorem run_noted (notes : σ → List ν) (turn : σ → Turn σ ρ) (fuel : Nat) (s : σ)
    (journal : Array ν) :
    (run (noted notes turn) fuel (s, journal)).map Prod.fst = run turn fuel s := by
  induction fuel generalizing s journal with
  | zero => rfl
  | succ fuel ih =>
    simp only [run_succ, noted]
    cases turn s with
    | more s' => exact ih s' _
    | done r => rfl

/-- What every turn keeps of the state and the journal holds before the turn that gives the result, and
    the journal of the run is the one before that turn with the notes of that turn. -/
theorem run_noted_invariant {notes : σ → List ν} {turn : σ → Turn σ ρ} {P : σ → List ν → Prop}
    (more : ∀ s s' log, P s log → turn s = .more s' → P s' (log ++ notes s)) (journal : Array ν)
    {fuel : Nat} {s : σ} {r : ρ} (h : run turn fuel s = some r) (hs : P s journal.toList) :
    ∃ t log, P t log ∧ turn t = .done r ∧
      run (noted notes turn) fuel (s, journal) = some (r, (log ++ notes t).toArray) := by
  induction fuel generalizing s journal with
  | zero => simp at h
  | succ fuel ih =>
    rw [run_succ] at h
    simp only [run_succ, noted]
    cases ht : turn s with
    | more s' =>
      rw [ht] at h
      have hs' := more s s' journal.toList hs ht
      rw [← Array.toList_appendList] at hs'
      exact ih (journal ++ notes s) h hs'
    | done r' =>
      rw [ht] at h
      obtain rfl := Option.some.inj h
      refine ⟨s, journal.toList, hs, ht, ?_⟩
      rw [← Array.toList_appendList]

end Turn

end WordMachine
