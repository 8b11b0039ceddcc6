import Mathlib.Tactic.IntervalCases
import WordMachine.Debugger
import WordMachine.Proofs.Timeline

/-!
# The keys of the debugger move a cursor

Keys act on the walk through a recording, on the panes, on the message and on the walk that goes on by itself;
the clock moves that walk on, and drawing settles the panes. For the position all of this comes to very
little: it is a cursor that goes to and fro between the first and the last snapshot.

* `Debugger.Event`, `Debugger.handle`, `Debugger.after` -- what the debugger hears, one at a time and one
  after the other;
* `Cursor` -- a position, whether it goes on by itself, and whether to quit; `Cursor.handle` says what becomes
  of each;
* `Debugger.forwardBy_eq` -- going forward step by step, and counting the steps, is going forward at once as
  far as there are snapshots;
* `Debugger.Shows` -- a debugger shows a cursor in a recording that is otherwise unchanged. It does so after
  an event (`shows_handle`), and so after any number of them (`shows_after`);
* `Debugger.keys_move_cursor` -- what this means for the keys.
-/

namespace WordMachine

/-! ## 1. Events -/

namespace Debugger

/-- What a debugger hears: a key, the clock, or that the screen is to be drawn. -/
inductive Event where
  | key (k : Key)
  | tick
  | draw (width height : Nat)
  deriving DecidableEq, Repr

/-- The debugger after an event. -/
def handle (d : Debugger) : Event → Debugger
  | .key k => d.press k
  | .tick => d.tick
  | .draw width height => (d.draw width height).2

/-- The debugger after events. -/
def after (d : Debugger) (events : List Event) : Debugger := events.foldl handle d

/-- The events that ask to quit. -/
def Event.quits (e : Event) : Bool := e = .key (.char 'q') ∨ e = .key (.char 'Q')

end Debugger

/-! ## 2. The cursor -/

/-- The keys that walk through the recording. -/
def Key.walks : Key → Bool
  | .left | .right | .enter | .backspace => true
  | .char c => (Debugger.stepDigit? c).isSome
  | .up | .down | .tab | .backTab | .other => false

/-- A position among so many snapshots, whether it goes on by itself, and whether to quit. -/
structure Cursor where
  position : Nat
  playing : Bool
  quit : Bool
  deriving DecidableEq, Repr

namespace Cursor

variable (total : Nat) (c : Cursor)

/-- How many snapshots there are after the position. -/
def remaining : Nat := total - 1 - c.position

/-- **Where the position goes**, among `total` snapshots. -/
def move : Debugger.Event → Nat
  | .key .right => if c.position + 1 < total then c.position + 1 else c.position
  | .key .left => c.position - 1
  | .key .enter => total - 1
  | .key .backspace => 0
  | .key (.char ch) =>
    match Debugger.stepDigit? ch with
    | some n => c.position + min n (c.remaining total)
    | none => c.position
  | .tick => if c.playing = true ∧ c.position + 1 < total then c.position + 1 else c.position
  | .key _ | .draw .. => c.position

/-- **Whether the cursor goes on by itself** after an event: the space bar turns this on and off, the keys
    that walk turn it off, and so does the clock at the last snapshot. -/
def plays : Debugger.Event → Bool
  | .key k => if k = .char ' ' then !c.playing else if k.walks then false else c.playing
  | .tick => c.playing && decide (c.position + 1 < total)
  | .draw .. => c.playing

/-- The cursor after an event. -/
def handle (e : Debugger.Event) : Cursor := ⟨c.move total e, c.plays total e, c.quit || e.quits⟩

variable {total c}

/-- A cursor stays among the snapshots, and at 0 if there is none. -/
theorem move_le (h : c.position ≤ total - 1) (e : Debugger.Event) : c.move total e ≤ total - 1 := by
  unfold move
  split
  · split <;> omega
  · omega
  · omega
  · omega
  · split
    · unfold remaining
      omega
    · exact h
  · split <;> omega
  · exact h
  · exact h

theorem foldl_handle_le (h : c.position ≤ total - 1) (events : List Debugger.Event) :
    (events.foldl (handle total) c).position ≤ total - 1 := by
  induction events generalizing c with
  | nil => exact h
  | cons e rest ih => exact ih (move_le h e)

theorem quit_foldl_handle (c : Cursor) (events : List Debugger.Event) :
    (events.foldl (handle total) c).quit = (c.quit || events.any Debugger.Event.quits) := by
  induction events generalizing c with
  | nil => exact (Bool.or_false _).symm
  | cons e rest ih =>
    rw [List.foldl_cons, ih, List.any_cons, ← Bool.or_assoc]
    rfl

end Cursor

namespace Debugger

variable {d d' : Debugger} {r : Recorder}

/-- The cursor of a debugger. -/
def cursor (d : Debugger) : Cursor := ⟨d.recorder.position, d.playing, d.shouldQuit⟩

/-! ## 3. Going forward -/

/-- The digits from 1 to 9 stand for their numbers, and no other character stands for one. -/
theorem stepDigit?_eq_some_iff (c : Char) (n : Nat) :
    stepDigit? c = some n ↔ 1 ≤ n ∧ n ≤ 9 ∧ c = Nat.digitChar n := by
  constructor
  · intro h
    unfold stepDigit? at h
    split at h
    · rename_i hc
      obtain ⟨hle, hge⟩ := hc
      have hlow : 49 ≤ c.toNat := hle
      have hhigh : c.toNat ≤ 57 := hge
      have hn : c.toNat - 48 = n := Option.some.inj h
      refine ⟨by omega, by omega, Char.toNat_inj.1 ?_⟩
      rw [Nat.toNat_digitChar_of_lt_ten (by omega)]
      omega
    · cases h
  · rintro ⟨hlow, hhigh, rfl⟩
    interval_cases n <;> rfl

/-- **Going forward step by step** is going forward at once, as far as there are snapshots, and the steps
    that are counted are those that are made. -/
theorem forwardBy_eq (n : Nat) (r : Recorder) :
    forwardBy n r =
      ({ r with position := r.position + min n (r.total - 1 - r.position) },
        min n (r.total - 1 - r.position)) := by
  induction n generalizing r with
  | zero =>
    rw [Nat.zero_min]
    rfl
  | succ n ih =>
    unfold forwardBy
    by_cases hlt : r.position + 1 < r.total
    · rw [Recorder.forward?_eq_ok_iff.2 ⟨hlt, rfl⟩]
      simp only [ih]
      -- From the next snapshot one fewer is ahead, and the step that led there is counted.
      have hrest : min n (r.total - 1 - (r.position + 1)) + 1 = min (n + 1) (r.total - 1 - r.position) := by
        omega
      show (({ r with position := r.position + 1 + min n (r.total - 1 - (r.position + 1)) } : Recorder),
        min n (r.total - 1 - (r.position + 1)) + 1) = _
      rw [hrest, Nat.add_assoc, Nat.add_comm 1, hrest]
    · have hend : r.forward? = .error .atEnd := if_neg hlt
      have hnone : min (n + 1) (r.total - 1 - r.position) = 0 := by omega
      simp only [hend, hnone]
      rfl

/-- **A digit key** walks as far as it says, or to the last snapshot, and tells how far that was. -/
theorem jumpBy_eq (d : Debugger) (n : Nat) :
    d.jumpBy n =
      d.leap { d.recorder with position := d.recorder.position + min n (d.cursor.remaining d.recorder.total) }
        s!"Stepped forward {min n (d.cursor.remaining d.recorder.total)} step(s)" := by
  unfold jumpBy
  rw [forwardBy_eq]
  rfl

/-! ## 4. What is left alone -/

theorem position_eq {n : Nat} (h : n = r.position) : { r with position := n } = r := by
  subst h
  rfl

/-- **Only the panes have been scrolled.** -/
def Scrolls (d d' : Debugger) : Prop :=
  ∃ programScroll memoryScroll outputScroll, d' = { d with programScroll, memoryScroll, outputScroll }

theorem scrolls_up (d : Debugger) : Scrolls d d.scrollUp := by
  unfold scrollUp
  split <;> exact ⟨_, _, _, rfl⟩

theorem scrolls_down (d : Debugger) : Scrolls d d.scrollDown := by
  unfold scrollDown
  split <;> exact ⟨_, _, _, rfl⟩

/-- Drawing settles the scroll offsets and nothing else. -/
theorem scrolls_draw (d : Debugger) (width height : Nat) : Scrolls d (d.draw width height).2 := by
  cases hs : d.recorder.current? with
  | none =>
    simp only [draw, hs]
    exact ⟨_, _, _, rfl⟩
  | some s =>
    simp only [draw, hs]
    exact ⟨_, _, _, rfl⟩

/-! ## 5. The debugger and the cursor -/

/-- **A debugger shows a cursor** in a recording: of the recording nothing has changed but the position. -/
structure Shows (r : Recorder) (d : Debugger) (c : Cursor) : Prop where
  recorder : d.recorder = { r with position := c.position }
  playing : d.playing = c.playing
  shouldQuit : d.shouldQuit = c.quit

/-- An event that does not ask to quit has only the recorder and the playing to account for. -/
theorem shows_of_stays {e : Event} (he : e.quits = false)
    (hrecorder : d'.recorder = { d.recorder with position := d.cursor.move d.recorder.total e })
    (hplaying : d'.playing = d.cursor.plays d.recorder.total e) (hquit : d'.shouldQuit = d.shouldQuit) :
    Shows d.recorder d' (d.cursor.handle d.recorder.total e) := by
  refine ⟨hrecorder, hplaying, hquit.trans ?_⟩
  show d.shouldQuit = (d.shouldQuit || e.quits)
  rw [he, Bool.or_false]

/-- An event that only scrolls is one that the cursor does not hear. -/
theorem Scrolls.shows (h : Scrolls d d') {e : Event} (he : e.quits = false)
    (hmove : d.cursor.move d.recorder.total e = d.recorder.position)
    (hplays : d.cursor.plays d.recorder.total e = d.playing) :
    Shows d.recorder d' (d.cursor.handle d.recorder.total e) := by
  obtain ⟨_, _, _, rfl⟩ := h
  exact shows_of_stays he (position_eq hmove).symm hplays.symm rfl

theorem shows_walk_forward (d : Debugger) (direction : String) :
    Shows d.recorder (d.walk direction d.recorder.forward?)
      (d.cursor.handle d.recorder.total (.key .right)) := by
  by_cases hlt : d.recorder.position + 1 < d.recorder.total
  · rw [Recorder.forward?_eq_ok_iff.2 ⟨hlt, rfl⟩]
    exact shows_of_stays rfl (congrArg (fun n => { d.recorder with position := n }) (if_pos hlt).symm) rfl rfl
  · have hend : d.recorder.forward? = .error .atEnd := if_neg hlt
    rw [hend]
    exact shows_of_stays rfl (position_eq (if_neg hlt)).symm rfl rfl

theorem shows_walk_backward (d : Debugger) (direction : String) :
    Shows d.recorder (d.walk direction d.recorder.backward?)
      (d.cursor.handle d.recorder.total (.key .left)) := by
  by_cases hzero : d.recorder.position = 0
  · have hstart : d.recorder.backward? = .error .atStart := if_pos hzero
    have hsame : d.recorder.position - 1 = d.recorder.position := by omega
    rw [hstart]
    exact shows_of_stays rfl (position_eq hsame).symm rfl rfl
  · rw [Recorder.backward?_eq_ok_iff.2 ⟨hzero, rfl⟩]
    exact shows_of_stays rfl rfl rfl rfl

theorem shows_tick (d : Debugger) :
    Shows d.recorder d.tick (d.cursor.handle d.recorder.total .tick) := by
  unfold tick
  by_cases hp : d.playing = true
  · by_cases hlt : d.recorder.position + 1 < d.recorder.total
    · rw [if_pos hp, Recorder.forward?_eq_ok_iff.2 ⟨hlt, rfl⟩]
      refine shows_of_stays rfl (congrArg (fun n => { d.recorder with position := n }) ?_) ?_ rfl
      · exact (if_pos ⟨hp, hlt⟩).symm
      · show d.playing = (d.playing && decide (d.recorder.position + 1 < d.recorder.total))
        rw [decide_eq_true hlt, Bool.and_true]
    · have hend : d.recorder.forward? = .error .atEnd := if_neg hlt
      rw [if_pos hp, hend]
      refine shows_of_stays rfl (position_eq (if_neg fun h => hlt h.2)).symm ?_ rfl
      show false = (d.playing && decide (d.recorder.position + 1 < d.recorder.total))
      rw [decide_eq_false hlt, Bool.and_false]
  · rw [if_neg hp]
    refine shows_of_stays rfl (position_eq (if_neg fun h => hp h.1)).symm ?_ rfl
    show d.playing = (d.playing && _)
    rw [eq_false_of_ne_true hp]
    rfl

theorem shows_togglePlay (d : Debugger) :
    Shows d.recorder d.togglePlay (d.cursor.handle d.recorder.total (.key (.char ' '))) := by
  unfold togglePlay
  split
  · rename_i hp
    exact shows_of_stays rfl rfl (congrArg (!·) hp).symm rfl
  · rename_i hp
    exact shows_of_stays rfl rfl (congrArg (!·) (eq_false_of_ne_true hp)).symm rfl

/-- The keys that are characters: two quit, the space bar plays and pauses, and nine walk. -/
theorem shows_pressChar (d : Debugger) (ch : Char) :
    Shows d.recorder (d.pressChar ch) (d.cursor.handle d.recorder.total (.key (.char ch))) := by
  unfold pressChar
  by_cases hquit : ch = 'q' ∨ ch = 'Q'
  · have hquits : (d.shouldQuit || true) = true := Bool.or_true _
    rw [if_pos hquit]
    rcases hquit with rfl | rfl <;> exact ⟨rfl, rfl, hquits.symm⟩
  · rw [if_neg hquit]
    by_cases hspace : ch = ' '
    · subst hspace
      exact d.shows_togglePlay
    · have hkey : ¬ Key.char ch = .char ' ' := fun h => hspace (Key.char.inj h)
      have hquits : Event.quits (.key (.char ch)) = false := by
        unfold Event.quits
        simpa using hquit
      rw [if_neg hspace]
      -- What is left is a digit that walks, or a key that does nothing.
      cases hdigit : stepDigit? ch with
      | none =>
        refine shows_of_stays hquits (position_eq ?_).symm ?_ rfl
        · simp only [Cursor.move, hdigit]
          rfl
        · simp only [Cursor.plays, if_neg hkey, Key.walks, hdigit]
          rfl
      | some n =>
        show Shows d.recorder (d.jumpBy n) _
        rw [jumpBy_eq]
        refine shows_of_stays hquits ?_ ?_ rfl
        · simp only [Cursor.move, hdigit]
          rfl
        · simp only [Cursor.plays, if_neg hkey, Key.walks, hdigit]
          rfl

/-- **An event moves the debugger as it moves the cursor.** -/
theorem shows_handle (d : Debugger) (e : Event) :
    Shows d.recorder (d.handle e) (d.cursor.handle d.recorder.total e) := by
  cases e with
  | tick => exact d.shows_tick
  | draw width height => exact (d.scrolls_draw width height).shows rfl rfl rfl
  | key k =>
    cases k with
    | char ch => exact d.shows_pressChar ch
    | left => exact d.shows_walk_backward "backward"
    | right => exact d.shows_walk_forward "forward"
    | up => exact d.scrolls_up.shows rfl rfl rfl
    | down => exact d.scrolls_down.shows rfl rfl rfl
    | tab | backTab | enter | backspace | other => exact shows_of_stays rfl rfl rfl rfl

/-- **Events move the debugger as they move the cursor.** -/
theorem shows_after (d : Debugger) (events : List Event) :
    Shows d.recorder (d.after events) (events.foldl (Cursor.handle d.recorder.total) d.cursor) := by
  induction events generalizing d with
  | nil => exact ⟨rfl, rfl, rfl⟩
  | cons e rest ih =>
    obtain ⟨hrecorder, hplaying, hquit⟩ := d.shows_handle e
    -- The recording is the same after the event, so the rest moves among as many snapshots.
    have htotal : (d.handle e).recorder.total = d.recorder.total := by
      rw [hrecorder]
      rfl
    have hcursor : (d.handle e).cursor = d.cursor.handle d.recorder.total e := by
      unfold cursor
      rw [hrecorder, hplaying, hquit]
      rfl
    have hrest := ih (d.handle e)
    rw [htotal, hcursor] at hrest
    refine ⟨hrest.recorder.trans ?_, hrest.playing, hrest.shouldQuit⟩
    rw [hrecorder]
    rfl

/-! ## 6. What the keys do -/

theorem press_digit (d : Debugger) {n : Nat} (hlow : 1 ≤ n) (hhigh : n ≤ 9) :
    d.press (.char (Nat.digitChar n)) = d.jumpBy n := by
  interval_cases n <;> rfl

theorem not_playing_of_walks (d : Debugger) {k : Key} (hk : k.walks = true) :
    (d.press k).playing = false := by
  have hspace : k ≠ .char ' ' := by
    rintro rfl
    cases hk
  have hplays : (d.cursor.handle d.recorder.total (.key k)).playing = false := by
    show (if k = .char ' ' then !d.playing else if k.walks then false else d.playing) = false
    rw [if_neg hspace, if_pos hk]
  exact (d.shows_handle (.key k)).playing.trans hplays

theorem not_playing_of_tick (d : Debugger) (hend : d.recorder.total ≤ d.recorder.position + 1) :
    d.tick.playing = false := by
  have hplays : (d.cursor.handle d.recorder.total .tick).playing = false := by
    show (d.playing && decide (d.recorder.position + 1 < d.recorder.total)) = false
    rw [decide_eq_false (Nat.not_lt.2 hend), Bool.and_false]
  exact (d.shows_handle .tick).playing.trans hplays

theorem shouldQuit_after (d : Debugger) (events : List Event) :
    (d.after events).shouldQuit = true ↔
      d.shouldQuit = true ∨ .key (.char 'q') ∈ events ∨ .key (.char 'Q') ∈ events := by
  have hany : events.any Event.quits = true ↔ .key (.char 'q') ∈ events ∨ .key (.char 'Q') ∈ events := by
    simp only [List.any_eq_true, Event.quits, decide_eq_true_eq]
    constructor
    · rintro ⟨e, he, rfl | rfl⟩
      · exact .inl he
      · exact .inr he
    · rintro (he | he)
      · exact ⟨_, he, .inl rfl⟩
      · exact ⟨_, he, .inr rfl⟩
  rw [(d.shows_after events).shouldQuit, Cursor.quit_foldl_handle, Bool.or_eq_true, hany]
  rfl

/-- **Keys, the clock and drawing move a cursor.** After any events a finished recording is what it was but
    for its position. That is the position of a cursor that has heard the same events, and one of a snapshot,
    or 0 if there is none; and the walk goes on by itself if the cursor does. A digit key moves by that
    many snapshots, or by as many as there are, and says so. The keys that walk, and the clock at the last
    snapshot, end the walk that goes on by itself. Two keys quit, and nothing undoes this. -/
theorem keys_move_cursor {m : Machine} {limit : Nat} {ops : List Recorder.Operation} {d : Debugger}
    (h : Recorder.Session (.ofMachine m limit) ops d.recorder) (events : List Event) :
    let total := d.recorder.total
    let d' := d.after events
    let c := events.foldl (Cursor.handle total) d.cursor
    (d'.recorder = { d.recorder with position := c.position } ∧ d'.playing = c.playing) ∧
      c.position ≤ total - 1 ∧
      (∀ ch n, stepDigit? ch = some n ↔ 1 ≤ n ∧ n ≤ 9 ∧ ch = Nat.digitChar n) ∧
      (∀ n, 1 ≤ n → n ≤ 9 → ∃ moved, moved = min n (total - 1 - c.position) ∧
        (d'.press (.char (Nat.digitChar n))).recorder.position = c.position + moved ∧
        (d'.press (.char (Nat.digitChar n))).message = s!"Stepped forward {moved} step(s)") ∧
      ((∀ k : Key, k.walks = true → (d'.press k).playing = false) ∧
        (total ≤ c.position + 1 → d'.tick.playing = false)) ∧
      (d'.shouldQuit = true ↔
        d.shouldQuit = true ∨ .key (.char 'q') ∈ events ∨ .key (.char 'Q') ∈ events) ∧
      (∀ more, d'.shouldQuit = true → (d'.after more).shouldQuit = true) := by
  intro total d' c
  have hshows : Shows d.recorder d' c := d.shows_after events
  have hposition : d'.recorder.position = c.position := by rw [hshows.recorder]
  have htotal : d'.recorder.total = total := by
    rw [hshows.recorder]
    rfl
  have hfirst : d.cursor.position ≤ total - 1 := by
    have hkept := (h.keeps (Recorder.inOrder_ofMachine m limit)).1.position
    show d.recorder.position ≤ d.recorder.total - 1
    omega
  refine ⟨⟨hshows.recorder, hshows.playing⟩, Cursor.foldl_handle_le hfirst events, stepDigit?_eq_some_iff,
    ?_, ⟨fun k hk => d'.not_playing_of_walks hk, ?_⟩, d.shouldQuit_after events, ?_⟩
  · intro n hlow hhigh
    have hremaining : d'.cursor.remaining d'.recorder.total = total - 1 - c.position := by
      rw [← hposition, ← htotal]
      rfl
    refine ⟨_, rfl, ?_⟩
    rw [d'.press_digit hlow hhigh, jumpBy_eq, hremaining, hposition]
    exact ⟨rfl, rfl⟩
  · intro hend
    apply d'.not_playing_of_tick
    rw [htotal, hposition]
    exact hend
  · intro more hquit
    exact (d'.shouldQuit_after more).2 (.inl hquit)

/-- Two outputs and the end are four snapshots. The space bar and the clock lead to the second one; from
    there nine steps are two, and a step back ends the walk that goes on by itself. -/
theorem keys_move_cursor_played_then_jumped :
    ∃ r, Recorder.Session (.ofMachine (.ofProgram [104, 7, 104, 8, 99]) 4096) [.run Channel.buffered] r ∧
      r.total = 4 ∧
      let d := (ofRecorder r).after [.key (.char ' '), .tick, .draw 80 24]
      d.recorder = { r with position := 1 } ∧ d.playing = true ∧
      (d.press (.char '9')).recorder.position = 3 ∧
      (d.press (.char '9')).message = "Stepped forward 2 step(s)" ∧
      (d.press .left).playing = false ∧ d.shouldQuit = false := by
  have heval : ((Recorder.ofMachine (.ofProgram [104, 7, 104, 8, 99]) 4096).run .buffered).any (fun o =>
      o.1.1.total = 4 ∧ o.1.1.position = 0) = true := by decide +kernel
  obtain ⟨⟨⟨r, c⟩, result⟩, hrun, hdecided⟩ := (Option.any_eq_true ..).1 heval
  obtain ⟨htotal, hposition⟩ : r.total = 4 ∧ r.position = 0 := of_decide_eq_true hdecided
  have hsession : Recorder.Session (.ofMachine (.ofProgram [104, 7, 104, 8, 99]) 4096)
      [.run Channel.buffered] r := .cons _ _ _ _ _ (.run _ _ _ _ hrun) (.none _)
  have hcursor : [Event.key (.char ' '), .tick, .draw 80 24].foldl (Cursor.handle r.total)
      (ofRecorder r).cursor = ⟨1, true, false⟩ := by
    have hfirst : (ofRecorder r).cursor = ⟨0, false, false⟩ := by
      show (⟨r.position, false, false⟩ : Cursor) = _
      rw [hposition]
    rw [htotal, hfirst]
    rfl
  obtain ⟨⟨hrecorder, hplaying⟩, -, -, hdigit, ⟨hwalks, -⟩, hquit, -⟩ :=
    keys_move_cursor (d := ofRecorder r) hsession [.key (.char ' '), .tick, .draw 80 24]
  rw [show (ofRecorder r).recorder = r from rfl, hcursor] at hrecorder hplaying hdigit
  obtain ⟨moved, hmoved, hposition', hmessage⟩ := hdigit 9 (by decide) (by decide)
  obtain rfl : moved = 2 := by
    rw [hmoved, htotal]
    rfl
  have hstays : ((ofRecorder r).after [.key (.char ' '), .tick, .draw 80 24]).shouldQuit = false := by
    refine eq_false_of_ne_true fun hasked => ?_
    rcases hquit.1 hasked with hbefore | hlower | hupper
    · cases hbefore
    · exact absurd hlower (by decide)
    · exact absurd hupper (by decide)
  exact ⟨r, hsession, htotal, hrecorder, hplaying, hposition', hmessage, hwalks .left rfl, hstays⟩

end Debugger

end WordMachine
