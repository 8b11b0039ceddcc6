import WordMachine.CommandLine.Files
import WordMachine.Journal.Filter
import WordMachine.Turn

/-!
# Sessions

What a command does to the outside: it reads files, prints lines, reports lines and notes, and may
break off.

* `Surroundings` -- the files, whether there is a terminal, and the filter for the notes;
* `Session` -- a computation that prints and reports, and may stop.
-/

namespace WordMachine.CommandLine

/-- What a command finds around it. -/
structure Surroundings where
  read : String → Except SystemFault String
  hasTerminal : Bool
  filter : Option Filter

/-- The lines printed and the lines reported so far. -/
structure Transcript where
  printed : Array String := #[]
  reported : Array String := #[]

/-- Why a command breaks off. -/
inductive Stop where
  /-- It failed, for a cause given as a record. -/
  | failed (record : String)
  /-- It broke down on a number that is too large. -/
  | crashed
  /-- It never ends. -/
  | endless
  deriving DecidableEq, Repr

/-- A computation that prints and reports, and may stop. -/
abbrev Session := ExceptT Stop (StateM Transcript)

namespace Session

/-- Prints a line. -/
def print (line : String) : Session Unit :=
  modify fun t => { t with printed := t.printed.push line }

/-- Reports a line. -/
def report (line : String) : Session Unit :=
  modify fun t => { t with reported := t.reported.push line }

/-- The lines of the notes that a filter shows. -/
def linesOf (filter : Option Filter) (notes : List Note) : List String :=
  match filter with
  | some filter => (notes.filter filter.shows).map Note.line
  | none => []

/-- Reports the notes that are shown. -/
def note (around : Surroundings) (notes : List Note) : Session Unit :=
  (linesOf around.filter notes).forM report

/-- The lines that a process leaves behind with each turn. -/
def linesAt {σ : Type} (around : Surroundings) (notes : σ → List Note) : σ → List String :=
  match around.filter with
  | some filter => fun s => linesOf (some filter) (notes s)
  | none => fun _ => []

/-- Runs a process for at most `fuel` turns and reports its notes on the way. -/
def follow? {σ ρ : Type} (around : Surroundings) (notes : σ → List Note) (turn : σ → Turn σ ρ)
    (fuel : Nat) (s : σ) : Session (Option ρ) := do
  let t ← get
  match Turn.run (Turn.noted (linesAt around notes) turn) fuel (s, t.reported) with
  | some (r, reported) =>
    set { t with reported := reported }
    return some r
  | none => return none

/-- Runs a process to its end and reports its notes on the way. -/
def follow {σ ρ : Type} (around : Surroundings) (notes : σ → List Note) (turn : σ → Turn σ ρ)
    (s : σ) : Session ρ := do
  match ← follow? around notes turn Turn.patience s with
  | some r => return r
  | none => throw .endless

end Session

end WordMachine.CommandLine
