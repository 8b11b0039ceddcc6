/-!
# Journal

What a run reports of itself while it goes on. A note names its source and its weight.

* `Level` and `Level.rank` -- the weights, in order;
* `Note` and `Note.line` -- a note, and the line that shows it.
-/

namespace WordMachine

/-- The weight of a note. -/
inductive Level where
  | trace
  | debug
  | info
  | warn
  | error
  deriving DecidableEq, Repr

namespace Level

/-- The rank of a level: a heavier note has a higher rank. -/
def rank : Level → Nat
  | trace => 1
  | debug => 2
  | info => 3
  | warn => 4
  | error => 5

/-- The name that a line begins with. -/
def name : Level → String
  | trace => "TRACE"
  | debug => "DEBUG"
  | info => "INFO"
  | warn => "WARN"
  | error => "ERROR"

end Level

/-- One report: its weight, where it comes from, what happened, and the values that go with it. -/
structure Note where
  level : Level
  source : String
  message : String
  fields : List (String × String)
  deriving DecidableEq, Repr

/-- A note as a line. -/
def Note.line (n : Note) : String :=
  n.fields.foldl (fun line field => s!"{line} {field.1}={field.2}")
    s!"{n.level.name} {n.source}: {n.message}"

end WordMachine
