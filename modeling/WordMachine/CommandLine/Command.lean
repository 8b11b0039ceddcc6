import WordMachine.CommandLine.Arguments
import WordMachine.Network
import WordMachine.Text.Numeral

/-!
# Commands

What a command line asks for. `Command.parse?` gives `none` for a command line that asks for nothing
known or is not well formed.
-/

namespace WordMachine.CommandLine

/-- The program to run, its input, and a text to read once the input is used up. -/
structure Source where
  file : String
  input : List Word
  script : Option String
  deriving DecidableEq, Repr

/-- A command. -/
inductive Command where
  /-- Runs a program and prints its output. -/
  | run (source : Source) (ascii : Bool) (maxSteps : Option Nat)
  /-- Records a run and opens the debugger on it. -/
  | trace (source : Source) (limitMegabytes : Option Nat)
  /-- Runs amplifiers in a row or in a ring. -/
  | amplify (file : String) (phases : List Word) (feedback threaded : Bool)
      (timeoutSeconds maxSteps : Option Nat)
  /-- Runs a network until it settles. -/
  | network (file : String) (nodes : Nat) (maxRounds : Option Nat) (isolateFailures : Bool)
  deriving DecidableEq, Repr

namespace Command

open Argument

/-- The path of a file, which may not be empty. -/
def path? (text : String) : Option String := if text.isEmpty then none else some text

/-- A number without sign. -/
def count? (text : String) : Option Nat := (Text.readCount text.toList).toOption

/-- Words divided by commas. -/
def words? (text : String) : Option (List Word) :=
  (text.toList.splitOn ',').mapM fun piece => (Text.readWord piece).toOption

/-- The value of an option, read in some way. -/
def read? {α : Type} (read : String → Option α) (arguments : List Argument) (name : String) :
    Option (Option α) := do
  match ← value? arguments name with
  | none => return none
  | some text => return some (← read text)

/-- The words given by an option, all of its values one after the other. -/
def allWords? (arguments : List Argument) (name : String) : Option (List Word) :=
  ((values arguments name).mapM words?).map List.flatten

/-- The only positional argument, a file. -/
def file? (arguments : List Argument) : Option String :=
  match positionals arguments with
  | [text] => path? text
  | _ => none

/-- The source of `run` and `trace`. -/
def source? (arguments : List Argument) : Option Source := do
  let file ← file? arguments
  let input ← allWords? arguments "input"
  let script ← read? path? arguments "script"
  return ⟨file, input, script⟩

/-- The options that say what to run. -/
def sourceSpecs : List OptionSpec := [⟨"input", .many⟩, ⟨"script", .single⟩]

/-- Reads the arguments of `run`. -/
def run? (words : List String) : Option Command := do
  let arguments ←
    sort? (sourceSpecs ++ [⟨"ascii", .flag⟩, ⟨"max-steps", .single⟩]) words
  let source ← source? arguments
  let ascii ← flag? arguments "ascii"
  let maxSteps ← read? count? arguments "max-steps"
  return .run source ascii maxSteps

/-- Reads the arguments of `trace`. -/
def trace? (words : List String) : Option Command := do
  let arguments ← sort? (sourceSpecs ++ [⟨"snapshot-limit-mb", .single⟩]) words
  let source ← source? arguments
  let limit ← read? count? arguments "snapshot-limit-mb"
  return .trace source limit

/-- Reads the arguments of `amplify`. Threads are for a ring only, and cannot be timed out. -/
def amplify? (words : List String) : Option Command := do
  let arguments ← sort?
    [⟨"phases", .many⟩, ⟨"feedback", .flag⟩, ⟨"threaded", .flag⟩, ⟨"timeout-secs", .single⟩,
     ⟨"max-steps", .single⟩] words
  let file ← file? arguments
  let phases ← allWords? arguments "phases"
  let feedback ← flag? arguments "feedback"
  let threaded ← flag? arguments "threaded"
  let timeout ← read? count? arguments "timeout-secs"
  let maxSteps ← read? count? arguments "max-steps"
  if threaded ∧ (¬ feedback ∨ timeout.isSome) then none
  else return .amplify file phases feedback threaded timeout maxSteps

/-- Reads the arguments of `network`. -/
def network? (words : List String) : Option Command := do
  let arguments ← sort?
    [⟨"nodes", .single⟩, ⟨"max-rounds", .single⟩, ⟨"isolate-failures", .flag⟩] words
  let file ← file? arguments
  let nodes ← read? count? arguments "nodes"
  let maxRounds ← read? count? arguments "max-rounds"
  let isolate ← flag? arguments "isolate-failures"
  return .network file (nodes.getD Network.defaultSize) maxRounds isolate

/-- The command of a command line. -/
def parse? : List String → Option Command
  | "run" :: words => run? words
  | "trace" :: words => trace? words
  | "amplify" :: words => amplify? words
  | "network" :: words => network? words
  | _ => none

end Command

end WordMachine.CommandLine
