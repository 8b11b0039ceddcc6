/-!
# Arguments

The words of a command line, sorted into positional arguments and options. An option begins with two
dashes; its value follows an equals sign or is the next word. After a word of two dashes alone
everything is positional. A single dash alone is positional too, and any other word that begins with a
dash is refused.
-/

namespace WordMachine.CommandLine

/-- What an option takes. -/
inductive OptionKind where
  /-- No value; may be given once. -/
  | flag
  /-- One value, which may not look like an option; may be given once. -/
  | single
  /-- One value, whatever it looks like; may be given again. -/
  | many
  deriving DecidableEq, Repr

/-- An option by its name, without the dashes. -/
structure OptionSpec where
  name : String
  kind : OptionKind
  deriving DecidableEq, Repr

/-- A part of a command line. -/
inductive Argument where
  | positional (text : String)
  | flag (name : String)
  | value (name text : String)
  deriving DecidableEq, Repr

namespace Argument

/-- Whether a word looks like an option. -/
def isDashed (word : String) : Bool :=
  match word.toList with
  | '-' :: _ :: _ => true
  | _ => false

/-- The name of a long option and the value attached to it. -/
def long? (word : String) : Option (String × Option String) :=
  match word.toList with
  | '-' :: '-' :: cs =>
    let name := String.ofList (cs.takeWhile (· ≠ '='))
    match cs.dropWhile (· ≠ '=') with
    | [] => some (name, none)
    | _ :: text => some (name, some (String.ofList text))
  | _ => none

/-- Sorts words that are all positional. -/
def rest (words : List String) : List Argument := words.map positional

/-- Sorts the words of a command line; `none` if they do not fit the options. -/
def sort? (specs : List OptionSpec) : List String → Option (List Argument)
  | [] => some []
  | "--" :: words => some (rest words)
  | word :: words =>
    match long? word with
    | some (name, attached) =>
      match (specs.find? (·.name = name)).map OptionSpec.kind, attached with
      | some .flag, none => (sort? specs words).map (flag name :: ·)
      | some .flag, some _ => none
      | some _, some text => (sort? specs words).map (value name text :: ·)
      | some kind, none =>
        match words with
        | [] => none
        | text :: words =>
          if kind = .single ∧ isDashed text then none
          else (sort? specs words).map (value name text :: ·)
      | none, _ => none
    | none => if isDashed word then none else (sort? specs words).map (positional word :: ·)

/-- The positional arguments. -/
def positionals (arguments : List Argument) : List String :=
  arguments.filterMap fun
    | positional text => some text
    | _ => none

/-- The values of an option, in order. -/
def values (arguments : List Argument) (name : String) : List String :=
  arguments.filterMap fun
    | value n text => if n = name then some text else none
    | _ => none

/-- Whether a flag is given; `none` if it is given twice. -/
def flag? (arguments : List Argument) (name : String) : Option Bool :=
  match arguments.count (flag name) with
  | 0 => some false
  | 1 => some true
  | _ => none

/-- The value of an option, if it is given; `none` if it is given twice. -/
def value? (arguments : List Argument) (name : String) : Option (Option String) :=
  match values arguments name with
  | [] => some none
  | [text] => some (some text)
  | _ => none

end Argument

end WordMachine.CommandLine
