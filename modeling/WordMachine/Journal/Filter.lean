import WordMachine.Journal
import WordMachine.Text.Blank
import WordMachine.Text.Numeral

/-!
# Filters

A filter decides which notes are shown. It is written as rules, divided by commas:

* `level` -- notes of at least this weight, whatever their source;
* `source` -- all notes whose source begins so;
* `source=level` -- of these, the notes of at least this weight, and all of them where no level
  stands;
* `source[{field}]=level` -- of these, the notes that have the field.

Of the rules that cover a note only the most specific one counts.

* `Filter.ofText` -- the filter that a text stands for;
* `Filter.shows` -- whether a note passes.
-/

namespace WordMachine

/-! ## 1. Rules -/

/-- A rule of a filter: notes of at least `rank` are shown, from sources that begin with `source`
    and with all of `fields`. A `confined` rule asks for surroundings that no note has. -/
structure FilterRule where
  source : String := ""
  fields : List String := []
  confined : Bool := false
  rank : Nat
  deriving DecidableEq, Repr

namespace FilterRule

/-- Whether a note has a field. What happened counts as one. -/
def hasField (note : Note) (name : String) : Bool :=
  name = "message" ∨ note.fields.any fun field => field.1 = name

/-- Whether a rule speaks of a note. -/
def covers (rule : FilterRule) (note : Note) : Bool :=
  !rule.confined && note.source.startsWith rule.source && rule.fields.all (hasField note)

/-- Whether another rule is more specific: by a longer source, then by more fields. Between rules
    with other fields, equally many, the order of the names decides. -/
def yieldsTo (rule other : FilterRule) : Bool :=
  if rule.source.length ≠ other.source.length then rule.source.length < other.source.length
  else if rule.fields.length ≠ other.fields.length then rule.fields.length < other.fields.length
  else rule.fields < other.fields

end FilterRule

/-- The rules of a filter, in the order in which they are written. -/
abbrev Filter := List FilterRule

namespace Filter

/-! ## 2. Reading -/

/-- A rank above every level, at which nothing is shown. -/
def off : Nat := 6

/-- The rank of a level's name, in any letter case, or of a number: so many of the levels are
    shown, the heaviest ones. -/
def rank? (name : List Char) : Option Nat :=
  match Text.readCount name with
  | .ok shown => if shown < off then some (off - shown) else none
  | .error _ =>
    match (String.ofList name).toLower with
    | "trace" => some Level.trace.rank
    | "debug" => some Level.debug.rank
    | "info" => some Level.info.rank
    | "warn" => some Level.warn.rank
    | "error" => some Level.error.rank
    | "off" => some off
    | _ => none

/-- The rank that is written from a place on. Where nothing is written everything is shown. -/
def rankFrom? (text : List Char) (place : Nat) : Option Nat :=
  match text.drop place with
  | [] => some Level.trace.rank
  | name => rank? name

/-- Whether a rule can begin with a character. Beyond ASCII every character is taken for a
    letter. -/
def canBegin (c : Char) : Bool :=
  c.isAlphanum || c = '-' || c = ':' || c = '_' || c = '[' || 128 ≤ c.toNat

/-- The characters from one place up to another. -/
def between (text : List Char) (start stop : Nat) : List Char :=
  (text.drop start).take (stop - start)

/-- The first place from `start` on where one of `marks` stands. -/
def next (shape : List Char) (marks : List Char) (start : Nat) : Nat :=
  start + (shape.drop start).findIdx (marks.contains ·)

/-- What stands in brackets from a place on, as the rule without source and rank, and the place
    behind the bracket. The name of a surrounding, or a field with a value, confines the rule. -/
def bracket? (text shape : List Char) (start : Nat) : Option (FilterRule × Nat) :=
  let stop := next shape [']', '\x7b'] start
  match shape[stop]? with
  | none => none
  | some ']' => some ({ confined := true, rank := off }, stop + 1)
  | some _ =>
    let close := next shape ['\x7d'] (stop + 1)
    let field := between text (stop + 1) close
    if shape[close]? = none ∨ field = [] ∨ shape[close + 1]? ≠ some ']' then none
    else
      let confined := stop ≠ start ∨ '=' ∈ field
      some ({ fields := [String.ofList (field.takeWhile (· ≠ '='))], confined := confined,
              rank := off }, close + 2)

/-- One rule. Its marks are looked for in `shape`, the text without the blanks around it, but the
    names are cut out of the text itself at the places so found: blanks are part of a name that
    stands alone, and a name behind blanks is cut short. -/
def rule? (text : List Char) : Option FilterRule :=
  let shape := Text.trim text
  if !(shape.head?.any canBegin) then none
  else
    let stop := next shape ['=', '['] 0
    let source := String.ofList (text.take stop)
    match shape[stop]? with
    | none =>
      match rank? text with
      | some rank => some { rank := rank }
      | none => some { source := String.ofList text, rank := Level.trace.rank }
    | some '=' => (rankFrom? text (stop + 1)).map fun rank => { source := source, rank := rank }
    | some _ =>
      match bracket? text shape (stop + 1) with
      | none => none
      | some (rule, place) =>
        match shape[place]? with
        | none => some { rule with source := source, rank := Level.trace.rank }
        | some '=' =>
          (rankFrom? text (place + 1)).map fun rank => { rule with source := source, rank := rank }
        | some _ => none

/-- The filter of a text: rules divided by commas. Where nothing stands there is no rule. -/
def parse? (text : String) : Option Filter :=
  ((text.toList.splitOn ',').filter (· ≠ [])).mapM rule?

/-- The filter that is asked for; `fallback` if it cannot be understood. -/
def ofText (fallback : Filter) (text : String) : Filter := (parse? text).getD fallback

/-! ## 3. Showing -/

/-- The rule that counts for a note: the most specific one, of equals the later one. -/
def ruleFor? (filter : Filter) (note : Note) : Option FilterRule :=
  (filter.filter (·.covers note)).foldl (fun best rule =>
    match best with
    | some b => if rule.yieldsTo b then best else some rule
    | none => some rule) none

/-- Whether a note is shown. -/
def shows (filter : Filter) (note : Note) : Bool :=
  match filter.ruleFor? note with
  | some rule => rule.rank ≤ note.level.rank
  | none => false

end Filter

end WordMachine
