import WordMachine.Debugger.Pane
import WordMachine.History
import WordMachine.Text.Column

/-!
# Memory pane

The words of the dense region, eight in a row, and below them the sparse words one by one. The current
instruction, the word last written and the word at the relative base stand out.
-/

namespace WordMachine.MemoryPane

/-- The number of words in a row. -/
def wordsPerRow : Nat := 8

/-- The style of the word at an address. -/
def cellStyle (s : Snapshot) (address : Nat) : Style :=
  if address = s.pc then ((Style.ofColour .black).on Theme.secondary).inBold
  else if s.lastWrite = some address then (Style.ofColour Theme.written).inBold
  else if Word.address? s.base = some address then .ofColour Theme.relativeBase
  else .ofColour Theme.plain

/-- The address at the beginning of a row. -/
def label (address : Nat) : Span :=
  ⟨Text.flushRight 6 (toString address) ++ ": ", .ofColour Theme.comment⟩

/-- A row of the pane: dense words from an address on, the heading of the sparse words, or one of
    them. -/
inductive Row where
  | dense (start : Nat)
  | heading
  | sparse (address : Nat) (word : Word)
  deriving DecidableEq, Repr

/-- The rows of a snapshot. -/
def rows (s : Snapshot) : List Row :=
  let dense := (List.range ((s.memory.dense.size + wordsPerRow - 1) / wordsPerRow)).map fun k =>
    Row.dense (k * wordsPerRow)
  if s.memory.sparse.isEmpty then dense
  else dense ++ .heading :: s.memory.sparse.toList.map fun (address, word) => .sparse address word

/-- A row as a line. -/
def line (s : Snapshot) : Row → Line
  | .dense start =>
    let words := (s.memory.dense.extract start (start + wordsPerRow)).toList
    { spans := label start :: words.zipIdx.map fun (w, k) =>
        ⟨Text.flushRight 8 (Word.decimal w) ++ " ", cellStyle s (start + k)⟩ }
  | .heading => { spans := [⟨"sparse", .ofColour Theme.primary⟩] }
  | .sparse address w =>
    { spans := [label address, ⟨Text.flushRight 8 (Word.decimal w), cellStyle s address⟩] }

/-- Draws the pane; returns the offset that it shows. -/
def draw (screen : Screen) (a : Area) (s : Snapshot) (focused : Bool) (scroll : Nat) :
    Screen × Nat :=
  let all := rows s
  let size := Pane.pageSize a.height
  let scroll := Pane.clampScroll scroll all.length size
  let pane : Pane :=
    { title := " Memory ", focused := focused, lines := (Pane.page all scroll size).map (line s) }
  (pane.draw screen a, scroll)

end WordMachine.MemoryPane
