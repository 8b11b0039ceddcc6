import WordMachine.Screen.Style

/-!
# Screens

A screen is a grid of cells, each with a character and its colours. What is drawn later covers what
was drawn before; what falls outside the grid is lost.

* `Screen.put`, `Screen.paint`, `Screen.write` -- a character, a style over an area, a line of text;
* `Screen.frame` -- the border of an area with its title;
* `Screen.rowText` and `Screen.rowRuns` -- what a row shows.
-/

namespace WordMachine

/-! ## 1. Cells and areas -/

/-- One character cell. -/
structure Cell where
  char : Char := ' '
  fg : Colour := .reset
  bg : Colour := .reset
  bold : Bool := false
  deriving DecidableEq, Repr

namespace Cell

/-- Lays a style over the cell. -/
def restyle (c : Cell) (s : Style) : Cell :=
  { c with fg := s.fg.getD c.fg, bg := s.bg.getD c.bg, bold := c.bold || s.bold }

/-- Whether two cells have the same style. -/
def sameStyle (a b : Cell) : Bool := a.fg = b.fg ∧ a.bg = b.bg ∧ a.bold = b.bold

/-- Whether a cell has no style of its own. -/
def isPlain (c : Cell) : Bool := c.sameStyle {}

end Cell

/-- A rectangle of the grid: its left column, its top row, and its extent. -/
structure Area where
  left : Nat
  top : Nat
  width : Nat
  height : Nat
  deriving DecidableEq, Repr

namespace Area

/-- The most cells that a grid can have. -/
def mostCells : Nat := 65535

/-- The area of a grid of a wanted size. A size of more than `mostCells` is reduced, in the same
    proportion of width to height, to one that fits. -/
def grid (width height : Nat) : Area :=
  if width * height ≤ mostCells then ⟨0, 0, width, height⟩
  else
    let ratio := Float.ofNat width / Float.ofNat height
    let rows := (Float.ofNat mostCells / ratio).sqrt
    ⟨0, 0, (rows * ratio).toUInt16.toNat, rows.toUInt16.toNat⟩

/-- What is left of an area inside a border, indented from the left by some columns more. -/
def inside (a : Area) (indent : Nat) : Area where
  left := a.left + 1 + indent
  top := a.top + 1
  width := a.width - 2 - indent
  height := a.height - 2

/-- So many parts in a hundred of a length, rounded to the nearest number, a half upwards. -/
def percent (p length : Nat) : Nat := (length * p + 50) / 100

/-- The upper rows of an area, and the rest. -/
def splitRows (a : Area) (upper : Nat) : Area × Area :=
  let upper := min upper a.height
  ({ a with height := upper },
    { a with top := a.top + upper, height := a.height - upper })

/-- The left columns of an area, and the rest. -/
def splitColumns (a : Area) (columns : Nat) : Area × Area :=
  let columns := min columns a.width
  ({ a with width := columns },
    { a with left := a.left + columns, width := a.width - columns })

end Area

/-! ## 2. Drawing -/

/-- The rows of a grid. -/
structure Screen where
  rows : Array (Array Cell)
  deriving DecidableEq

namespace Screen

/-- The screen with nothing on it. -/
def blank (width height : Nat) : Screen := ⟨Array.replicate height (Array.replicate width {})⟩

/-- Changes a cell. -/
def modify (s : Screen) (x y : Nat) (f : Cell → Cell) : Screen :=
  ⟨s.rows.modify y fun row => row.modify x f⟩

/-- Draws a character. -/
def put (s : Screen) (x y : Nat) (c : Char) (style : Style) : Screen :=
  s.modify x y fun cell => { cell with char := c }.restyle style

/-- Lays a style over an area. -/
def paint (s : Screen) (a : Area) (style : Style) : Screen :=
  (List.range' a.top a.height).foldl (fun s y =>
    (List.range' a.left a.width).foldl (fun s x => s.modify x y (·.restyle style)) s) s

/-- Draws characters in a row from left to right. -/
def putAll (s : Screen) (x y : Nat) : List (Char × Style) → Screen
  | [] => s
  | (c, style) :: rest => (s.put x y c style).putAll (x + 1) y rest

/-- The characters of a line with their styles. -/
def chars (l : Line) : List (Char × Style) :=
  l.spans.flatMap fun span => span.text.toList.map fun c => (c, span.style)

/-- Draws a line into the topmost row of an area, cut where it does not fit. Shifted to the right
    edge, it ends there if it fits. -/
def writeLine (s : Screen) (a : Area) (flushRight : Bool) (l : Line) : Screen :=
  let x := if flushRight then a.left + (a.width - l.width) else a.left
  (s.paint { a with height := 1 } l.row).putAll x a.top ((chars l).take a.width)

/-- Draws lines into an area from its top, as many as fit. -/
def write (s : Screen) (a : Area) (flushRight : Bool) (lines : List Line) : Screen :=
  (lines.take a.height).zipIdx.foldl (fun s (l, k) =>
    s.writeLine { a with top := a.top + k } flushRight l) s

/-- Draws the border of an area, then its title in the upper border. -/
def frame (s : Screen) (a : Area) (title : String) (style : Style) : Screen :=
  if a.width = 0 ∨ a.height = 0 then s
  else
    let right := a.left + a.width - 1
    let bottom := a.top + a.height - 1
    let column (s : Screen) (x : Nat) : Screen :=
      (List.range' a.top a.height).foldl (fun s y => s.put x y '│' style) s
    let row (s : Screen) (y : Nat) : Screen :=
      (List.range' a.left a.width).foldl (fun s x => s.put x y '─' style) s
    let s := row (column (row (column s a.left) a.top) right) bottom
    let s := s.put right bottom '┘' style
    let s := s.put right a.top '┐' style
    let s := s.put a.left bottom '└' style
    let s := s.put a.left a.top '┌' style
    s.putAll (a.left + 1) a.top ((title.toList.take (a.width - 2)).map fun c => (c, style))

/-! ## 3. Reading a screen -/

/-- The text of a row without the spaces at its end. -/
def rowText (row : Array Cell) : String :=
  String.ofList ((row.toList.map Cell.char).reverse.dropWhile (· = ' ')).reverse

/-- A stretch of cells of one style: the first column, the number of cells, and one of them. -/
structure Run where
  column : Nat
  length : Nat
  cell : Cell
  deriving DecidableEq, Repr

/-- Divides cells into the longest stretches of one style; `column` is the column of the first. -/
def stretches (column : Nat) : List Cell → List Run
  | [] => []
  | cell :: rest =>
    match stretches (column + 1) rest with
    | run :: runs =>
      if cell.sameStyle run.cell then ⟨column, run.length + 1, cell⟩ :: runs
      else ⟨column, 1, cell⟩ :: run :: runs
    | [] => [⟨column, 1, cell⟩]

/-- The stretches of a row that have a style. -/
def rowRuns (row : Array Cell) : List Run :=
  (stretches 0 row.toList).filter fun run => !run.cell.isPlain

end Screen

end WordMachine
