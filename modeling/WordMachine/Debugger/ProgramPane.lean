import WordMachine.Debugger.Pane
import WordMachine.Listing
import WordMachine.Text.Column

/-!
# Program pane

The listing of memory around the current instruction. The current instruction is highlighted and stays
in the same row while the program goes on, as far as the ends of the listing allow; the row can be
moved.
-/

namespace WordMachine

/-- The offset of the page, and the row in which the current instruction is to stand. -/
structure ProgramScroll where
  offset : Nat := 0
  targetRow : Option Nat := none
  deriving DecidableEq, Repr

namespace ProgramPane

/-- The name and details of an entry as spans. -/
def body (e : Entry) : List Span :=
  let nameStyle : Style :=
    match e.reading with
    | .data _ => .ofColour Theme.comment
    | .code .. => (Style.ofColour Theme.mnemonic).inBold
  [⟨Text.flushLeft 6 e.reading.mnemonic, nameStyle⟩,
   ⟨e.reading.details, .ofColour Theme.plain⟩]

/-- The style of a span in the current line. -/
def highlight (isError : Bool) (style : Style) : Style :=
  if isError then ((Style.ofColour .white).on Theme.error).inBold else style.on Theme.currentLine

/-- An entry as a line. -/
def line (pc : Nat) (isError : Bool) (e : Entry) : Line :=
  let address := Text.flushRight 6 (toString e.address) ++ " "
  if e.address = pc then
    { spans := ⟨address, (Style.ofColour Theme.secondary).inBold⟩ ::
        (body e).map fun span => { span with style := highlight isError span.style } }
  else { spans := ⟨address, .ofColour Theme.comment⟩ :: body e }

/-- The row in which the current instruction is to stand: the one asked for, or the middle. -/
def targetRow (scroll : ProgramScroll) (page : Nat) : Nat :=
  min (scroll.targetRow.getD (page / 2)) (page - 1)

/-- Where the page begins for a listing. -/
def settle (entries : List Entry) (pc height : Nat) (scroll : ProgramScroll) : ProgramScroll :=
  let page := Pane.pageSize height
  let row := targetRow scroll page
  let offset :=
    match entries.findIdx? fun e => e.address = pc with
    | some index => index - row
    | none => scroll.offset
  ⟨Pane.clampScroll offset entries.length page, some row⟩

/-- The page of lines that a pane of a height shows, and the scroll state that it leaves. -/
def shown (m : Memory) (pc : Nat) (isError : Bool) (height : Nat) (scroll : ProgramScroll) :
    List Line × ProgramScroll :=
  let entries := m.listing pc
  let scroll := settle entries pc height scroll
  ((Pane.page entries scroll.offset (Pane.pageSize height)).map (line pc isError), scroll)

/-- Draws the pane. -/
def draw (s : Screen) (a : Area) (m : Memory) (pc : Nat) (isError focused : Bool)
    (scroll : ProgramScroll) : Screen × ProgramScroll :=
  let (lines, scroll) := shown m pc isError a.height scroll
  (({ title := " Program ", focused := focused, lines := lines } : Pane).draw s a, scroll)

end ProgramPane

end WordMachine
