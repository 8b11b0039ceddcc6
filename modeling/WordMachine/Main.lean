import WordMachine.CommandLine

/-!
# Program entry

Reads the files that a command names, prints what it prints, and lets the debugger be walked by keys
typed on the standard input.
-/

namespace WordMachine.Entry

open CommandLine

/-- What the system says when a file cannot be read. -/
def systemFault : IO.Error → SystemFault
  | .noFileOrDirectory .. => .notFound
  | .permissionDenied .. => .permissionDenied
  | .inappropriateType _ 20 _ => .notADirectory
  | .inappropriateType .. => .isADirectory
  | .invalidArgument (some _) .. => .nameTooLong
  | e => .other 5 (toString e)

/-- Reads a file. -/
def readText (path : String) : IO (Except SystemFault String) := do
  try
    return .ok (← IO.FS.readFile path)
  catch e =>
    return .error (systemFault e)

/-- The files that a command reads. -/
def filesOf : Command → List String
  | .run source .. => source.file :: source.script.toList
  | .trace source .. => source.file :: source.script.toList
  | .amplify file .. => [file]
  | .network file .. => [file]

/-- The file system as far as a command looks at it. -/
def look (files : List String) : IO (String → Except SystemFault String) := do
  let texts ← files.mapM fun path => do return (path, ← readText path)
  return fun path => (texts.lookup path).getD (.error .notFound)

/-- The size of the screen. -/
def screenSize : Nat × Nat := (120, 40)

/-- The key that a typed character stands for. -/
def keyOf : Char → Key
  | '\n' => .enter
  | '\t' => .tab
  | '\x7f' => .backspace
  | c => .char c

/-- Shows the debugger and handles what is typed, until it is left or nothing more comes. -/
partial def browse (input : IO.FS.Stream) (d : Debugger) : IO Unit := do
  let (screen, d) := d.draw screenSize.1 screenSize.2
  for row in screen.rows do
    IO.println (Screen.rowText row)
  if d.shouldQuit then return
  let line ← input.getLine
  if line.isEmpty then return
  browse input ((line.toList.filter (· ≠ '\n')).foldl (fun d c => d.press (keyOf c)) d)

/-- The filter for notes: the one asked for, or the default. -/
def filterOf (asked : Option String) : Filter :=
  match asked with
  | some text => Filter.ofText defaultFilter text
  | none => defaultFilter

end WordMachine.Entry

open WordMachine WordMachine.CommandLine in
/-- Carries out the command line. -/
def main (words : List String) : IO UInt32 := do
  let files := ((Command.parse? words).map Entry.filesOf).getD []
  let around : Surroundings :=
    ⟨← Entry.look files, true, some (Entry.filterOf (← IO.getEnv "RUST_LOG"))⟩
  match invoke around words with
  | none => return 1
  | some outcome =>
    for line in outcome.reported do
      IO.eprintln line
    for line in outcome.printed do
      IO.println line
    if outcome.code = 2 then IO.eprintln "usage: intcode run|trace|amplify|network FILE [OPTION]..."
    match outcome.debugger with
    | some d => Entry.browse (← IO.getStdin) d
    | none => pure ()
    return outcome.code.toUInt32
