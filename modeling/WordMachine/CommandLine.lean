import WordMachine.Amplifier.Pipeline
import WordMachine.Amplifier.Ring
import WordMachine.Amplifier.Settings
import WordMachine.Channel.Source
import WordMachine.CommandLine.Command
import WordMachine.CommandLine.Session
import WordMachine.Debugger
import WordMachine.Output
import WordMachine.Program

/-!
# The command line

Carrying out a command: what it prints, what it reports, and the exit code.

* `CommandLine.perform` -- carries out a command;
* `CommandLine.invoke` -- a whole command line. Code 2 stands for a command line that is not
  understood, 1 for a command that fails, whose cause is then reported;
* `Outcome` -- the exit code and everything printed and reported, and the debugger to open.
-/

namespace WordMachine.CommandLine

/-- The source of the notes of a command. -/
def noteSource : String := "intcode"

/-- The filter of a command that none is asked for: warnings of its own. -/
def defaultFilter : Filter := [{ source := noteSource, rank := Level.warn.rank }]

/-! ## 1. Programs and scripts -/

/-- Reads a program from a file. -/
def loadProgram (around : Surroundings) (path : String) : Session Program := do
  match around.read path with
  | .error fault => throw (.failed (Text.quote s!"cannot read '{path}': {fault.text}"))
  | .ok text =>
    match Program.parse text with
    | .error fault => throw (.failed fault.record)
    | .ok program =>
      Session.note around
        [⟨.info, noteSource, "program loaded",
          [("path", path), ("words", toString program.length)]⟩]
      return program

/-- The machine of a source. -/
def loadMachine (around : Surroundings) (source : Source) : Session Machine :=
  return (Machine.ofProgram (← loadProgram around source.file)).withInput source.input

/-- The channel of a source. Without a script nobody answers a request. -/
def openChannel (around : Surroundings) (source : Source) : Session (Channel Script) := do
  match source.script with
  | none => return ⟨none, .ofText "", #[], #[]⟩
  | some path =>
    match around.read path with
    | .error fault => throw (.failed fault.record)
    | .ok text => return .ofProvider Script.provider (Script.ofText text)

/-! ## 2. Running and tracing -/

/-- Runs a program and prints its output. -/
def performRun (around : Surroundings) (source : Source) (ascii : Bool) (maxSteps : Option Nat) :
    Session Unit := do
  let machine ← loadMachine around source
  let machine := { machine with stepLimit := maxSteps }
  let channel ← openChannel around source
  let ((machine, _), result) ←
    Session.follow around (fun (m, c) => Machine.runNotes m c) Machine.runTurn (machine, channel)
  match result with
  | .error fault => throw (.failed fault.record)
  | .ok () =>
    let values := machine.output.toList
    if ascii then (Output.render values).forM Session.print
    else values.forM fun value => Session.print (Word.decimal value)

/-- The bytes of so many megabytes; `none` if they pass what 64 bits can count. -/
def bytes? (megabytes : Nat) : Option Nat :=
  let bytes := megabytes * 1024 * 1024
  if bytes ≤ Word.countLimit then some bytes else none

/-- Records a run within a limit. -/
def record (around : Surroundings) (r : Recorder) (channel : Channel Script) :
    Session (Recorder × Except Fault Unit) := do
  let ending ←
    match r.record with
    | (r, .error e) => pure ((r, channel), .error e)
    | (r, .ok ()) => do
      match ← Session.follow? around Recorder.turnNotes Recorder.turn r.turnsWithin (r, channel) with
      | some ending => pure ending
      | none => throw .endless
  Session.note around (Recorder.closingNotes ending)
  let ((r, _), result) := Recorder.close ending
  return (r, result)

/-- The notes of the terminal being opened: its keys are watched first, then its size. -/
def terminalNotes : List Note :=
  ["Token(0)", "Token(1)"].map fun token =>
    ⟨.trace, "mio::poll",
      s!"registering event source with poller: token={token}, interests=READABLE", []⟩

/-- Opens the terminal. -/
def openTerminal (around : Surroundings) : Session Unit :=
  if around.hasTerminal then Session.note around terminalNotes
  else throw (.failed SystemFault.noDevice.record)

/-- Records a run and gives the debugger to open on it. -/
def performTrace (around : Surroundings) (source : Source) (limitMegabytes : Option Nat) :
    Session Debugger := do
  let limit ←
    match limitMegabytes.map bytes? with
    | none => pure History.defaultLimit
    | some (some limit) => pure limit
    | some none => throw .crashed
  let machine ← loadMachine around source
  let channel ← openChannel around source
  Session.report "Executing program..."
  let (r, result) ← record around (Recorder.ofMachine machine limit) channel
  match result with
  | .ok () => Session.report s!"Recorded {r.total} snapshots."
  | .error fault =>
    Session.report s!"Runtime error: {fault.message}"
    Session.report "Entering TUI with partial execution history..."
  openTerminal around
  return Debugger.ofRecorder r.toStart

/-! ## 3. Amplifiers -/

/-- How amplifiers are joined. -/
structure Wiring where
  feedback : Bool
  threaded : Bool
  config : Ring.Config

/-- The answer that amplifiers came to. -/
def settled (answer : Option (Except Failure Word)) : Session Word :=
  match answer with
  | some (.ok value) => return value
  | some (.error failure) => throw (.failed failure.record)
  | none => throw .endless

/-- The answer of amplifiers in a row. -/
def pipelineAnswer (around : Surroundings) (program phases : List Word) : Session Word := do
  match Pipeline.start? program phases with
  | none => throw (.failed Failure.empty.record)
  | some p => settled (some (← Session.follow around Pipeline.turnNotes Pipeline.turn p))

/-- The answer of amplifiers in a ring. -/
def ringAnswer (around : Surroundings) (program phases : List Word) (w : Wiring) :
    Session Word :=
  if phases.isEmpty then throw (.failed Failure.empty.record)
  else if w.threaded && w.config.timeout.isSome then
    throw (.failed Failure.timeoutUnsupported.record)
  else do
    let turn := if w.threaded then Ring.turnToEnd else Ring.turn
    let ring ← Session.follow? around (Ring.turnNotes w.threaded) turn (w.config.turns phases)
      (.first (Ring.seated program w.config.stepLimit phases))
    let answer ← settled (if w.threaded then Ring.answerToEnd? ring else Ring.answer? w.config ring)
    Session.note around (Ring.answerNotes w.threaded phases.length answer)
    return answer

/-- The answer of amplifiers with the given phases. -/
def amplifierAnswer (around : Surroundings) (program phases : List Word) (w : Wiring) :
    Session Word :=
  if w.feedback then ringAnswer around program phases w else pipelineAnswer around program phases

/-- The number of amplifiers whose settings are searched. -/
def amplifierCount : Nat := 5

/-- The settings that are searched: from 0 in a row, and the ones after them in a ring. -/
def searched (feedback : Bool) : List (List Word) :=
  (Settings.orderings? (if feedback then Int64.ofNat amplifierCount else 0) amplifierCount).getD []

/-- Prints the answer of the given phases, or without phases the best answer of all orders. -/
def amplify (around : Surroundings) (program phases : List Word) (w : Wiring) : Session Unit := do
  if phases.isEmpty then
    match ← Settings.best (fun order => amplifierAnswer around program order w) none
        (searched w.feedback) with
    | some (order, answer) =>
      let phases := Text.bracketed (order.map Word.decimal)
      Session.print s!"{Word.decimal answer} (phases {phases})"
    | none => Session.note around [⟨.warn, noteSource, "no phase orderings to try", []⟩]
  else
    let answer ← amplifierAnswer around program phases w
    Session.print (Word.decimal answer)

/-- Joins amplifiers that run the program of a file. -/
def performAmplify (around : Surroundings) (file : String) (phases : List Word) (w : Wiring) :
    Session Unit := do
  amplify around (← loadProgram around file) phases w

/-! ## 4. Networks -/

/-- Runs a network and prints what its monitor saw. -/
def performNetwork (around : Surroundings) (file : String) (config : Network.Config) :
    Session Unit := do
  let program ← loadProgram around file
  let net := Network.ofProgram program config
  if net.nodes.isEmpty then throw (.failed Failure.empty.record)
  let (_, result) ← Session.follow around Network.turnNotes Network.turn (net, ⟨0, false⟩)
  match result with
  | .error failure => throw (.failed failure.record)
  | .ok report =>
    match report.firstPacket with
    | some p =>
      Session.print s!"first monitor packet: x={Word.decimal p.x} y={Word.decimal p.y}"
    | none => pure ()
    Session.print s!"repeated monitor y: {Word.decimal report.convergedY}"
    Session.note around
      [⟨.info, noteSource, "network finished",
        [("rounds", toString report.rounds), ("deliveries", toString report.deliveries),
         ("dropped", toString report.dropped)]⟩]

/-! ## 5. Commands -/

/-- Carries out a command; gives the debugger to open afterwards. -/
def perform (around : Surroundings) : Command → Session (Option Debugger)
  | .run source ascii maxSteps => do
    performRun around source ascii maxSteps
    return none
  | .trace source limit => some <$> performTrace around source limit
  | .amplify file phases feedback threaded timeout maxSteps => do
    performAmplify around file phases
      ⟨feedback, threaded, { timeout := timeout.map Duration.ofSeconds, stepLimit := maxSteps }⟩
    return none
  | .network file nodes maxRounds isolate => do
    performNetwork around file
      { nodes := nodes, maxRounds := maxRounds, isolateFailures := isolate }
    return none

/-- How a command line came out. -/
structure Outcome where
  code : Nat
  printed : Array String
  reported : Array String
  debugger : Option Debugger

/-- Carries out a command line; `none` if it never ends. -/
def invoke (around : Surroundings) (words : List String) : Option Outcome :=
  match Command.parse? words with
  | none => some ⟨2, #[], #[], none⟩
  | some command =>
    match (ExceptT.run (perform around command)).run {} with
    | (.ok debugger, t) => some ⟨0, t.printed, t.reported, debugger⟩
    | (.error (.failed cause), t) => some ⟨1, t.printed, t.reported.push s!"Error: {cause}", none⟩
    | (.error .crashed, t) => some ⟨101, t.printed, t.reported, none⟩
    | (.error .endless, _) => none

end WordMachine.CommandLine
