import Ensemble.Program.Run

/-!
# The command line

The program gathers what a process finds around it, starts the process, and hands it the lines of
the standard input. The time between two lines goes by before the second of them. Once the input
has ended only a signal ends the process.

No connections are opened, so nobody is reached and a node plays alone.
-/

namespace Ensemble

/-- The variables of the environment that have a meaning. -/
def meaningfulVariables : List String := ["GK_CONFIG", "GK_LOG_LEVEL", "GK_LOG_FORMAT"]

/-- Read the environment. -/
def readEnvironment : IO (String → Option String) := do
  let values ← meaningfulVariables.mapM fun name => do pure (name, ← IO.getEnv name)
  pure fun name => (values.lookup name).join

/-- Read what a path leads to. -/
def readPath (path : String) : IO FileContent := do
  try
    pure (.bytes (← IO.FS.readBinFile path).toList)
  catch
    | .noFileOrDirectory .. => pure .missing
    | e => pure (.unreadable (.other (toString e)))

/-- Whether something can be added to the file at a path. -/
def canAppend (path : String) : IO Bool := do
  try
    discard (IO.FS.Handle.mk path .append)
    pure true
  catch _ => pure false

/-- What a process finds around it before any file is looked at. -/
def bareSurroundings (environment : String → Option String) : Surroundings where
  environment
  file := fun _ => .missing
  writable := fun _ => true
  bind := fun l => .ok l.endpoint.port
  remote := fun _ => .refuses

/-- What a process with this command line finds around it. -/
def gather (words : List String) : IO Surroundings := do
  let w := bareSurroundings (← readEnvironment)
  match Arguments.parse words with
  | .ok (.run named mode) =>
    match Program.settingsFile w named with
    | .ok path =>
      let content ← readPath path
      let w := { w with file := fun _ => content }
      match Launch.prepare w path mode with
      | .ok launch =>
        match launch.settings.log.file with
        | some log =>
          let writable ← canAppend log
          pure { w with writable := fun _ => writable }
        | none => pure w
      | .error _ => pure w
    | .error _ => pure w
  | _ => pure w

/-- Add events to the log. -/
def writeLog (launch : Launch) (events : List Event) : IO Unit := do
  let write (e : Event) := if launch.json then e.renderJson else e.render
  let lines := (launch.filter.keep events).map write
  match launch.settings.log.file with
  | none => lines.forM IO.println
  | some path =>
    let handle ← IO.FS.Handle.mk path .append
    lines.forM handle.putStrLn

/-- Write what a process has printed and noted since an earlier moment. -/
def writeSince (launch : Launch) (lines events : Nat) (p : Process) : IO Unit := do
  writeLog launch (p.log.drop events)
  (p.printed.drop lines).forM IO.println

/-- Wait for a signal. -/
partial def waitForever : IO Nat := do
  IO.sleep 60000
  waitForever

/-- Hand a process the lines of an input; `last` is when the line before was handed over. The
result is the exit code. -/
partial def feed (w : Surroundings) (launch : Launch) (input : IO.FS.Stream) (p : Process)
    (last : Nat) : IO Nat := do
  let line ← input.getLine
  let now ← IO.monoMsNow
  let happening := (Happening.ofInput line.toList).headD .inputEnds
  let (next, continues) := (p.advance (now - last)).take w happening
  writeSince launch p.printed.length p.log.length next
  -- The input has ended, but not the process.
  if line.isEmpty then waitForever
  else if continues then feed w launch input next now
  else pure (Outcome.ended launch next).code

end Ensemble

open Ensemble in
/-- Run the program and yield its exit code. -/
def main (words : List String) : IO UInt32 := do
  let w ← gather words
  match Program.start w words with
  | .error outcome =>
    if let some launch := outcome.launch then writeLog launch outcome.log
    IO.print outcome.output
    if let some complaint := outcome.complaint then IO.eprintln complaint
    return UInt32.ofNat outcome.code
  | .ok (launch, p) =>
    writeLog launch [begun]
    writeSince launch 0 0 p
    return UInt32.ofNat (← feed w launch (← IO.getStdin) p (← IO.monoMsNow))
