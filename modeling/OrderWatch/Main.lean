import OrderWatch.Json.Writer
import OrderWatch.Replay
import OrderWatch.Settings.Load
import Std.Time.DateTime.Timestamp

/-
  The command line: commands are read from the standard input
  and events are written to the standard output, one a line.
  Messages go to the standard error.

  The settings are read from the file that is named by the
  variable `ORDER_TRACKER_CONFIG`, or else by the first
  argument.  The exit code is 1 if there are none to be had,
  and 101 if a total does not fit.
-/

namespace OrderWatch

namespace CommandLine

/- The file with the settings, if one is named. -/
def settingsPath (args : List String) : IO (Option String) := do
  match ← IO.getEnv "ORDER_TRACKER_CONFIG" with
  | some path => if path.isEmpty then return args.head? else return some path
  | none => return args.head?

/- The values of the variables that a text may name. -/
def environment (text : String) : IO Placeholder.Environment := do
  let names :=
    (Placeholder.split text.toList).filterMap fun
      | .placeholder p => some (String.ofList p.name)
      | .character _ => none
  let values ← names.mapM fun name => do
    return (name, ← IO.getEnv name)
  return fun name => (values.lookup name).join

/- The settings of a file, or the usual ones. -/
def loadSettings (path? : Option String) :
    IO (Except Settings.LoadFault Settings) := do
  match path? with
  | none => return .ok {}
  | some path =>
      try
        let text ← IO.FS.readFile path
        return Settings.load (← environment text) text
      catch
        | .noFileOrDirectory .. =>
            return .error (.unreadable path Settings.missingFile)
        | e => return .error (.unreadable path (toString e))

/- A random name: version 4 of the usual 128-bit names. -/
def randomId : IO OrderId := do
  let bytes ← IO.getRandomBytes 16
  let octet (i : Nat) : Nat :=
    let b := (bytes.data.getD i 0).toNat
    if i = 6 then b % 16 + 0x40
    else if i = 8 then b % 64 + 0x80
    else b
  let part (low high : Nat) : String :=
    String.ofList ((List.range' low (high - low)).flatMap
      fun i => Text.hexPadded 2 (octet i))
  return "-".intercalate
    [part 0 4, part 4 6, part 6 8, part 8 10, part 10 16]

/- The levels that are written when one is asked for. -/
def levelsFrom (level : String) : List Level :=
  match level.toLower with
  | "trace" | "debug" => [.debug, .info, .warn, .error]
  | "info" => [.info, .warn, .error]
  | "warn" => [.warn, .error]
  | _ => [.error]

/- A message as a line. -/
def messageLine (format : String) (m : Message) : String :=
  if format = "pretty" then
    " ".intercalate ((Worded.word m.level) :: m.text
      :: m.details.map fun (name, value) => name ++ "=" ++ value)
  else
    m.encode.text

/- Write what a line has brought about. -/
def writeOut (log : LogSettings) (r : Replay) : IO Unit := do
  let output ← IO.getStdout
  for j in r.printed do
    output.putStrLn j.text
  output.flush
  let levels := levelsFrom log.level
  for m in r.desk.tracker.journal.messages do
    if levels.contains m.level then
      IO.eprintln (messageLine log.format m)

/- Handle the lines of the input up to its end. -/
partial def handleLines
    (log : LogSettings)
    (r : Replay)
    (before : Nat) : IO UInt32 := do
  let input ← IO.getStdin
  let text ← input.getLine
  if text.isEmpty then
    return 0
  else
    let now ← IO.monoNanosNow
    let (r, broken?) :=
      r.handle ⟨now - before, ← randomId, text.toList⟩
    writeOut log r
    match broken? with
    | some why =>
        IO.eprintln why.message
        return 101
    | none => handleLines log r.cleared now

/- Replay the standard input; the answer is the exit code. -/
def run (args : List String) : IO UInt32 := do
  match ← loadSettings (← settingsPath args) with
  | .error fault =>
      IO.eprintln fault.message
      return 1
  | .ok settings =>
      let wall ← Std.Time.Timestamp.now
      let millis := wall.toMillisecondsSinceUnixEpoch.val
      let start ← IO.monoNanosNow
      let clock := Time.Clock.startingAt (Int64.ofInt millis)
      handleLines settings.log
        (.opening settings.tracker clock) start

end CommandLine

end OrderWatch

def main (args : List String) : IO UInt32 :=
  OrderWatch.CommandLine.run args
