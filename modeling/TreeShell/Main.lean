import Std.Time.DateTime.Timestamp
import Std.Time.Zoned.Database
import TreeShell.Config.File
import TreeShell.Program.Run

/-!
# The Command Line

Carries texts between the terminal, the files and the environment on one side and the program on
the other. The first argument is a hint to where the user wants to be. `TASO_CONFIG` names the
configuration, `TASO_STATE` the file that keeps the tree, and `TASO_ADMINS` the addresses that may
rebuild it, separated by commas.

The clock is read and the letters for login links are drawn anew before every line, and the time
that requests take is waited for before the answer is shown.
-/

namespace TreeShell.Terminal

/-- What a file holds. -/
def readHeld (path : String) : IO Held := do
  try
    return Held.ofBytes (← IO.FS.readBinFile path).toList
  catch
    | .noFileOrDirectory .. => return .nothing
    | other => throw other

/-- Keep in a file what a store has come to hold. -/
def keep (path : String) (before after : Store) : IO Unit := do
  match after.held with
  | .text snapshot => if before.held ≠ after.held then IO.FS.writeFile path snapshot
  | _ => return ()

/-- The time, with the offset of the local zone. -/
def readClock : IO Moment := do
  let now ← Std.Time.Timestamp.now
  let zone ← Std.Time.Database.defaultGetLocalZoneRules
  return {
    seconds := now.toSecondsSinceUnixEpoch.val
    offset := (zone.timezoneAt now).offset.second.val }

/-- Letters for the next login link. -/
def drawTokens : IO Tokens := do
  let bytes ← IO.getRandomBytes 256
  return {
    letters := fun i =>
      let first := (2 * i) % 256
      let number := (bytes.toList.getD first 0).toNat * 256 + (bytes.toList.getD (first + 1) 0).toNat
      ⟨number % 62, Nat.mod_lt _ (Nat.zero_lt_succ 61)⟩ }

/-- The configuration: that of the file named by the environment, else that of a file in the working
    directory, else the one to start from. -/
def readConfig : IO (Except Fault Config) := do
  match ← IO.getEnv "TASO_CONFIG" with
  | some path => return Config.ofFile (← readHeld path)
  | none =>
    match ← readHeld "taso.toml" with
    | .nothing => return .ok {}
    | found => return Config.ofFile found

/-- The bytes of the next line and whether a line feed ended it; nothing at the end of the input. -/
partial def readLine (input : IO.FS.Stream) (line : ByteArray) : IO (Option (ByteArray × Bool)) := do
  let byte ← input.read 1
  if byte.isEmpty then return if line.isEmpty then none else some (line, false)
  else if byte[0]? = some 0x0a then return some (line, true)
  else readLine input (line ++ byte)

/-- Wait for the requests made since `before`, at most an hour at a time. -/
def await (before after : Traffic) : IO Unit := do
  let hour := 3600000
  let time := after.waited - before.waited
  for _ in [0 : time / hour] do
    IO.sleep (UInt32.ofNat hour)
  IO.sleep (UInt32.ofNat (time % hour))

/-- Answer lines until the input ends or the user leaves. -/
partial def interact (state : String) (input output : IO.FS.Stream) (c : Console) : IO UInt32 := do
  output.putStr (Program.prompt c)
  output.flush
  let leave : IO UInt32 := do
    output.putStr "\n"
    return 0
  match ← readLine input .empty with
  | none => leave
  | some (bytes, ended) =>
    match Program.decodeLine bytes.toList ended with
    | none => return 1
    | some line =>
      if Program.leaves line then leave
      else
        let session := { c.session with clock := ← readClock, tokens := ← drawTokens }
        match Program.respond { c with session } line with
        | none => return 1
        | some (answer, after) =>
          await c.session.traffic after.session.traffic
          keep state c.session.store after.session.store
          output.putStr answer
          interact state input output after

/-- Run the shell on the terminal. -/
def run (args : List String) : IO UInt32 := do
  match ← readConfig with
  | .error fault =>
    IO.eprintln fault.message
    return 1
  | .ok config =>
    let state := (← IO.getEnv "TASO_STATE").getD "taso-tree.json"
    let store : Store := { held := ← readHeld state }
    let admins := ((← IO.getEnv "TASO_ADMINS").map Program.adminsOf).getD []
    let launch : Launch :=
      { config, store, admins, hint := args.headD "", clock := ← readClock, tokens := ← drawTokens }
    match Program.start launch with
    | none => return 1
    | some (.error fault, _) =>
      IO.eprintln fault.message
      return 1
    | some (.ok (console, greeting), after) =>
      await {} console.session.traffic
      keep state store after
      let output ← IO.getStdout
      output.putStr greeting
      interact state (← IO.getStdin) output console

end TreeShell.Terminal

/-- The program. -/
def main (args : List String) : IO UInt32 := TreeShell.Terminal.run args
