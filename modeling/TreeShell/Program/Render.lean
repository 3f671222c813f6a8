import TreeShell.Command.Output

/-!
# Rendering

How a plain terminal shows an output. Most outputs are their own text; an image can only be named,
and clearing the screen is the terminal's own sequence for it.

## Main definitions

* `Output.render?`: The text of an output, if it shows anything.
* `promptLine`: What stands before the line being typed.
-/

namespace TreeShell

/-- A number, moved to the right of five columns. -/
def column5 (n : Nat) : String :=
  let ds := Nat.toDigits 10 n
  String.ofList (List.replicate (5 - ds.length) ' ' ++ ds)

/-- The text of an output, if it shows anything. -/
def Output.render? : Output → Option String
  | .none => Option.none
  | .text content => some content
  | .files names => some ("  ".intercalate names)
  | .image handle =>
    some ("[image " ++ handle.mime ++ " (" ++ handle.size.repr ++ " bytes)] " ++ handle.uri)
  | .history rows => some ("\n".intercalate (rows.map fun (i, line) => column5 i ++ "  " ++ line))
  | .url address => some address
  | .clear => some "\x1b[2J\x1b[H"
  | .never => Option.none

/-- What stands before the line being typed. -/
def promptLine (user cwd : String) : String := user ++ "@taso-cli:" ++ cwd ++ "$ "

end TreeShell
