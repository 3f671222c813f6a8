import TreeShell.Program.Demo
import TreeShell.Program.Render
import TreeShell.Shell.Console

/-!
# The Program

The shell on a plain terminal: greet, and then answer line by line until the input ends or the user
leaves. What is written depends only on what the program is started with and on the lines it reads,
so it is computed here, and the program itself only carries texts to and from the terminal.

A program that cannot start writes nothing. A line that is no text ends it where it stands. A run in
which something never comes back has no outcome, which is `none`.

## Main definitions

* `Launch`: What the program is started with.
* `Program.start`: Seed the store and boot.
* `Program.respond`: Answer a line.
* `Program.run`: The whole run over given input.
* `Program.inputLines`: The lines of an input.
-/

namespace TreeShell

/-- What the program is started with. -/
structure Launch where
  config : Config
  store : Store
  admins : List String
  /-- Where the user wants to be; empty for home. -/
  hint : String
  clock : Moment
  tokens : Tokens

namespace Program

/-- The addresses in a list separated by commas, without the blanks around them. -/
def adminsOf (list : String) : List String := (Text.split ',' list).map Text.trim

/-- A line of output, or nothing for an output that shows nothing. -/
def shown (output : Output) : String :=
  match output.render? with
  | some text => text ++ "\n"
  | none => ""

/-- The prompt of a console. -/
def prompt (c : Console) : String := promptLine c.session.config.user c.session.prompt

/-- Seed the store and boot a session over the demonstration content: the fault that kept it from
    starting or the console with what to write first, and the store. -/
def start (launch : Launch) : Option (Except Fault (Console × String) × Store) :=
  let content := (Demo.content launch.config).provider
  (seed launch.config content {} launch.store).map fun
  | (.error fault, _, store) => (.error fault, store)
  | (.ok (), traffic, store) =>
    let setup : Session.Setup :=
      { config := launch.config, content, store, clock := launch.clock, tokens := launch.tokens,
        accounts := { admins := launch.admins } }
    let session := { Session.start setup with traffic }.boot launch.hint
    let greeting := String.join (session.visible.map fun (_, output) => shown output)
    (.ok (⟨session, {}⟩, greeting), session.store)

/-- Whether a line asks to leave. -/
def leaves (line : String) : Bool := Text.trim line == "exit"

/-- Answer a line: what to write, and the console afterwards; nothing if the line never comes
    back. -/
def respond (c : Console) (line : String) : Option (String × Console) :=
  match c.handle (.line line) with
  | (some .never, _) => none
  | (output, c) => some ((output.map shown).getD "", c)

/-- How a run ended. -/
structure Outcome where
  /-- Whether it ended as it should. -/
  ok : Bool
  written : String
  store : Store

/-- Answer lines until the input ends, the user leaves, or a line is no text. -/
def converse (c : Console) (written : String) : List (Option String) → Option Outcome
  | [] => some ⟨true, written ++ prompt c ++ "\n", c.session.store⟩
  | none :: _ => some ⟨false, written ++ prompt c, c.session.store⟩
  | some line :: rest => do
    if leaves line then return ⟨true, written ++ prompt c ++ "\n", c.session.store⟩
    let (answer, after) ← respond c line
    converse after (written ++ prompt c ++ answer) rest

/-- The whole run over given lines. -/
def run (launch : Launch) (lines : List (Option String)) : Option Outcome := do
  match ← start launch with
  | (.error _, store) => return ⟨false, "", store⟩
  | (.ok (console, greeting), _) => converse console greeting lines

/-- The text of a line of input without what ended it. Only a line feed ends a line, and a carriage
    return before one is taken off too. A line whose bytes are no text has none. -/
def decodeLine (bytes : List UInt8) (ended : Bool) : Option String :=
  let bytes := if ended ∧ bytes.getLast? = some 0x0d then bytes.dropLast else bytes
  String.fromUTF8? bytes.toByteArray

/-- The lines of an input. What follows the last line feed is a line if it is not empty. -/
def inputLines (input : List UInt8) : List (Option String) :=
  let pieces := input.splitOn 0x0a
  let ended := pieces.dropLast.map (decodeLine · true)
  match pieces.getLast? with
  | some (b :: rest) => ended ++ [decodeLine (b :: rest) false]
  | _ => ended

end Program

end TreeShell
