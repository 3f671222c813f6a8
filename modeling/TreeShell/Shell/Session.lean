import TreeShell.Command.Builtin
import TreeShell.Editor.Basic
import TreeShell.Shell.Preview
import TreeShell.Snapshot.Reader

/-!
# Sessions

A session runs lines one after the other and keeps a log of them. Lines and outputs grow together,
entry by entry, and what was hidden is only skipped: the log itself is never cut. Images are kept as
long as the entry that shows them is visible.

A session starts by loading the stored tree and following a hint to where the user wants to be. A
hint that is no readable directory is answered by a line that the session runs itself, so that what
the user sees is what they would have seen had they typed it.

A line may never come back, where the backend that it asks has no end of directories. It has the
output `.never` here and is logged like any other, but nobody is given the session after it.

## Main definitions

* `Session`: A session.
* `Session.run`: Run a line.
* `Session.hide`: Hide what was shown so far.
* `Session.boot`: Load the tree and follow a hint.
* `Session.view`: What a line editor needs.
-/

namespace TreeShell

/-- A session. -/
structure Session where
  config : Config
  home : Path
  cwd : Path
  tree : Dir
  registry : Registry := .builtin
  content : Content
  traffic : Traffic := {}
  store : Store := {}
  accounts : Accounts := {}
  clock : Moment
  tokens : Tokens
  history : List HistoryEntry := []
  outputs : List Output := []
  /-- How many entries of the log are hidden. -/
  hidden : Nat := 0
  gallery : Gallery := {}

/-- The tree to start from where nothing is stored: the home directory and nothing else. -/
def defaultTree (user : String) : Dir :=
  .ofList [("home", .dir (.ofList [(user, .dir .empty)]))]

namespace Session

/-- What a session is started with. -/
structure Setup where
  config : Config
  content : Content
  store : Store := {}
  accounts : Accounts := {}
  clock : Moment
  tokens : Tokens

/-- A session over a tree, at home. -/
def overTree (setup : Setup) (tree : Dir) : Session where
  config := setup.config
  home := .home setup.config.user
  cwd := .home setup.config.user
  tree := tree
  content := setup.content
  store := setup.store
  accounts := setup.accounts
  clock := setup.clock
  tokens := setup.tokens

/-- A session over the tree to start from. -/
def start (setup : Setup) : Session := overTree setup (defaultTree setup.config.user)

/-- The prompt form of the working directory. -/
def prompt (s : Session) : String := s.cwd.display s.home

/-- The session as its commands see it. -/
def environment (s : Session) : Environment where
  cwd := s.cwd
  home := s.home
  tree := s.tree
  config := s.config
  content := s.content
  traffic := s.traffic
  store := s.store
  accounts := s.accounts
  clock := s.clock
  history := s.history
  gallery := s.gallery
  tokens := s.tokens

/-- The session after a command changed what it saw. -/
def absorb (s : Session) (env : Environment) : Session :=
  { s with
    cwd := env.cwd
    tree := env.tree
    traffic := env.traffic
    store := env.store
    accounts := env.accounts
    gallery := env.gallery
    tokens := env.tokens }

/-- The images among outputs. -/
def imageNames (outputs : List Output) : List String :=
  outputs.filterMap fun
    | .image handle => some handle.uri
    | _ => none

/-- Hide everything that was shown, and release the images that were visible. -/
def hide (s : Session) : Session :=
  { s with
    gallery := (imageNames (s.outputs.drop s.hidden)).foldl Gallery.revoke s.gallery
    hidden := s.history.length }

/-- Run a line. The wish to clear the screen is fulfilled here, and logged as no output. -/
def run (s : Session) (line : String) : Output × Session :=
  let (output, env) := s.registry.execute line s.environment
  let s : Session := { s.absorb env with history := s.history ++ [⟨s.prompt, line⟩] }
  match output with
  | .clear =>
    let s := s.hide
    (output, { s with outputs := s.outputs ++ [.none] })
  | _ => (output, { s with outputs := s.outputs ++ [output] })

/-- The stored tree, or the one to start from where none can be loaded. -/
def storedTree (s : Session) : Dir :=
  match s.store.found with
  | .ok (some text) => (Snapshot.read text).toOption.getD (defaultTree s.config.user)
  | _ => defaultTree s.config.user

/-- What a session greets with. -/
def banner : String := "Welcome to taso-cli v0.1.0\n * privacy-policy: ~/privacy-policy.md"

/-- The command that shows a file with a name. -/
def viewer (config : Config) (name : String) : String :=
  if (Path.extensionOf? name).any config.isImage then "imgcat" else "cat"

/-- Where a hint leads: the directory to start in, and the line to run there. A readable file is
    shown from its own directory. Whatever cannot be entered or shown is asked for from home, so
    that the refusal is seen. -/
def arrival (config : Config) (home : Path) (hint : Resolved) : Path × Option String :=
  let name := hint.path.name?.getD ""
  match hint.node with
  | some (.dir _) => (hint.path, none)
  | some (.file true) => (hint.path.parent, some (viewer config name ++ " " ++ name))
  | some (.file false) => (home, some (viewer config name ++ " " ++ hint.path.text))
  | some .denied => (home, some ("cd " ++ hint.path.text))
  | none => (home, some ("cd " ++ hint.path.text))

/-- Load the stored tree, greet, and follow a hint; without one, go home. -/
def boot (s : Session) (hint : String) : Session :=
  let tree := s.storedTree
  let hint := if hint = "" then s.home.text else hint
  let (cwd, line) := arrival s.config s.home (tree.resolve s.home s.home hint)
  let s : Session := { s with
    tree := tree
    cwd := cwd
    store := s.store.load.2
    history := s.history ++ [⟨"", ""⟩]
    outputs := s.outputs ++ [.text banner] }
  match line with
  | none => s
  | some line => (s.run line).2

/-- The log: each line with its output. -/
def log (s : Session) : List (HistoryEntry × Output) := s.history.zip s.outputs

/-- The visible part of the log. -/
def visible (s : Session) : List (HistoryEntry × Output) := s.log.drop s.hidden

/-- What a line editor needs. -/
def view (s : Session) : View where
  tree := s.tree
  cwd := s.cwd
  home := s.home
  history := History.commands s.history
  commands := s.registry.names

/-- The name of the picture of the working directory after the last line that is not empty. -/
def previewName (s : Session) : String :=
  previewKey s.cwd.text ((History.commands s.history).getLast?.getD "")

end Session

end TreeShell
