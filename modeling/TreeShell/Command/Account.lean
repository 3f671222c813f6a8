import TreeShell.Command.Registry
import TreeShell.Snapshot.Printer
import TreeShell.Text.Percent
import TreeShell.Tree.Graft

/-!
# Accounts and Maintenance

The command through which a user signs in and out and through which an administrator rebuilds the
tree. It is kept out of completion.

A rebuild asks the storage backend for every listing, and the repository only if the new tree has
a place for it. Nothing is changed before all of that has succeeded. Then the tree is replaced, and
after that it is saved: where the save is refused, the new tree stays for this session and the
failure is reported. Where the listings never end, neither does the rebuild.

## Main definitions

* `loginLink`: The link that leads back to a pending sign-in.
* `Account.login`, `Account.logout`, `Account.reset`: The parts of the command.
* `account`: The command.
-/

namespace TreeShell

namespace Account

/-- The name of the command. -/
def name : String := "taso-cli"

/-- What follows the name of the command in a line of text. -/
def say (text : String) : String := name ++ ": " ++ text

/-- The link that leads back to a pending sign-in in the directory it was begun in. -/
def loginLink (config : Config) (cwd : Path) (token : String) : String :=
  config.siteUrl ++ "?path=" ++ cwd.text ++ "&cmd=" ++ Text.percentEncode (name ++ " login") ++
    "&token=" ++ token

/-- Sign in: complete a pending sign-in, or send a link with `--email` and an address. Whoever is
    signed in is told so, whatever else was typed. -/
def login (options : List String) : CommandM String := do
  match (← get).accounts.signedIn with
  | some email => return say ("Already logged in as " ++ email)
  | none =>
    match options with
    | [] =>
      let email ← CommandM.account name Accounts.complete
      return say ("Logged in as " ++ email)
    | ["--email"] => CommandM.complain name (.invalidOption none)
    | ["--email", address] =>
      let token ← modifyGet fun env =>
        let (token, tokens) := env.tokens.draw
        (token, { env with tokens })
      let env ← get
      CommandM.account name (·.sendLink address (loginLink env.config env.cwd token))
      return say "The login link was successfully sent."
    | option :: _ => CommandM.complain name (.invalidOption (some option))

/-- Sign out. -/
def logout : CommandM String := do
  match (← get).accounts.signedIn with
  | none => return say "No need to logout, not logged in"
  | some email =>
    CommandM.account name Accounts.signOut
    return say ("Logged out from " ++ email)

/-- The tree as the backends give it now; nothing if the listings never end. The repository is asked
    for only if storage has a readable place for it. -/
def rebuilt : CommandM (Option Dir) := do
  let env ← get
  match env.content.storageTree env.traffic with
  | none => return none
  | some grown =>
    let storage ← CommandM.demand name fun _ => grown
    match (storage.resolve env.cwd env.home "~/repositories").node with
    | some (.dir _) =>
      let repo ← CommandM.demand name
        (env.content.ask (.repositoryTree env.config.user env.config.repo))
      return some (storage.graft repo env.home env.config.repo)
    | _ => return some storage

/-- Put a rebuilt tree in place and save it. -/
def install (tree : Dir) : CommandM Output := do
  let outcome ← modifyGet fun env =>
    let (outcome, store) := env.store.save tree.snapshot
    (outcome, { env with tree, store })
  match outcome with
  | .ok _ => return .text (say "Directory tree has been updated.")
  | .error _ => CommandM.complain name .failed

/-- Rebuild the tree on behalf of an administrator. -/
def reset : CommandM Output := do
  let accounts := (← get).accounts
  if accounts.signedIn.any accounts.isPrivileged then
    match ← rebuilt with
    | none => return .never
    | some tree => install tree
  else CommandM.complain name .failed

end Account

/-- Sign in and out, and rebuild the tree. -/
def Command.account : Command where
  name := Account.name
  category := "admin"
  maxArgs := 3
  takesOptions := true
  run args := match args with
    | [] => CommandM.complain Account.name (.invalidOption none)
    | "login" :: options => do return .text (← Account.login options)
    | ["logout"] => do return .text (← Account.logout)
    | ["reset"] => Account.reset
    | "logout" :: _ => CommandM.complain Account.name .tooManyArguments
    | "reset" :: _ => CommandM.complain Account.name .tooManyArguments
    | other :: _ => CommandM.complain Account.name (.invalidOption (some other))

end TreeShell
