import TreeShell.Proofs.Command.Rebuilt

/-!
# How Words End

Words end in an output or in an error, and what is printed does not tell which: an error is printed
as text, and a file may hold the same text. `Registry.result` is what words come to before it is
printed, and `Ends` lists the ways in which that may happen, each with what must have been the case
for it and with what is left of the environment. There is one lemma for each command, and nothing
later looks at a command again.

Only a rebuild may never come back. What is then left of the environment does not matter, as nobody
is given it again.

A failure leaves little behind. Commands look before they change anything, and collaborators change
nothing when they refuse, so what is left are requests that were made and the characters of a login
link that was not sent. The one exception is the rebuild, which puts its tree in place before it is
saved; it has a case of its own.

Only a rebuild and the file commands reach the content provider. `Fetches` says which words ask for
the contents of a file, at which path and with which request; the request is made of the path and
nothing else.

## Main definitions

* `Registry.result`: What words come to before it is printed.
* `Output.Plain`: An output that is no image, of words that come back.
* `Environment.Fetches`: Words that ask for the contents of a file.
* `Environment.Ends`: How words may end.

## Theorems

* `Registry.dispatch_eq`: What is printed is the result.
* `Registry.result_operand`: A single operand is handed to the command.
* `Environment.outcome_cat`, `Environment.outcome_imgcat`, `Environment.outcome_openLink`: What the
  file commands do with a readable file.
* `Environment.ends_result`: All words end in one of the ways.
-/

namespace TreeShell

/-- What words come to: an output, or the error of a command, or that of the gate. -/
def Registry.result (r : Registry) (argv : List String) (env : Environment) :
    Except CommandError Output × Environment :=
  match argv with
  | [] => (.ok .none, env)
  | name :: args =>
    match r.find? name with
    | none => (.error ⟨name, .unknown⟩, env)
    | some command =>
      match command.refusal? args with
      | some complaint => (.error ⟨name, complaint⟩, env)
      | none => (command.run args).outcome env

/-- What is printed of words is what they come to. -/
theorem Registry.dispatch_eq (r : Registry) (argv : List String) (env : Environment) :
    r.dispatch argv env = (.ofResult (r.result argv env).1, (r.result argv env).2) := by
  cases argv with
  | nil => rfl
  | cons name args =>
      rw [dispatch, result]
      cases r.find? name with
      | none => rfl
      | some command =>
          cases hgate : command.refusal? args with
          | some complaint =>
              simp only [hgate]
              rfl
          | none =>
              simp only [hgate]
              rcases (command.run args).outcome env with ⟨_ | _, _⟩
              · rfl
              · rfl

/-- A single operand gets past the gate of a command that takes one. -/
theorem Registry.result_operand {r : Registry} {name operand : String} {c : Command}
    (hfind : r.find? name = some c) (hmin : c.minArgs ≤ 1) (hmax : 1 ≤ c.maxArgs)
    (hplain : isOption operand = false) (env : Environment) :
    r.result [name, operand] env = (c.run [operand]).outcome env := by
  have hgate : c.refusal? [operand] = none :=
    Command.refusal?_eq_none_iff.2 ⟨hmin, hmax, .inr (List.forall_mem_singleton.2 hplain)⟩
  rw [result, hfind]
  simp only [hgate]

/-- The output of words that come back, and no image. -/
structure Output.Plain (output : Output) : Prop where
  notImage : ∀ handle, output ≠ .image handle
  comesBack : output ≠ .never

namespace Environment

/-- The environment after a request. -/
def asked (env : Environment) (r : Request) : Environment :=
  { env with traffic := (env.content.ask r env.traffic).2 }

/-- `argv` asks for the contents of the readable file at `path`, with the request `r`. Only the path
    and the place where the repository hangs go into the request. -/
inductive Fetches (env : Environment) (argv : List String) (path : Path) (r : Request) : Prop where
  | text (operand : String) (typed : argv = ["cat", operand]) (names : env.Readable operand path)
      (request : r = .text (path.place env.repoRoot))
  | image (operand extension : String) (typed : argv = ["imgcat", operand])
      (names : env.Readable operand path) (suffix : path.extension? = some extension)
      (shows : extension ∈ env.config.imageExtensions)
      (request : r = .image (path.place env.repoRoot))
  | link (operand : String) (typed : argv = ["open", operand]) (names : env.Readable operand path)
      (suffix : path.extension? = some env.config.linkExtension)
      (request : r = .text (.storage path.storageKey))

/-- How the words `argv` may end, and what they leave of an environment. The first five ways are
    failures. -/
inductive Ends (env : Environment) (argv : List String) :
    Except CommandError Output → Environment → Prop where
  /-- They are turned away, or their command finds a reason not to begin. -/
  | failed (error : CommandError) : env.Ends argv (.error error) env
  /-- The contents of a file are refused, or are not what was wanted. -/
  | unanswered (error : CommandError) {path : Path} {r : Request}
      (cause : env.Fetches argv path r) : env.Ends argv (.error error) (env.asked r)
  /-- A login link cannot be sent, and its characters are spent. -/
  | unsent (error : CommandError) (tokens : Tokens) (named : argv.head? = some "taso-cli")
      (other : argv ≠ ["taso-cli", "reset"]) : env.Ends argv (.error error) { env with tokens }
  /-- No tree can be built. -/
  | unbuilt (error : CommandError) {traffic : Traffic} (typed : argv = ["taso-cli", "reset"])
      (admin : env.accounts.AdminSignedIn) (built : env.Builds none traffic) :
      env.Ends argv (.error error) { env with traffic }
  /-- A tree is built and put in place, and the store refuses it. -/
  | unsaved (error : CommandError) {tree : Dir} {traffic : Traffic} {fault : Fault}
      (typed : argv = ["taso-cli", "reset"]) (admin : env.accounts.AdminSignedIn)
      (built : env.Builds (some tree) traffic) (refusal : env.store.saveFault = some fault) :
      env.Ends argv (.error error)
        { env with traffic, tree, store := env.store.called (.save tree.snapshot) }
  /-- They never come back: there is no end to what a rebuild lists. -/
  | endless (typed : argv = ["taso-cli", "reset"]) (admin : env.accounts.AdminSignedIn)
      (unending : env.content.storageTree env.traffic = none) : env.Ends argv (.ok .never) env
  /-- They only look. -/
  | looked {output : Output} (plain : output.Plain) : env.Ends argv (.ok output) env
  | moved (cwd : Path) (named : argv.head? = some "cd") : env.Ends argv (.ok .none) { env with cwd }
  | fetched {output : Output} {path : Path} {r : Request}
      (plain : output.Plain) (cause : env.Fetches argv path r) :
      env.Ends argv (.ok output) (env.asked r)
  /-- An image is shown, and kept for that. -/
  | shown (image : Image) {path : Path} {r : Request} (named : argv.head? = some "imgcat")
      (cause : env.Fetches argv path r) :
      env.Ends argv (.ok (.image (env.gallery.register image).1))
        { env.asked r with gallery := (env.gallery.register image).2 }
  | signed (text : String) (accounts : Accounts) (tokens : Tokens)
      (named : argv.head? = some "taso-cli") (other : argv ≠ ["taso-cli", "reset"]) :
      env.Ends argv (.ok (.text text)) { env with accounts, tokens }
  | saved (text : String) {tree : Dir} {traffic : Traffic} (typed : argv = ["taso-cli", "reset"])
      (admin : env.accounts.AdminSignedIn) (built : env.Builds (some tree) traffic)
      (accepted : env.store.saveFault = none) :
      env.Ends argv (.ok (.text text))
        { env with traffic, tree, store := env.store.saved tree.snapshot }

/-- A file was asked for, and whatever came of it is no image. -/
theorem Ends.ofFetch {env : Environment} {argv : List String} {path : Path} {r : Request}
    {result : Except CommandError Output} (cause : env.Fetches argv path r)
    (plain : ∀ output, result = .ok output → output.Plain) :
    env.Ends argv result (env.asked r) := by
  cases result with
  | error error => exact .unanswered error cause
  | ok output => exact .fetched (plain output rfl) cause

section Files

variable {env : Environment} {operand : String} {path : Path}
  (hfound : env.tree.resolve env.cwd env.home operand = ⟨some (.file true), path⟩)

include hfound

theorem outcome_cat : ∃ result, (∀ output, result = .ok output → output.Plain) ∧
    (Command.cat.run [operand]).outcome env =
      (result, env.asked (.text (path.place env.repoRoot))) := by
  simp only [Command.cat, CommandM.outcome_bind, List.headD_cons]
  rw [Command.outcome_readable hfound]
  simp only [CommandM.outcome_get, CommandM.outcome_demand]
  rcases (env.content.ask (.text (path.place env.repoRoot)) env.traffic).1 with fault | text
  · exact ⟨.error _, nofun, rfl⟩
  · exact ⟨.ok (.text text), fun _ h => Except.ok.inj h ▸ ⟨nofun, nofun⟩, rfl⟩

/-- An image is registered where one was given. -/
theorem outcome_imgcat {extension : String} (hsuffix : path.extension? = some extension)
    (hshows : extension ∈ env.config.imageExtensions) :
    (∃ error, (Command.imgcat.run [operand]).outcome env =
      (.error error, env.asked (.image (path.place env.repoRoot)))) ∨
    ∃ image, (Command.imgcat.run [operand]).outcome env =
      (.ok (.image (env.gallery.register image).1),
        { env.asked (.image (path.place env.repoRoot)) with
          gallery := (env.gallery.register image).2 }) := by
  have himage : path.extension?.any env.config.isImage = true := by
    rw [hsuffix]
    exact List.contains_iff_mem.2 hshows
  simp only [Command.imgcat, CommandM.outcome_bind, List.headD_cons]
  rw [Command.outcome_readable hfound]
  simp only [CommandM.outcome_get]
  rw [if_pos himage, CommandM.outcome_bind, CommandM.outcome_demand]
  rcases (env.content.ask (.image (path.place env.repoRoot)) env.traffic).1 with fault | image
  · exact .inl ⟨_, rfl⟩
  · exact .inr ⟨image, rfl⟩

/-- A link that turns out to be empty was fetched all the same. -/
theorem outcome_openLink (hsuffix : path.extension? = some env.config.linkExtension) :
    ∃ result, (∀ output, result = .ok output → output.Plain) ∧
      (Command.openLink.run [operand]).outcome env =
        (result, env.asked (.text (.storage path.storageKey))) := by
  simp only [Command.openLink, CommandM.outcome_bind, List.headD_cons]
  rw [Command.outcome_readable hfound]
  simp only [CommandM.outcome_get]
  rw [if_pos hsuffix, CommandM.outcome_bind, CommandM.outcome_demand]
  rcases (env.content.ask (.text (.storage path.storageKey)) env.traffic).1 with fault | text
  · exact ⟨.error _, nofun, rfl⟩
  · simp only [CommandM.mapError_ok]
    split
    · exact ⟨.error _, nofun, rfl⟩
    · exact ⟨.ok (.url (Text.trim text)), fun _ h => Except.ok.inj h ▸ ⟨nofun, nofun⟩, rfl⟩

end Files

section Commands

variable (env : Environment)

theorem ends_cd (args : List String) :
    env.Ends ("cd" :: args) ((Command.cd.run args).outcome env).1
      ((Command.cd.run args).outcome env).2 := by
  cases args with
  | nil => exact .moved env.home rfl
  | cons target rest =>
      simp only [Command.cd, CommandM.outcome_bind, CommandM.outcome_locate, CommandM.outcome_liftM]
      rcases (env.tree.resolve env.cwd env.home target).requireDir "cd" target with e | entries
      · exact .failed e
      · exact .moved _ rfl

theorem ends_ls (args : List String) :
    env.Ends ("ls" :: args) ((Command.ls.run args).outcome env).1
      ((Command.ls.run args).outcome env).2 := by
  simp only [Command.ls]
  split
  · exact .failed _
  · split
    · exact .failed _
    · simp only [CommandM.outcome_bind, CommandM.outcome_get, CommandM.outcome_locate]
      split
      · exact .looked ⟨nofun, nofun⟩
      · -- Whatever is no file has to be a readable directory.
        rw [CommandM.outcome_bind, CommandM.outcome_liftM]
        rcases Resolved.requireDir "ls" _ _ with e | entries
        · exact .failed e
        · exact .looked ⟨nofun, nofun⟩

theorem ends_share (args : List String) :
    env.Ends ("share" :: args) ((Command.share.run args).outcome env).1
      ((Command.share.run args).outcome env).2 := by
  cases args with
  | nil => exact .looked ⟨nofun, nofun⟩
  | cons target rest =>
      simp only [Command.share, CommandM.outcome_bind, CommandM.outcome_locate]
      split
      · exact .failed _
      · exact .looked ⟨nofun, nofun⟩

theorem ends_cat {operand : String} (hplain : isOption operand = false) :
    env.Ends ["cat", operand] ((Command.cat.run [operand]).outcome env).1
      ((Command.cat.run [operand]).outcome env).2 := by
  rcases Command.readable_cases env "cat" operand false with ⟨path, hfound⟩ | ⟨e, h⟩
  · rcases outcome_cat hfound with ⟨result, hresult, hrun⟩
    rw [hrun]
    exact .ofFetch (.text operand rfl ⟨hplain, hfound⟩ rfl) hresult
  · simp only [Command.cat, CommandM.outcome_bind, List.headD_cons]
    rw [h]
    exact .failed e

theorem ends_imgcat {operand : String} (hplain : isOption operand = false) :
    env.Ends ["imgcat", operand] ((Command.imgcat.run [operand]).outcome env).1
      ((Command.imgcat.run [operand]).outcome env).2 := by
  rcases Command.readable_cases env "imgcat" operand false with ⟨path, hfound⟩ | ⟨e, h⟩
  · by_cases himage : ∃ extension, path.extension? = some extension ∧
        extension ∈ env.config.imageExtensions
    · rcases himage with ⟨extension, hsuffix, hshows⟩
      have hcause : env.Fetches ["imgcat", operand] path (.image (path.place env.repoRoot)) :=
        .image operand extension rfl ⟨hplain, hfound⟩ hsuffix hshows rfl
      rcases outcome_imgcat hfound hsuffix hshows with ⟨error, hrun⟩ | ⟨image, hrun⟩
      · rw [hrun]
        exact .unanswered error hcause
      · rw [hrun]
        exact .shown image rfl hcause
    · -- The file is readable but no image, and is not asked for.
      have hany : path.extension?.any env.config.isImage ≠ true := by
        rw [Ne, Option.any_eq_true]
        simp only [Config.isImage, List.contains_iff_mem]
        exact himage
      simp only [Command.imgcat, CommandM.outcome_bind, List.headD_cons]
      rw [Command.outcome_readable hfound]
      simp only [CommandM.outcome_get]
      rw [if_neg hany]
      exact .failed _
  · simp only [Command.imgcat, CommandM.outcome_bind, List.headD_cons]
    rw [h]
    exact .failed e

theorem ends_openLink {operand : String} (hplain : isOption operand = false) :
    env.Ends ["open", operand] ((Command.openLink.run [operand]).outcome env).1
      ((Command.openLink.run [operand]).outcome env).2 := by
  rcases Command.readable_cases env "open" operand true with ⟨path, hfound⟩ | ⟨e, h⟩
  · by_cases hsuffix : path.extension? = some env.config.linkExtension
    · rcases outcome_openLink hfound hsuffix with ⟨result, hresult, hrun⟩
      rw [hrun]
      exact .ofFetch (.link operand rfl ⟨hplain, hfound⟩ hsuffix rfl) hresult
    · -- The file is readable but no link file, and is not asked for.
      simp only [Command.openLink, CommandM.outcome_bind, List.headD_cons]
      rw [Command.outcome_readable hfound]
      simp only [CommandM.outcome_get]
      rw [if_neg hsuffix]
      exact .failed _
  · simp only [Command.openLink, CommandM.outcome_bind, List.headD_cons]
    rw [h]
    exact .failed e

section Sign

variable {argv : List String} (hname : argv.head? = some "taso-cli")
  (hother : argv ≠ ["taso-cli", "reset"])

include hname hother

/-- Signing in changes the accounts, and takes a token where a link is to be sent. -/
theorem ends_login (options : List String) :
    env.Ends argv (((Account.login options).outcome env).1.map .text)
      ((Account.login options).outcome env).2 := by
  simp only [Account.login, CommandM.outcome_bind, CommandM.outcome_get]
  split
  · exact .looked ⟨nofun, nofun⟩
  · split
    · -- No option: the pending sign-in is completed, or that is refused.
      simp only [CommandM.outcome_bind, CommandM.outcome_account]
      rcases hcomplete : env.accounts.complete with ⟨_ | email, accounts⟩
      · cases Accounts.complete_refused hcomplete
        exact .failed _
      · exact .signed _ accounts env.tokens hname hother
    · exact .failed _
    · -- An address: the token is spent whether or not the link could be sent.
      rename_i address
      simp only [CommandM.outcome_bind, CommandM.outcome_modifyGet, CommandM.outcome_get,
        CommandM.outcome_account]
      rcases hsend : env.accounts.sendLink address
        (Account.loginLink env.config env.cwd env.tokens.draw.1) with ⟨_ | _, accounts⟩
      · cases Accounts.sendLink_refused hsend
        exact .unsent _ env.tokens.draw.2 hname hother
      · exact .signed _ accounts env.tokens.draw.2 hname hother
    · exact .failed _

theorem ends_logout : env.Ends argv ((Account.logout.outcome env).1.map .text)
    (Account.logout.outcome env).2 := by
  simp only [Account.logout, CommandM.outcome_bind, CommandM.outcome_get]
  split
  · exact .looked ⟨nofun, nofun⟩
  · simp only [CommandM.outcome_bind, CommandM.outcome_account]
    rcases hout : env.accounts.signOut with ⟨_ | _, accounts⟩
    · cases Accounts.signOut_refused hout
      exact .failed _
    · exact .signed _ accounts env.tokens hname hother

end Sign

theorem ends_reset : env.Ends ["taso-cli", "reset"] (Account.reset.outcome env).1
    (Account.reset.outcome env).2 := by
  by_cases hadmin : env.accounts.AdminSignedIn
  · by_cases hends : env.content.storageTree env.traffic = none
    · rw [outcome_reset_endless hadmin hends]
      exact .endless rfl hadmin hends
    · rcases exists_builds hends with ⟨_ | tree, traffic, hbuilt⟩
      · rw [outcome_reset_unbuilt hadmin hbuilt]
        exact .unbuilt _ rfl hadmin hbuilt
      · rw [outcome_reset_built hadmin hbuilt]
        cases hfault : env.store.saveFault with
        | none =>
            rw [Store.save_accepted hfault]
            exact .saved _ rfl hadmin hbuilt hfault
        | some fault =>
            -- What was held stays, but the tree is the new one.
            rw [Store.save_refused hfault]
            exact .unsaved _ rfl hadmin hbuilt hfault
  · rw [outcome_reset_refused hadmin]
    exact .failed _

theorem ends_account (args : List String) :
    env.Ends ("taso-cli" :: args) ((Command.account.run args).outcome env).1
      ((Command.account.run args).outcome env).2 := by
  simp only [Command.account]
  split
  · exact .failed _
  · rw [outcome_say]
    exact env.ends_login rfl (by simp) _
  · rw [outcome_say]
    exact env.ends_logout rfl (by simp)
  · exact env.ends_reset
  · exact .failed _
  · exact .failed _
  · exact .failed _

end Commands

/-- All words end in one of the ways. What is unknown or turned away ends before it begins, and the
    rest are the built-in commands. -/
theorem ends_result (env : Environment) (argv : List String) :
    env.Ends argv (Registry.builtin.result argv env).1 (Registry.builtin.result argv env).2 := by
  cases argv with
  | nil => exact .looked ⟨nofun, nofun⟩
  | cons name args =>
      rw [Registry.result]
      cases hfind : Registry.builtin.find? name with
      | none => exact .failed _
      | some command =>
          cases hgate : command.refusal? args with
          | some complaint =>
              simp only [hgate]
              exact .failed _
          | none =>
              simp only [hgate]
              rcases Registry.mem_builtins_of_find? hfind with ⟨hmem, rfl⟩
              simp only [Command.builtins, List.mem_cons, List.not_mem_nil, or_false] at hmem
              rcases hmem with rfl | rfl | rfl | rfl | rfl | rfl | rfl | rfl | rfl | rfl | rfl
              -- The order is that of `Command.builtins`; four of the commands only look.
              · exact env.ends_cd args
              · exact .looked ⟨nofun, nofun⟩
              · exact env.ends_ls args
              · exact .looked ⟨nofun, nofun⟩
              -- Past the gate, a file command has one operand, and that is no option.
              · rcases Command.eq_singleton_of_accepted hgate rfl rfl rfl with
                  ⟨operand, rfl, hplain⟩
                exact env.ends_cat hplain
              · rcases Command.eq_singleton_of_accepted hgate rfl rfl rfl with
                  ⟨operand, rfl, hplain⟩
                exact env.ends_imgcat hplain
              · exact .looked ⟨nofun, nofun⟩
              · exact .looked ⟨nofun, nofun⟩
              · rcases Command.eq_singleton_of_accepted hgate rfl rfl rfl with
                  ⟨operand, rfl, hplain⟩
                exact env.ends_openLink hplain
              · exact env.ends_share args
              · exact env.ends_account args

end Environment

end TreeShell
