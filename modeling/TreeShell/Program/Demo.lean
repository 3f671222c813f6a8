import TreeShell.Backend.Memory
import TreeShell.Config.Basic
import TreeShell.Service.Store
import TreeShell.Snapshot.Printer
import TreeShell.Tree.Graft

/-!
# Demonstration Content

A small home directory and a small repository, for running the shell without any backend, and the
seeding that gives an empty store its first snapshot.

## Main definitions

* `Demo.content`: The content for a configuration.
* `seed`: Build the tree and store it where nothing is stored.
-/

namespace TreeShell

namespace Demo

/-- The files of a home directory. -/
def homeTree : Dir :=
  let links := Dir.ofList [("github.link", .file true), ("twitter.link", .file true)]
  .ofList [("about.md", .file true), ("privacy-policy.md", .file true), ("icon.png", .file true),
    ("links", .dir links), ("repositories", .dir .empty), ("drafts", .denied),
    ("todo.md", .file false), (".profile", .file true)]

/-- What object storage lists. -/
def storage (user : String) : Dir :=
  .ofList [("home", .dir (.ofList [(user, .dir homeTree)]))]

/-- What the repository holds. -/
def repository : Dir :=
  let source := Dir.ofList [("main.rs", .file true), ("shell.rs", .file true)]
  .ofList [("README.md", .file true), ("Cargo.toml", .file true), ("src", .dir source)]

/-- The first bytes of a PNG file, and no more. -/
def icon : Image := ⟨"image/png", [0x89, 0x50, 0x4e, 0x47, 0x0d, 0x0a, 0x1a, 0x0a]⟩

/-- The content for a configuration. -/
def content (config : Config) : MemoryContent :=
  let home := "home/" ++ config.user
  { (MemoryContent.ofStorage (storage config.user)).withRepository repository with
    pacing := config.pacing
    texts :=
      [(home ++ "/about.md",
          "# " ++ config.user ++ "\n\nThis is a shell over a virtual file tree."),
        (home ++ "/privacy-policy.md",
          "# Privacy Policy\n\nNo personal data is collected by this demo."),
        (home ++ "/.profile", "export PS1='$ '"),
        (home ++ "/links/github.link", "https://github.com/" ++ config.user ++ "\n"),
        (home ++ "/links/twitter.link", "https://twitter.com/" ++ config.user ++ "\n")]
    images := [(home ++ "/icon.png", icon)]
    repoTexts :=
      [("README.md", "# " ++ config.repo ++ "\n"),
        ("Cargo.toml", "[package]\nname = \"" ++ config.repo ++ "\"\n"),
        ("src/main.rs", "fn main() \x7b\x7d\n"),
        ("src/shell.rs", "pub struct Shell;\n")] }

end Demo

/-- Build the tree from both backends and store it, unless something is stored already. The
    repository is asked for whether or not storage has a place for it. Returns the outcome and what
    has become of the traffic and the store; nothing if the listings never end. -/
def seed (config : Config) (content : Content) (traffic : Traffic) (store : Store) :
    Option (Except Fault Unit × Traffic × Store) :=
  match store.load with
  | (.error fault, store) => some (.error fault, traffic, store)
  | (.ok (some _), store) => some (.ok (), traffic, store)
  | (.ok none, store) =>
    (content.storageTree traffic).map fun
    | (.error fault, traffic) => (.error fault, traffic, store)
    | (.ok storage, traffic) =>
      match content.ask (.repositoryTree config.user config.repo) traffic with
      | (.error fault, traffic) => (.error fault, traffic, store)
      | (.ok repo, traffic) =>
        let tree := Dir.graft storage repo (.home config.user) config.repo
        let (outcome, store) := store.save tree.snapshot
        (outcome, traffic, store)

end TreeShell
