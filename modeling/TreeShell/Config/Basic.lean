/-!
# Configuration

What a shell instance is told about itself. Every setting has a value of its own to start from, so
that an empty configuration is a working one.

## Main definitions

* `Config`: The settings.
* `Config.isImage`: Whether files with an extension are images.
-/

namespace TreeShell

/-- The settings of a shell. -/
structure Config where
  /-- The one user, whose home is below `/home`. -/
  user : String := "taso0096"
  /-- The repository shown below the home directory. -/
  repo : String := "taso-cli"
  /-- The address of the site, for the links that lead back to it. -/
  siteUrl : String := "https://cli.taso.tech"
  /-- The address of the service that shares links. -/
  shareUrl : String := "https://twitter.com/intent/tweet"
  /-- The text that goes with a shared link. -/
  shareText : String := "taso-cli"
  /-- How many lines `history` prints. -/
  historyLimit : Nat := 10
  /-- The pause between requests for trees of the repository, in milliseconds. -/
  pacing : Nat := 1000
  /-- The extensions of images. -/
  imageExtensions : List String := ["png", "jpg", "gif", "ico"]
  /-- The extension of link files. -/
  linkExtension : String := "link"
  deriving DecidableEq, Repr, Inhabited

/-- Whether files with `extension` are images. -/
def Config.isImage (c : Config) (extension : String) : Bool :=
  c.imageExtensions.contains extension

end TreeShell
