import TreeShell.Config.Basic
import TreeShell.Fault
import TreeShell.Service.Store
import TreeShell.Toml.Document

/-!
# Configuration Files

A configuration is a TOML document whose top level holds settings. A setting that is missing keeps
its own value, a key that is no setting is ignored, and a setting with a value of the wrong type
makes the whole configuration wrong.

## Main definitions

* `Config.ofDefinitions?`: The configuration that a document defines.
* `Config.ofText`, `Config.ofFile`: The configuration in a text, and in a file.
-/

namespace TreeShell

namespace Toml

/-- The text that a value is. -/
def Value.text? : Value → Option String
  | .string text => some text
  | _ => none

/-- The natural number that a value is. -/
def Value.natural? : Value → Option Nat
  | .integer n => if 0 ≤ n then some n.toNat else none
  | _ => none

/-- The list of texts that a value is. -/
def Value.texts? : Value → Option (List String)
  | .array items => items.mapM Value.text?
  | _ => none

end Toml

namespace Config

open Toml

/-- The setting with a name: its own value where the document defines nothing under the name, and
    nothing where it defines something of another type. -/
def setting? {α : Type} (d : Definitions) (name : String) (read : Value → Option α) (own : α) :
    Option α :=
  match d.mark? [.key name] with
  | none => some own
  | some (.value v) => read v
  | some _ => none

/-- The configuration that a document defines. -/
def ofDefinitions? (d : Definitions) : Option Config := do
  let own : Config := {}
  let user ← setting? d "user" Value.text? own.user
  let repo ← setting? d "repo" Value.text? own.repo
  let siteUrl ← setting? d "site_url" Value.text? own.siteUrl
  let shareUrl ← setting? d "share_intent_url" Value.text? own.shareUrl
  let shareText ← setting? d "share_text" Value.text? own.shareText
  let historyLimit ← setting? d "history_limit" Value.natural? own.historyLimit
  let pacing ← setting? d "repo_pacing_ms" Value.natural? own.pacing
  let imageExtensions ← setting? d "image_extensions" Value.texts? own.imageExtensions
  let linkExtension ← setting? d "link_extension" Value.text? own.linkExtension
  return { user, repo, siteUrl, shareUrl, shareText, historyLimit, pacing, imageExtensions,
           linkExtension }

/-- The configuration in a text. -/
def ofText (text : String) : Except Fault Config :=
  match (parse? text).bind ofDefinitions? with
  | some config => .ok config
  | none => .error .config

/-- The configuration in a file. -/
def ofFile : Held → Except Fault Config
  | .nothing => .error (.file .absent)
  | .bytes _ => .error (.file .undecodable)
  | .text text => ofText text

end Config

end TreeShell
