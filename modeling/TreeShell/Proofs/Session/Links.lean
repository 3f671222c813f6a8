import TreeShell.Proofs.Session.SignIn
import TreeShell.Proofs.Text.Query

/-!
# What the Links Carry

Two links lead out of the shell. One is sent to whoever signs in, and leads back to the directory in
which the sign-in was begun; the other shares a path. Both have a text in their query that anybody
may write, namely the names in a path, which come from the backends and may hold whatever is not a
slash. A name that is read as more than itself could give the link another command.

All parameters are encoded but the paths, which are written as they are printed. So a link carries
its parameters exactly if the names in its path are harmless (`Session.links_carry_iff`). With any
other name the link is sent all the same. Then the path is not what is read, and behind an ampersand
in it there are parameters that the path has brought along. In the link of a sign-in they come
before the command and the token, which are always the last two.

## Main definitions

* `Config.PlainUrls`: The addresses in the configuration have no query of their own.
* `Session.Shares`: The line shares a path.

## Theorems

* `Account.parameters_loginLink`, `parameters_shareLink`: What is read in the two links.
* `Account.carries_loginLink_iff`, `carries_shareLink_iff`: When it is what was meant.
* `Session.sent_run`, `Session.shared_run`: The links that lines give.
* `Session.links_carry_iff`: Which of them carry their parameters.
* `Session.links_overridden`: A directory that brings a command along.
-/

namespace TreeShell

/-- The two addresses that links begin with have nothing in them that means something in a query. -/
def Config.PlainUrls (config : Config) : Prop :=
  ∀ c ∈ ['?', '&', '#', '%', '+'], c ∉ config.siteUrl.toList ∧ c ∉ config.shareUrl.toList

instance (config : Config) : Decidable config.PlainUrls :=
  List.decidableBAll _ _

/-- A token has 64 letters and digits. -/
theorem Tokens.draw_token (t : Tokens) :
    t.draw.1.length = 64 ∧ ∀ c ∈ t.draw.1.toList, c.isAlphanum = true := by
  have hletters : ∀ i, (letter i).isAlphanum = true := by decide
  rw [draw, String.length_ofList, List.length_map, List.length_range, String.toList_ofList,
    List.forall_mem_map]
  exact ⟨rfl, fun _ _ => hletters _⟩

theorem Query.harmless_of_isAlphanum {s : String} (h : ∀ c ∈ s.toList, c.isAlphanum = true) :
    Harmless s := by
  refine harmless_of_notMem (fun hmem => ?_) (fun hmem => ?_)
  · exact absurd (h _ hmem) (by decide)
  · exact absurd (h _ hmem) (by decide)

section Links

variable {config : Config} (h : config.PlainUrls)

include h

theorem Account.parameters_loginLink (cwd : Path) {token : String} (htoken : Query.Harmless token) :
    Query.parameters (loginLink config cwd token) =
      Query.read ("path".toList ++ '=' :: cwd.text.toList) ++
        [(Text.utf8 "cmd", Text.utf8 "taso-cli login"), (Text.utf8 "token", Text.utf8 token)] := by
  have hlink : (loginLink config cwd token).toList = config.siteUrl.toList ++ '?' ::
      (("path".toList ++ '=' :: cwd.text.toList) ++ '&' ::
        (("cmd".toList ++ '=' :: (Text.percentEncode "taso-cli login").toList) ++ '&' ::
          ("token".toList ++ '=' :: token.toList))) := by
    have hcommand : name ++ " login" = "taso-cli login" := by decide
    rw [loginLink, hcommand]
    generalize Text.percentEncode "taso-cli login" = command
    simp only [String.toList_append, List.append_assoc]
    rfl
  have hsite : '?' ∉ config.siteUrl.toList := (h '?' (by decide)).1
  rw [Query.parameters, hlink, Query.cut_append_cons hsite, Query.read_append, Query.read_append,
    Query.read_encoded (by decide), (Query.read_value_iff (by decide) token).2 htoken]
  rfl

theorem parameters_shareLink (path : Path) :
    Query.parameters (shareLink config path) = (Text.utf8 "text", Text.utf8 config.shareText) ::
      Query.read ("url".toList ++ '=' :: (config.siteUrl ++ path.text).toList) := by
  have hlink : (shareLink config path).toList = config.shareUrl.toList ++ '?' ::
      (("text".toList ++ '=' :: (Text.percentEncode config.shareText).toList) ++ '&' ::
        ("url".toList ++ '=' :: (config.siteUrl ++ path.text).toList)) := by
    rw [shareLink]
    generalize Text.percentEncode config.shareText = text
    simp only [String.toList_append, List.append_assoc]
    rfl
  have hshare : '?' ∉ config.shareUrl.toList := (h '?' (by decide)).2
  rw [Query.parameters, hlink, Query.cut_append_cons hshare, Query.read_append,
    Query.read_encoded (by decide)]
  rfl

/-- The link of a sign-in carries its parameters exactly if the names in its path are harmless. -/
theorem Account.carries_loginLink_iff (cwd : Path) {token : String}
    (htoken : Query.Harmless token) :
    Query.Carries (loginLink config cwd token)
        [("path", cwd.text), ("cmd", "taso-cli login"), ("token", token)] ↔
      ∀ name ∈ cwd.segments, Query.Harmless name := by
  have hname : '&' ∉ "path".toList ∧ '=' ∉ "path".toList ∧ '%' ∉ "path".toList := by decide
  have hexpected : [("path", cwd.text), ("cmd", "taso-cli login"), ("token", token)].map
      (fun p => (Text.utf8 p.1, Text.utf8 p.2)) = [(Text.utf8 "path", Text.utf8 cwd.text)] ++
        [(Text.utf8 "cmd", Text.utf8 "taso-cli login"), (Text.utf8 "token", Text.utf8 token)] := rfl
  rw [← Query.harmless_text_iff, ← Query.read_value_iff hname, Query.Carries,
    parameters_loginLink h cwd htoken, hexpected]
  exact List.append_left_inj _

/-- So does a link that shares a path. -/
theorem carries_shareLink_iff (path : Path) :
    Query.Carries (shareLink config path)
        [("text", config.shareText), ("url", config.siteUrl ++ path.text)] ↔
      ∀ name ∈ path.segments, Query.Harmless name := by
  have hsite (c : Char) (hc : c ∈ ['?', '&', '#', '%', '+']) : c ∉ config.siteUrl.toList :=
    (h c hc).1
  have hname : '&' ∉ "url".toList ∧ '=' ∉ "url".toList ∧ '%' ∉ "url".toList := by decide
  rw [← Query.harmless_text_iff, ← Query.harmless_append_iff (hsite '&' (by decide))
    (hsite '%' (by decide)), ← Query.read_value_iff hname, Query.Carries,
    parameters_shareLink h path]
  exact ⟨fun hcons => (List.cons.inj hcons).2, fun htail => congrArg _ htail⟩

end Links

namespace Session

/-- The line shares a path: the working directory, or something that exists. -/
def Shares (s : Session) (line : String) (path : Path) : Prop :=
  words line = ["share"] ∧ path = s.cwd ∨
    ∃ operand node, words line = ["share", operand] ∧ isOption operand = false ∧
      s.tree.resolve s.cwd s.home operand = ⟨some node, path⟩

section Line

variable {s : Session} (h : s.registry = .builtin) {line : String}

include h

/-- Where nobody is signed in and the service does not refuse, a link is sent. -/
theorem sent_run {address : String} (hline : words line = ["taso-cli", "login", "--email", address])
    (hnobody : s.accounts.signedIn = none) (hsend : s.accounts.sendFault = none) :
    (s.run line).2.accounts.sent =
      s.accounts.sent ++ [(address, Account.loginLink s.config s.cwd s.tokens.draw.1)] := by
  have haccounts : s.environment.accounts = s.accounts := by rw [environment]
  have hgate : Command.account.refusal? ["login", "--email", address] = none := rfl
  rw [run_accounts, h, Registry.execute, hline,
    Registry.dispatch_accepted (c := .account) rfl hgate]
  simp only [Command.account, Account.login, CommandM.outcome_bind, CommandM.outcome_get, haccounts,
    hnobody, CommandM.outcome_modifyGet, CommandM.outcome_account, Accounts.sendLink, hsend]
  rfl

/-- A line that shares a path gives its link. -/
theorem shared_run {path : Path} (hshares : s.Shares line path) :
    (s.run line).1 = .url (shareLink s.config path) := by
  rw [run_output, h, Registry.execute]
  rcases hshares with ⟨hline, rfl⟩ | ⟨operand, node, hline, hoption, hfound⟩
  · rw [hline, Registry.dispatch_accepted (c := .share) rfl rfl]
    rfl
  · have hgate : Command.share.refusal? [operand] = none :=
      Command.refusal?_eq_none_iff.2 ⟨Nat.zero_le _, Nat.le_refl _, .inr (by simpa using hoption)⟩
    have hfound : s.environment.tree.resolve s.environment.cwd s.environment.home operand =
        ⟨some node, path⟩ := hfound
    rw [hline, Registry.dispatch_accepted (c := .share) rfl hgate]
    simp only [Command.share, CommandM.outcome_bind, CommandM.outcome_locate, hfound]
    rfl

end Line

/-- The links of the shell carry their parameters exactly where no name in the path has an
    ampersand or an escape. This is so for the link of a sign-in, which is sent to the address where
    nobody is signed in and the service does not refuse, with a new token; whatever the names are,
    the command and the token are its last two parameters. And it is so for each link that shares a
    path. -/
theorem links_carry_iff {s : Session} (h : s.registry = .builtin) (hurls : s.config.PlainUrls)
    (line : String) :
    (∀ address, words line = ["taso-cli", "login", "--email", address] →
      s.accounts.signedIn = none → s.accounts.sendFault = none → ∃ link token,
        (s.run line).2.accounts.sent = s.accounts.sent ++ [(address, link)] ∧
        token.length = 64 ∧ (∀ c ∈ token.toList, c.isAlphanum = true) ∧
        (∃ before, Query.parameters link = before ++
          [(Text.utf8 "cmd", Text.utf8 "taso-cli login"), (Text.utf8 "token", Text.utf8 token)]) ∧
        (Query.Carries link
            [("path", s.cwd.text), ("cmd", "taso-cli login"), ("token", token)] ↔
          ∀ name ∈ s.cwd.segments, Query.Harmless name)) ∧
    ∀ path, s.Shares line path → ∃ link, (s.run line).1 = .url link ∧
      (Query.Carries link
          [("text", s.config.shareText), ("url", s.config.siteUrl ++ path.text)] ↔
        ∀ name ∈ path.segments, Query.Harmless name) := by
  constructor
  · intro address hline hnobody hsend
    obtain ⟨hlength, hletters⟩ := s.tokens.draw_token
    have hharmless := Query.harmless_of_isAlphanum hletters
    exact ⟨_, _, sent_run h hline hnobody hsend, hlength, hletters,
      ⟨_, Account.parameters_loginLink hurls s.cwd hharmless⟩,
      Account.carries_loginLink_iff hurls s.cwd hharmless⟩
  · intro path hshares
    exact ⟨_, shared_run h hshares, carries_shareLink_iff hurls path⟩

/-- A session of nobody, over a tree in which one directory is named like the end of a link. -/
def lured : Session :=
  let home := Dir.ofList [("x&cmd=taso-cli%20logout", .dir .empty), ("docs", .dir .empty)]
  let tree := Dir.ofList [("home", .dir (.ofList [("u", .dir home)]))]
  overTree { demoSetup .empty with accounts := {} } tree

/-- At home, and from another directory, the links carry what they should. -/
theorem links_carry_iff_home :
    lured.config.PlainUrls ∧ lured.Shares "share docs" ⟨["home", "u", "docs"]⟩ ∧
      (∃ link token, (lured.run "taso-cli login --email a@u").2.accounts.sent = [("a@u", link)] ∧
        token.length = 64 ∧ Query.Carries link
          [("path", "/home/u"), ("cmd", "taso-cli login"), ("token", token)]) ∧
      ∃ link, (lured.run "share docs").1 = .url link ∧ Query.Carries link
        [("text", "taso-cli"), ("url", "https://cli.taso.tech/home/u/docs")] := by
  have hurls : lured.config.PlainUrls := by decide
  have hshares : lured.Shares "share docs" ⟨["home", "u", "docs"]⟩ :=
    .inr ⟨"docs", .dir .empty, by decide, by decide, by rfl⟩
  have hplain : ∀ name ∈ ["home", "u", "docs"], Query.Harmless name := by
    have hletters : ∀ name ∈ ["home", "u", "docs"], '&' ∉ name.toList ∧ '%' ∉ name.toList := by
      decide
    exact fun name hname =>
      Query.harmless_of_notMem (hletters name hname).1 (hletters name hname).2
  obtain ⟨link, token, hsent, hlength, _, _, hcarries⟩ :=
    (links_carry_iff rfl hurls "taso-cli login --email a@u").1 "a@u" (by decide) rfl rfl
  obtain ⟨shared, hshared, hcarriesShared⟩ := (links_carry_iff rfl hurls "share docs").2 _ hshares
  refine ⟨hurls, hshares, ⟨link, token, hsent, hlength, hcarries.2 fun name hname => ?_⟩,
    shared, hshared, hcarriesShared.2 hplain⟩
  exact hplain name (List.mem_append_left ["docs"] hname)

/-- In the other directory the link of a sign-in is read with two commands, the first of which is
    the directory's, and with a path that is not the working directory. What is shared from there is
    cut in the same way. -/
theorem links_overridden :
    let s := (lured.run "cd x&cmd=taso-cli%20logout").2
    let link := Account.loginLink s.config s.cwd s.tokens.draw.1
    let shared := shareLink s.config s.cwd
    s.config.PlainUrls ∧ s.cwd.text = "/home/u/x&cmd=taso-cli%20logout" ∧
      (s.run "taso-cli login --email a@u").2.accounts.sent = [("a@u", link)] ∧
      Query.parameters link = [(Text.utf8 "path", Text.utf8 "/home/u/x"),
        (Text.utf8 "cmd", Text.utf8 "taso-cli logout"),
        (Text.utf8 "cmd", Text.utf8 "taso-cli login"),
        (Text.utf8 "token", Text.utf8 s.tokens.draw.1)] ∧
      (∀ token, ¬Query.Carries link
        [("path", s.cwd.text), ("cmd", "taso-cli login"), ("token", token)]) ∧
      (s.run "share").1 = .url shared ∧
      ¬Query.Carries shared
        [("text", s.config.shareText), ("url", s.config.siteUrl ++ s.cwd.text)] := by
  intro s link shared
  have hread : Query.parameters link = [(Text.utf8 "path", Text.utf8 "/home/u/x"),
      (Text.utf8 "cmd", Text.utf8 "taso-cli logout"),
      (Text.utf8 "cmd", Text.utf8 "taso-cli login"),
      (Text.utf8 "token", Text.utf8 s.tokens.draw.1)] := by decide +kernel
  have hregistry : s.registry = .builtin := (lured.sameSetting_run _).registry
  refine ⟨by decide +kernel, by decide +kernel, by decide +kernel, hread, fun token hcarries => ?_,
    shared_run hregistry (.inl ⟨by decide, rfl⟩), ?_⟩
  · rw [Query.Carries, hread] at hcarries
    exact absurd (congrArg List.length hcarries) (by simp)
  · have hread : Query.parameters shared ≠ [("text", s.config.shareText),
        ("url", s.config.siteUrl ++ s.cwd.text)].map fun p => (Text.utf8 p.1, Text.utf8 p.2) := by
      decide +kernel
    exact hread

end Session

end TreeShell
