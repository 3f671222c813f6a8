import TreeShell.Proofs.Backend.Listing
import TreeShell.Proofs.Backend.Table

/-!
# A Tree in Object Storage

Object storage has no directories. A tree is put there by writing, under the prefix of each readable
directory, the raw names of its entries, with its access marks as flags. The build reads the marks
back, and forms the prefixes anew from the raw names it is given. So it comes to the same tree if
nothing is lost in a raw name, and if no two directories have the same prefix.

A name with a colon would be cut at the colon. A prefix is the joined path of its directory, and it
can be cut at the slashes again if no directory has a slash in its name. One more path could be
taken for another: a directory without a name in the root would have the root's own prefix. Further
down an empty name does no harm, since a slash stands before it. Denied directories and files have
no prefix, so their names may hold slashes or be empty.

## Main definitions

* `Dir.folderNames`: The names of the readable directories in a directory.
* `Dir.Shelvable`: Object storage can hold the tree without loss.
* `StorageEntry.written`: What is written down for a directory.

## Theorems

* `StorageEntry.sprout_encode_dir`, `StorageEntry.sprout_encode_leaf`: A raw name says what the
  entry was.
* `Node.listings_eq`: The listings are those of the directories.
* `Dir.Shelvable.nodup_keys`: No two of them have the same prefix.
* `Dir.unfolds_listings`: The recursive meaning of the listings is the tree.
* `MemoryContent.storageTree_ofStorage`: The build comes to the tree, asking once for each
  directory.
-/

namespace TreeShell

/-- The names of the readable directories in a directory. -/
def Dir.folderNames (d : Dir) : List String :=
  d.toList.filterMap fun e => match e.2 with
    | .dir _ => some e.1
    | _ => none

/-- Object storage can hold a tree without loss. -/
structure Dir.Shelvable (root : Dir) : Prop where
  distinct : root.Everywhere fun d => d.names.Nodup
  /-- No name holds the character that begins a flag. -/
  unflagged : root.Everywhere fun d => ∀ name ∈ d.names, ':' ∉ name.toList
  /-- The name of a readable directory is one piece of a prefix. -/
  uncut : root.Everywhere fun d => ∀ name ∈ d.folderNames, '/' ∉ name.toList
  /-- No readable directory has the prefix of the root. -/
  rooted : "" ∉ root.folderNames

theorem Dir.shelvable_iff (root : Dir) : root.Shelvable ↔
    (root.Everywhere fun d => d.names.Nodup) ∧
      (root.Everywhere fun d => ∀ name ∈ d.names, ':' ∉ name.toList) ∧
      (root.Everywhere fun d => ∀ name ∈ d.folderNames, '/' ∉ name.toList) ∧
      "" ∉ root.folderNames :=
  ⟨fun h => ⟨h.distinct, h.unflagged, h.uncut, h.rooted⟩, fun h => ⟨h.1, h.2.1, h.2.2.1, h.2.2.2⟩⟩

instance (root : Dir) : Decidable root.Shelvable := decidable_of_iff' _ root.shelvable_iff

theorem Dir.mem_folderNames_iff {d : Dir} {name : String} :
    name ∈ d.folderNames ↔ ∃ child, (name, .dir child) ∈ d.toList := by
  rw [folderNames, List.mem_filterMap]
  constructor
  · rintro ⟨⟨other, node⟩, hmem, hname⟩
    cases node with
    | dir child =>
        cases hname
        exact ⟨child, hmem⟩
    | denied => cases hname
    | file => cases hname
  · rintro ⟨child, hmem⟩
    exact ⟨_, hmem, rfl⟩

namespace StorageEntry

/-- What is written down for a directory below `under`: its entries, under its prefix. -/
def written (under : String) (place : List String × Dir) : String × List StorageEntry :=
  (place.1.foldl prefixBelow under, place.2.toList.map fun e => encode e.1 e.2)

section Encode

variable {name : String} (h : ':' ∉ name.toList)

include h

theorem split_flagged : Text.split ':' (name ++ ":") = [name, ""] := by
  have hjoined := Text.split_join ':' [name, ""] (List.cons_ne_nil _ _) (by simpa using h)
  rwa [String.intercalate_cons_cons, String.intercalate_singleton, String.append_empty] at hjoined

/-- The raw name of a readable directory is its name. -/
theorem sprout_encode_dir (under : String) (entries : Dir) :
    (encode name (.dir entries)).sprout under = .branch name (prefixBelow under name) := by
  simp only [encode, sprout, readable, StorageEntry.name, Text.split_of_notMem h]
  rfl

/-- Any other raw name says what the entry was. -/
theorem sprout_encode_leaf (under : String) {node : Node} (hnode : ∀ entries, node ≠ .dir entries) :
    (encode name node).sprout under = .leaf name node := by
  cases node with
  | dir entries => exact absurd rfl (hnode entries)
  | denied =>
      simp only [encode, sprout, readable, StorageEntry.name, StorageEntry.node, split_flagged h]
      rfl
  | file mark =>
      cases mark with
      | true =>
          simp only [encode, sprout, readable, StorageEntry.name, StorageEntry.node,
            Text.split_of_notMem h]
          rfl
      | false =>
          simp only [encode, sprout, readable, StorageEntry.name, StorageEntry.node,
            split_flagged h]
          rfl

theorem name_encode (node : Node) : (encode name node).name = name := by
  rw [← name_sprout ""]
  cases node with
  | dir entries => rw [sprout_encode_dir h]; rfl
  | denied => rw [sprout_encode_leaf h "" (fun _ he => by cases he)]; rfl
  | file => rw [sprout_encode_leaf h "" (fun _ he => by cases he)]; rfl

end Encode

end StorageEntry

open StorageEntry (prefixBelow written)

mutual

/-- The listings of a tree are those of its directories. -/
theorem Node.listings_eq : (node : Node) → (under : String) →
    node.listings under = node.census.map (written under)
  | .dir entries, under => congrArg (_ :: ·) (entries.listingsBelow_eq under)
  | .denied, _ => rfl
  | .file _, _ => rfl

theorem Dir.listingsBelow_eq : (d : Dir) → (under : String) →
    d.listingsBelow under = d.censusBelow.map (written under)
  | .empty, _ => rfl
  | .entry name node rest, under => by
      rw [Dir.listingsBelow, Dir.censusBelow, rest.listingsBelow_eq, node.listings_eq,
        List.map_append, List.map_map]
      rfl

end

section Unfolded

variable {list : String → Except Fault (List StorageEntry)}

/-- An entry that is no readable directory is a leaf of its level. -/
theorem Dir.unfolds_leaf {name : String} {node : Node} {rest : Dir} {under : String}
    (hname : ':' ∉ name.toList) (hnode : ∀ entries, node ≠ .dir entries)
    (after : Unfolds (StorageEntry.level list)
      (rest.toList.map fun e => (StorageEntry.encode e.1 e.2).sprout under)
      (rest.foldersBelow.map (List.foldl prefixBelow under)) (.ok rest)) :
    Unfolds (StorageEntry.level list)
      ((Dir.entry name node rest).toList.map fun e => (StorageEntry.encode e.1 e.2).sprout under)
      ((Dir.entry name node rest).foldersBelow.map (List.foldl prefixBelow under))
      (.ok (.entry name node rest)) := by
  have hfolders : node.folders = [] := by
    cases node with
    | dir entries => exact absurd rfl (hnode entries)
    | denied => rfl
    | file => rfl
  rw [toList_entry, List.map_cons, StorageEntry.sprout_encode_leaf hname under hnode, foldersBelow,
    hfolders, List.map_nil, List.append_nil]
  exact .leaf after node

/-- The recursive meaning of the listings of a directory is the directory, and the prefixes of the
    directories below are asked for in the order of `Dir.folders`. -/
theorem Dir.unfolds_listings : (d : Dir) → (under : String) →
    (∀ name ∈ d.names, ':' ∉ name.toList) →
    (d.Below fun inner => ∀ name ∈ inner.names, ':' ∉ name.toList) →
    (∀ e ∈ d.listingsBelow under, list e.1 = .ok e.2) →
    Unfolds (StorageEntry.level list)
      (d.toList.map fun e => (StorageEntry.encode e.1 e.2).sprout under)
      (d.foldersBelow.map (List.foldl prefixBelow under)) (.ok d)
  | .empty, _, _, _, _ => .nil
  | .entry name .denied rest, under, hnames, hbelow, hlist =>
      unfolds_leaf (hnames name List.mem_cons_self) (fun _ he => by cases he)
        (rest.unfolds_listings under (fun n hn => hnames n (List.mem_cons_of_mem _ hn)) hbelow.2
          (List.forall_mem_append.1 hlist).1)
  | .entry name (.file _) rest, under, hnames, hbelow, hlist =>
      unfolds_leaf (hnames name List.mem_cons_self) (fun _ he => by cases he)
        (rest.unfolds_listings under (fun n hn => hnames n (List.mem_cons_of_mem _ hn)) hbelow.2
          (List.forall_mem_append.1 hlist).1)
  | .entry name (.dir entries) rest, under, hnames, hbelow, hlist => by
      rw [listingsBelow, List.forall_mem_append] at hlist
      have hafter := rest.unfolds_listings under (fun n hn => hnames n (List.mem_cons_of_mem _ hn))
        hbelow.2 hlist.1
      have hinside := entries.unfolds_listings (prefixBelow under name) hbelow.1.1 hbelow.1.2
        (fun e he => hlist.2 e (List.mem_cons_of_mem _ he))
      -- The directory's own listing is the first of its table.
      have hlevel : StorageEntry.level list (prefixBelow under name) = .ok
          (entries.toList.map fun e =>
            (StorageEntry.encode e.1 e.2).sprout (prefixBelow under name)) := by
        refine levelOf_eq_ok_iff.2 ⟨_, hlist.2 _ List.mem_cons_self, ?_⟩
        rw [List.map_map]
        rfl
      rw [toList_entry, List.map_cons,
        StorageEntry.sprout_encode_dir (hnames name List.mem_cons_self), foldersBelow,
        List.map_append, List.map_map]
      exact .branch hafter hlevel hinside

end Unfolded

section Prefix

/-- Below a prefix that is not empty, further names are joined to it. -/
theorem StorageEntry.foldl_prefixBelow {under : String} (h : under ≠ "") (names : List String) :
    names.foldl prefixBelow under = Path.joined (under :: names) := by
  induction names generalizing under with
  | nil => exact String.intercalate_singleton.symm
  | cons name names ih =>
      -- One name further down the prefix is still not empty, whatever the name is.
      have hlonger : under ++ "/" ++ name ≠ "" := by
        rw [String.append_assoc]
        exact fun he => h (String.append_eq_empty_iff.1 he).1
      rw [List.foldl_cons, prefixBelow, if_neg h, ih hlonger]
      cases names with
      | nil => simp only [Path.joined, String.intercalate_cons_cons, String.intercalate_singleton]
      | cons other names =>
          simp only [Path.joined, String.intercalate_cons_cons, String.append_assoc]

/-- So the prefix of a directory is its joined path, unless the path begins without a name. -/
theorem StorageEntry.foldl_prefixBelow_root {names : List String} (h : names.head? ≠ some "") :
    names.foldl prefixBelow "" = Path.joined names := by
  cases names with
  | nil => rfl
  | cons name names =>
      rw [List.foldl_cons, prefixBelow, if_pos rfl]
      exact foldl_prefixBelow (fun he => h (congrArg some he)) names

/-- Paths of names without slashes can be told apart when they are joined, since they can be cut at
    the slashes again; but the path of one empty name would be joined like the root's. -/
theorem Path.joined_injective {p q : List String} (hp : ∀ s ∈ p, '/' ∉ s.toList)
    (hq : ∀ s ∈ q, '/' ∉ s.toList) (hp' : p.head? ≠ some "") (hq' : q.head? ≠ some "")
    (h : joined p = joined q) : p = q := by
  have hcut : ∀ names : List String, (∀ s ∈ names, '/' ∉ s.toList) → names ≠ [] →
      Text.split '/' (joined names) = names := fun names hnames hne =>
    Text.split_join '/' names hne hnames
  -- The root's own path is joined to an empty text, and that is cut into one empty name.
  have hroot : Text.split '/' (joined []) = [""] := rfl
  by_cases hpe : p = []
  · by_cases hqe : q = []
    · rw [hpe, hqe]
    · rw [hpe] at h
      rw [h, hcut q hq hqe] at hroot
      rw [hroot] at hq'
      exact absurd rfl hq'
  · by_cases hqe : q = []
    · rw [hqe] at h
      rw [← h, hcut p hp hpe] at hroot
      rw [hroot] at hp'
      exact absurd rfl hp'
    · rw [← hcut p hp hpe, h, hcut q hq hqe]

end Prefix

namespace Dir

/-- What keeps slashes out of the names of directories keeps them out of the paths to them. -/
theorem slash_notMem_of_mem_folders {root : Dir} {path : List String}
    (h : root.Everywhere fun d => ∀ name ∈ d.folderNames, '/' ∉ name.toList)
    (hpath : path ∈ root.folders) : ∀ s ∈ path, '/' ∉ s.toList := by
  induction path generalizing root with
  | nil => nofun
  | cons name rest ih =>
      rcases cons_mem_folders_iff.1 hpath with ⟨child, hmem, hrest⟩
      intro s hs
      rcases List.mem_cons.1 hs with rfl | hs
      · exact h.1 s (mem_folderNames_iff.2 ⟨child, hmem⟩)
      · exact ih ((below_iff root).1 h.2 _ hmem) hrest s hs

namespace Shelvable

variable {root : Dir} (h : root.Shelvable)

include h

theorem head?_ne {path : List String} (hpath : path ∈ root.folders) : path.head? ≠ some "" := by
  cases path with
  | nil => nofun
  | cons name rest =>
      rcases cons_mem_folders_iff.1 hpath with ⟨child, hmem, _⟩
      intro hname
      exact h.rooted (mem_folderNames_iff.2 ⟨child, Option.some.inj hname ▸ hmem⟩)

/-- The prefix of a directory is its joined path. -/
theorem prefix_eq {path : List String} (hpath : path ∈ root.folders) :
    path.foldl prefixBelow "" = Path.joined path :=
  StorageEntry.foldl_prefixBelow_root (h.head?_ne hpath)

/-- No two directories have the same prefix. -/
theorem nodup_keys : (root.listings.map Prod.fst).Nodup := by
  have hkeys : root.listings.map Prod.fst = root.folders.map Path.joined := by
    rw [listings, Node.listings_eq, folders, Node.folders_eq, List.map_map, List.map_map]
    refine List.map_congr_left fun place hplace => h.prefix_eq ?_
    rw [folders, Node.folders_eq]
    exact List.mem_map_of_mem hplace
  rw [hkeys]
  refine List.Nodup.map_on (fun p hp q hq hjoined => ?_) (nodup_folders h.distinct)
  exact Path.joined_injective (slash_notMem_of_mem_folders h.uncut hp)
    (slash_notMem_of_mem_folders h.uncut hq) (h.head?_ne hp) (h.head?_ne hq) hjoined

/-- So each listing is found under its prefix, and no other is. -/
theorem get_eq_ok_iff {key : String} {entries : List StorageEntry} :
    MemoryContent.get "listing" root.listings key = .ok entries ↔
      (key, entries) ∈ root.listings := by
  rw [MemoryContent.get_eq_ok_iff, Table.lookup_eq_some_iff h.nodup_keys]

/-- The recursive meaning of the listings is the tree. -/
theorem unfoldsFrom :
    UnfoldsFrom (StorageEntry.level (MemoryContent.get "listing" root.listings)) ""
      (root.folders.map (List.foldl prefixBelow "")) (.ok root) := by
  have hinside := root.unfolds_listings "" h.unflagged.1 h.unflagged.2
    fun e he => h.get_eq_ok_iff.2 (List.mem_cons_of_mem _ he)
  refine .listed (levelOf_eq_ok_iff.2 ⟨_, h.get_eq_ok_iff.2 List.mem_cons_self, ?_⟩) hinside
  rw [List.map_map]
  rfl

/-- The names in each listing are distinct. -/
theorem nodup_level {key : String} {sprouts : List (Sprout String)}
    (hlevel : StorageEntry.level (MemoryContent.get "listing" root.listings) key = .ok sprouts) :
    (sprouts.map Sprout.name).Nodup := by
  rcases levelOf_eq_ok_iff.1 hlevel with ⟨entries, hentries, rfl⟩
  have hmem := h.get_eq_ok_iff.1 hentries
  rw [listings, Node.listings_eq, List.mem_map] at hmem
  rcases hmem with ⟨place, hplace, hwritten⟩
  have hplain := (Node.everywhere_iff_census _).1 h.unflagged place hplace
  have hnames : place.2.names = (entries.map (StorageEntry.sprout key)).map Sprout.name := by
    rw [← (Prod.mk.inj hwritten).2, List.map_map, List.map_map, names]
    refine List.map_congr_left fun e he => ?_
    exact ((StorageEntry.name_sprout key _).trans
      (StorageEntry.name_encode (hplain e.1 (List.mem_map_of_mem he)) e.2)).symm
  rw [← hnames]
  exact (Node.everywhere_iff_census _).1 h.distinct place hplace

end Shelvable

end Dir

namespace MemoryContent

/-- A provider held in memory answers with its listings, whatever it was asked before. -/
theorem follows (m : MemoryContent) (past : List Request) (asked : List String) :
    m.provider.Follows (get "listing" m.listings) past asked := by
  induction asked generalizing past with
  | nil => trivial
  | cons under later ih => exact ⟨rfl, ih _⟩

/-- What the build makes of the listings that stand for a tree is the tree, with the order of its
    entries and all its access marks. It asks once for each readable directory, by its joined path,
    and for nothing else. -/
theorem storageTree_ofStorage {root : Dir} (h : root.Shelvable) (traffic : Traffic) :
    ∃ last, (ofStorage root).provider.storageTree traffic = some (.ok root, last) ∧
      ∃ places : List (List String), places.Nodup ∧
        (∀ segments, segments ∈ places ↔ ∃ entries, root.dirAt? segments = some entries) ∧
        last.requests =
          traffic.requests ++ places.map fun segments => .listing (Path.joined segments) := by
  have hasked : root.folders.map (List.foldl prefixBelow "") = root.folders.map Path.joined :=
    List.map_congr_left fun path hpath => h.prefix_eq hpath
  have hunfolds := hasked ▸ h.unfoldsFrom
  rcases ((ofStorage root).follows traffic.requests (root.folders.map Path.joined)).answers with
    ⟨last, hlast, hanswers⟩
  have hgrown := grow_unfoldsFrom hunfolds
    (fun _ _ hmem => h.nodup_level (gives_of_told hmem)) hanswers
  refine ⟨last, hgrown, root.folders, Dir.nodup_folders h.distinct,
    fun _ => Dir.mem_folders_iff h.distinct, ?_⟩
  rw [List.map_map] at hlast
  exact hlast

/-- A directory without a name below another one, a file and a denied directory with slashes in
    their names, and prefixes that begin alike. -/
theorem storageTree_ofStorage_odd_names :
    let inner : Dir := .ofList [("", .dir (.ofList [("b", .file true)])), ("b", .dir .empty)]
    let root : Dir := .ofList [("a", .dir inner), ("a/b", .file false), ("/", .denied)]
    root.Shelvable ∧ ∃ last, (ofStorage root).provider.storageTree {} = some (.ok root, last) ∧
      ∃ places : List (List String), places.Nodup ∧
        (∀ segments, segments ∈ places ↔ ∃ entries, root.dirAt? segments = some entries) ∧
        last.requests = places.map fun segments => .listing (Path.joined segments) := by
  intro inner root
  have h : root.Shelvable := by decide
  exact ⟨h, storageTree_ofStorage h {}⟩

end MemoryContent

end TreeShell
