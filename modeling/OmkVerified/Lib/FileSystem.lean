import Mathlib

/-!
# File systems with symbolic links

A tree of directories whose entries are directories, files and symbolic links, and the walk along a
path as an operating system takes it: `.` and `..` count from where the walk stands, and a link is
replaced by its target. A path names the file that the walk ends at, or the one that would be made
there.
-/

namespace Lib

namespace FileSystem

/-- The names from the root to an entry. -/
abbrev Location (Name : Type) := List Name

inductive Segment (Name : Type)
  | here
  | up
  | name (name : Name)

/-- What a symbolic link says. -/
structure LinkTarget (Name : Type) where
  absolute : Bool
  segments : List (Segment Name)

inductive Node (Name : Type)
  | directory (searchable : Bool)
  | file
  | link (target : LinkTarget Name)

inductive WalkError
  | notDirectory
  | denied
  | tooManyLinks
deriving DecidableEq

/-- Where a walk ends. -/
inductive Outcome (Name : Type)
  /-- With the number of links that may still be followed. -/
  | found (location : Location Name) (links : Nat)
  /-- There is no entry at the location, which `rest` should go on from. -/
  | missing (location : Location Name) (rest : List (Segment Name))
  | failed (error : WalkError)

end FileSystem

open FileSystem in
/-- What is at each location. -/
structure FileSystem (Name : Type) where
  node : Location Name → Option (Node Name)
  root_directory : ∃ searchable, node [] = some (.directory searchable)
  parent_directory : ∀ location name, node (location ++ [name]) ≠ none →
    ∃ searchable, node location = some (.directory searchable)

namespace FileSystem

variable {Name : Type} (fs : FileSystem Name)

/-- One segment is taken without a look at the file system. -/
def Segment.resolve (location : Location Name) : Segment Name → Location Name
  | .here => location
  | .up => location.dropLast
  | .name entry => location ++ [entry]

def LinkTarget.start (target : LinkTarget Name) (location : Location Name) : Location Name :=
  if target.absolute then [] else location

/-! ## Walks -/

/-- The walk up to the first link; `follow` goes on behind it. -/
def walkWith (links : Nat) (follow : Location Name → List (Segment Name) → Outcome Name) :
    Location Name → List (Segment Name) → Outcome Name
  | location, [] => .found location links
  | location, segment :: rest =>
    match fs.node location with
    | some (.directory true) =>
      match segment with
      | .here => walkWith links follow location rest
      | .up => walkWith links follow location.dropLast rest
      | .name name =>
        match fs.node (location ++ [name]) with
        | none => .missing (location ++ [name]) rest
        | some (.link target) => follow (target.start location) (target.segments ++ rest)
        | some _ => walkWith links follow (location ++ [name]) rest
    | some (.directory false) => .failed .denied
    | _ => .failed .notDirectory

/-- The walk that follows at most `links` links. -/
def walk : (links : Nat) → Location Name → List (Segment Name) → Outcome Name
  | 0 => fs.walkWith 0 fun _ _ => .failed .tooManyLinks
  | links + 1 => fs.walkWith (links + 1) (walk links)

/-- What happens at a link. -/
def follow : (links : Nat) → Location Name → List (Segment Name) → Outcome Name
  | 0 => fun _ _ => .failed .tooManyLinks
  | links + 1 => fs.walk links

theorem walk_eq (links : Nat) : fs.walk links = fs.walkWith links (fs.follow links) := by
  cases links <;> rfl

/-- The walk along the names of an absolute path. -/
def lookup (links : Nat) (path : Location Name) : Outcome Name := fs.walk links [] (path.map .name)

/-- There is something other than a link at the location. -/
def Entry (location : Location Name) : Prop :=
  (∃ searchable, fs.node location = some (.directory searchable)) ∨ fs.node location = some .file

variable {fs}

section Steps

variable {links : Nat} {location : Location Name} {rest : List (Segment Name)}

@[simp] theorem walk_nil : fs.walk links location [] = .found location links := by
  rw [walk_eq, walkWith]

@[simp] theorem lookup_nil : fs.lookup links [] = .found [] links := walk_nil

theorem walk_cons (segment : Segment Name) :
    fs.walk links location (segment :: rest) =
      match fs.node location with
      | some (.directory true) =>
        match segment with
        | .here => fs.walk links location rest
        | .up => fs.walk links location.dropLast rest
        | .name name =>
          match fs.node (location ++ [name]) with
          | none => .missing (location ++ [name]) rest
          | some (.link target) => fs.follow links (target.start location) (target.segments ++ rest)
          | some _ => fs.walk links (location ++ [name]) rest
      | some (.directory false) => .failed .denied
      | _ => .failed .notDirectory := by
  simp only [walk_eq]
  rfl

theorem walk_denied (h : fs.node location = some (.directory false)) (segment : Segment Name) :
    fs.walk links location (segment :: rest) = .failed .denied := by
  rw [walk_cons, h]

theorem walk_notDirectory (h : ∀ searchable, fs.node location ≠ some (.directory searchable))
    (segment : Segment Name) :
    fs.walk links location (segment :: rest) = .failed .notDirectory := by
  rw [walk_cons]
  split
  · next heq => exact absurd heq (h true)
  · next heq => exact absurd heq (h false)
  · rfl

variable (h : fs.node location = some (.directory true))
include h

theorem walk_here : fs.walk links location (.here :: rest) = fs.walk links location rest := by
  rw [walk_cons, h]

theorem walk_up : fs.walk links location (.up :: rest) = fs.walk links location.dropLast rest := by
  rw [walk_cons, h]

theorem walk_none {name : Name} (hn : fs.node (location ++ [name]) = none) :
    fs.walk links location (.name name :: rest) = .missing (location ++ [name]) rest := by
  rw [walk_cons, h]
  simp only [hn]

theorem walk_link {name : Name} {target : LinkTarget Name}
    (hn : fs.node (location ++ [name]) = some (.link target)) :
    fs.walk links location (.name name :: rest) =
      fs.follow links (target.start location) (target.segments ++ rest) := by
  rw [walk_cons, h]
  simp only [hn]

theorem walk_entry {name : Name} (hn : fs.Entry (location ++ [name])) :
    fs.walk links location (.name name :: rest) = fs.walk links (location ++ [name]) rest := by
  rw [walk_cons, h]
  rcases hn with ⟨searchable, hn⟩ | hn <;> simp only [hn]

end Steps

/-- The cases of a step: what the walk stands on, the segment, and the entry of that name. -/
theorem walk_cases (links : Nat) (location : Location Name) (segment : Segment Name) :
    (∃ error, ∀ rest, fs.walk links location (segment :: rest) = .failed error) ∨
      (fs.node location = some (.directory true) ∧
        ((segment = .here ∧
            ∀ rest, fs.walk links location (segment :: rest) = fs.walk links location rest) ∨
          (segment = .up ∧
            ∀ rest, fs.walk links location (segment :: rest) = fs.walk links location.dropLast rest) ∨
          ∃ name, segment = .name name ∧
            ((fs.node (location ++ [name]) = none ∧
                ∀ rest, fs.walk links location (segment :: rest) = .missing (location ++ [name]) rest) ∨
              (∃ target, fs.node (location ++ [name]) = some (.link target) ∧
                ∀ rest, fs.walk links location (segment :: rest) =
                  fs.follow links (target.start location) (target.segments ++ rest)) ∨
              (fs.Entry (location ++ [name]) ∧
                ∀ rest, fs.walk links location (segment :: rest) =
                  fs.walk links (location ++ [name]) rest)))) := by
  by_cases hdir : ∃ searchable, fs.node location = some (.directory searchable)
  · obtain ⟨_ | _, h⟩ := hdir
    · exact .inl ⟨.denied, fun rest => walk_denied h segment⟩
    · refine .inr ⟨h, ?_⟩
      cases segment with
      | here => exact .inl ⟨rfl, fun rest => walk_here h⟩
      | up => exact .inr (.inl ⟨rfl, fun rest => walk_up h⟩)
      | name name =>
        refine .inr (.inr ⟨name, rfl, ?_⟩)
        cases hn : fs.node (location ++ [name]) with
        | none => exact .inl ⟨rfl, fun rest => walk_none h hn⟩
        | some node =>
          cases node with
          | directory searchable =>
            have hentry : fs.Entry (location ++ [name]) := .inl ⟨searchable, hn⟩
            exact .inr (.inr ⟨hentry, fun rest => walk_entry h hentry⟩)
          | file =>
            have hentry : fs.Entry (location ++ [name]) := .inr hn
            exact .inr (.inr ⟨hentry, fun rest => walk_entry h hentry⟩)
          | link target => exact .inr (.inl ⟨target, rfl, fun rest => walk_link h hn⟩)
  · push Not at hdir
    exact .inl ⟨.notDirectory, fun rest => walk_notDirectory hdir segment⟩

/-- What a walk comes to when the path goes on with `rest`. -/
def Outcome.andThen (fs : FileSystem Name) (rest : List (Segment Name)) : Outcome Name → Outcome Name
  | .found location links => fs.walk links location rest
  | .missing location missed => .missing location (missed ++ rest)
  | .failed error => .failed error

/-- Every step of a walk leaves either fewer segments or fewer links. -/
theorem walk_induction {P : Nat → Location Name → List (Segment Name) → Prop}
    (nil : ∀ links location, P links location [])
    (cons : ∀ links location segment rest, (∀ location, P links location rest) →
      (∀ fewer < links, ∀ location segments, P fewer location segments) →
      P links location (segment :: rest))
    (links : Nat) (location : Location Name) (segments : List (Segment Name)) :
    P links location segments := by
  induction links using Nat.strong_induction_on generalizing location segments with
  | _ links ihl =>
    induction segments generalizing location with
    | nil => exact nil links location
    | cons segment rest ih =>
      apply cons links location segment rest ih
      intro fewer hfewer location segments
      exact ihl fewer hfewer location segments

theorem walk_append (links : Nat) (location : Location Name) (front rest : List (Segment Name)) :
    fs.walk links location (front ++ rest) = (fs.walk links location front).andThen fs rest := by
  induction links, location, front using walk_induction with
  | nil links location => simp [Outcome.andThen]
  | cons links location segment front ih ihl =>
    rw [List.cons_append]
    rcases walk_cases links location segment with
      ⟨error, h⟩ | ⟨-, ⟨-, h⟩ | ⟨-, h⟩ | ⟨name, rfl, ⟨-, h⟩ | ⟨target, -, h⟩ | ⟨-, h⟩⟩⟩
    · rw [h, h]; rfl
    · rw [h, h, ih]
    · rw [h, h, ih]
    · rw [h, h]; rfl
    · rw [h, h, ← List.append_assoc]
      cases links with
      | zero => rfl
      | succ links => exact ihl links (Nat.lt_succ_self links) _ _
    · rw [h, h, ih]

/-! ## Where a walk ends -/

theorem Entry.dropLast {location : Location Name} {searchable : Bool}
    (h : fs.node location = some (.directory searchable)) : fs.Entry location.dropLast := by
  rcases List.eq_nil_or_concat location with rfl | ⟨parent, name, rfl⟩
  · exact .inl ⟨searchable, h⟩
  · have hne : fs.node (parent ++ [name]) ≠ none := by
      rw [← List.concat_eq_append, h]
      exact Option.some_ne_none _
    rw [List.concat_eq_append, List.dropLast_concat]
    exact .inl (fs.parent_directory parent name hne)

theorem entry_root : fs.Entry [] := .inl fs.root_directory

theorem Entry.ne_link {location : Location Name} (h : fs.Entry location) (target : LinkTarget Name) :
    fs.node location ≠ some (.link target) := by
  rcases h with ⟨searchable, h⟩ | h <;> rw [h] <;> simp

/-- What a walk finds is never a link. -/
theorem walk_found {links left : Nat} {location reached : Location Name}
    {segments : List (Segment Name)} (hentry : fs.Entry location)
    (hwalk : fs.walk links location segments = .found reached left) : fs.Entry reached := by
  induction links, location, segments using walk_induction with
  | nil links location =>
    rw [walk_nil, Outcome.found.injEq] at hwalk
    exact hwalk.1 ▸ hentry
  | cons links location segment rest ih ihl =>
    rcases walk_cases links location segment with
      ⟨error, h⟩ | ⟨hdir, ⟨-, h⟩ | ⟨-, h⟩ | ⟨name, rfl, ⟨-, h⟩ | ⟨target, -, h⟩ | ⟨hnext, h⟩⟩⟩
    · rw [h] at hwalk; cases hwalk
    · rw [h] at hwalk; exact ih _ hentry hwalk
    · rw [h] at hwalk; exact ih _ (Entry.dropLast hdir) hwalk
    · rw [h] at hwalk; cases hwalk
    · rw [h] at hwalk
      cases links with
      | zero => cases hwalk
      | succ links =>
        have hstart : fs.Entry (target.start location) := by
          unfold LinkTarget.start
          split_ifs
          · exact entry_root
          · exact hentry
        exact ihl links (Nat.lt_succ_self links) _ _ hstart hwalk
    · rw [h] at hwalk; exact ih _ hnext hwalk

/-- A walk that misses an entry has come to the directory where it would be. -/
theorem walk_missing {links : Nat} {location missed : Location Name}
    {segments rest : List (Segment Name)}
    (hwalk : fs.walk links location segments = .missing missed rest) :
    fs.node missed = none ∧
      ∃ parent name, missed = parent ++ [name] ∧ fs.node parent = some (.directory true) := by
  induction links, location, segments using walk_induction with
  | nil links location => rw [walk_nil] at hwalk; cases hwalk
  | cons links location segment front ih ihl =>
    rcases walk_cases links location segment with
      ⟨error, h⟩ | ⟨hdir, ⟨-, h⟩ | ⟨-, h⟩ | ⟨name, rfl, ⟨hnone, h⟩ | ⟨target, -, h⟩ | ⟨-, h⟩⟩⟩
    · rw [h] at hwalk; cases hwalk
    · rw [h] at hwalk; exact ih _ hwalk
    · rw [h] at hwalk; exact ih _ hwalk
    · rw [h] at hwalk
      cases hwalk
      exact ⟨hnone, location, name, rfl, hdir⟩
    · rw [h] at hwalk
      cases links with
      | zero => cases hwalk
      | succ links => exact ihl links (Nat.lt_succ_self links) _ _ hwalk
    · rw [h] at hwalk; exact ih _ hwalk

/-- Above an entry there are directories only. -/
theorem directory_of_prefix {front location : Location Name} (h : front <+: location)
    (hne : fs.node location ≠ none) :
    location = front ∨ ∃ searchable, fs.node front = some (.directory searchable) := by
  obtain ⟨rest, rfl⟩ := h
  induction rest using List.reverseRecOn with
  | nil => exact .inl (List.append_nil front)
  | append_singleton rest last ih =>
    rw [← List.append_assoc] at hne
    obtain ⟨searchable, hparent⟩ := fs.parent_directory _ last hne
    have hsome : fs.node (front ++ rest) ≠ none := by
      rw [hparent]
      exact Option.some_ne_none _
    rcases ih hsome with heq | hdir
    · exact .inr ⟨searchable, heq ▸ hparent⟩
    · exact .inr hdir

/-- There is no entry below a link. -/
theorem eq_of_link_below {front location : Location Name} {target : LinkTarget Name}
    (hlink : fs.node front = some (.link target)) (h : front <+: location)
    (hne : fs.node location ≠ none) : location = front := by
  rcases directory_of_prefix h hne with heq | ⟨searchable, hdir⟩
  · exact heq
  · rw [hlink] at hdir
    cases hdir

theorem node_ne_none_of_prefix {front location : Location Name} (h : front <+: location)
    (hne : fs.node location ≠ none) : fs.node front ≠ none := by
  rcases directory_of_prefix h hne with heq | ⟨searchable, hdir⟩
  · exact heq ▸ hne
  · rw [hdir]
    exact Option.some_ne_none _

theorem Entry.ne_none {location : Location Name} (h : fs.Entry location) : fs.node location ≠ none := by
  rcases h with ⟨searchable, h⟩ | h <;> rw [h] <;> simp

/-! ## The file that a path names -/

section Names

variable (fs) (links : Nat)

theorem lookup_append (front rest : Location Name) :
    fs.lookup links (front ++ rest) = (fs.lookup links front).andThen fs (rest.map .name) := by
  rw [lookup, List.map_append, walk_append]
  rfl

/-- The path names the location: something is there, or it would be made there, with the directories
above it where they are missing too. -/
inductive Names (path : Location Name) : Location Name → Prop
  | file {location : Location Name} {left : Nat} (h : fs.lookup links path = .found location left) :
      Names path location
  | new {location : Location Name} (h : fs.lookup links path = .missing location []) :
      Names path location
  | newDirectories {front rest directory : Location Name} {name : Name} {left : Nat}
      (hpath : path = front ++ name :: rest) (hfront : fs.lookup links front = .found directory left)
      (hdirectory : fs.node directory = some (.directory true))
      (hname : fs.node (directory ++ [name]) = none) : Names path (directory ++ name :: rest)

/-- Something is found at the end of the path. -/
def Exists (path : Location Name) : Prop := ∃ location left, fs.lookup links path = .found location left

/-- No entry on the path is a link. -/
def Direct (path : Location Name) : Prop :=
  ∀ front name, front ++ [name] <+: path → ∀ target, fs.node (front ++ [name]) ≠ some (.link target)

/-- Every link that the walk along the path meets leads to something. -/
def LinksLead (path : Location Name) : Prop :=
  ∀ front name directory left target, front ++ [name] <+: path →
    fs.lookup links front = .found directory left →
    fs.node (directory ++ [name]) = some (.link target) → fs.Exists links (front ++ [name])

end Names

section Named

variable {links : Nat} {path location : Location Name}

theorem lookup_entry {left : Nat} (h : fs.lookup links path = .found location left) :
    fs.Entry location :=
  walk_found entry_root h

theorem Exists.front {front rest : Location Name} (h : fs.Exists links (front ++ rest)) :
    fs.Exists links front := by
  obtain ⟨location, left, h⟩ := h
  rw [lookup_append] at h
  cases hfront : fs.lookup links front with
  | found directory left => exact ⟨directory, left, hfront⟩
  | missing missed rest => rw [hfront] at h; cases h
  | failed error => rw [hfront] at h; cases h

/-- What is looked up behind a directory that is found. -/
theorem lookup_behind {front directory : Location Name} {left : Nat}
    (hfront : fs.lookup links front = .found directory left) (rest : Location Name) :
    fs.lookup links (front ++ rest) = fs.walk left directory (rest.map .name) := by
  rw [lookup_append, hfront]
  rfl

theorem lookup_newDirectories {front rest directory : Location Name} {name : Name} {left : Nat}
    (hfront : fs.lookup links front = .found directory left)
    (hdirectory : fs.node directory = some (.directory true))
    (hname : fs.node (directory ++ [name]) = none) :
    fs.lookup links (front ++ name :: rest) = .missing (directory ++ [name]) (rest.map .name) := by
  rw [lookup_behind hfront, List.map_cons, walk_none hdirectory hname]

theorem Names.eq_of_found {reached : Location Name} {left : Nat} (h : fs.Names links path location)
    (hfound : fs.lookup links path = .found reached left) : location = reached := by
  cases h with
  | file h =>
    rw [hfound, Outcome.found.injEq] at h
    exact h.1.symm
  | new h => rw [hfound] at h; cases h
  | newDirectories hpath hfront hdirectory hname =>
    rw [hpath, lookup_newDirectories hfront hdirectory hname] at hfound
    cases hfound

theorem Names.ne_failed (h : fs.Names links path location) (error : WalkError) :
    fs.lookup links path ≠ .failed error := by
  intro hfailed
  cases h with
  | file hfound => rw [hfailed] at hfound; cases hfound
  | new hmissing => rw [hfailed] at hmissing; cases hmissing
  | newDirectories hpath hfront hdirectory hname =>
    rw [hpath, lookup_newDirectories hfront hdirectory hname] at hfailed
    cases hfailed

theorem Names.unique {other : Location Name} (h : fs.Names links path location)
    (hother : fs.Names links path other) : location = other := by
  cases hother with
  | file hfound => exact h.eq_of_found hfound
  | new hmissing =>
    cases h with
    | file hfound => rw [hmissing] at hfound; cases hfound
    | new h =>
      rw [hmissing, Outcome.missing.injEq] at h
      exact h.1.symm
    | @newDirectories front rest directory name left hpath hfront hdirectory hname =>
      rw [hpath, lookup_newDirectories hfront hdirectory hname, Outcome.missing.injEq,
        List.map_eq_nil_iff] at hmissing
      rw [hmissing.2, ← hmissing.1]
  | @newDirectories front' rest' directory' name' left' hpath' hfront' hdirectory' hname' =>
    have hmissing := @lookup_newDirectories _ _ _ _ rest' _ _ _ hfront' hdirectory' hname'
    rw [← hpath'] at hmissing
    cases h with
    | file hfound => rw [hmissing] at hfound; cases hfound
    | new h =>
      rw [hmissing, Outcome.missing.injEq, List.map_eq_nil_iff] at h
      rw [h.2, ← h.1]
    | @newDirectories front rest directory name left hpath hfront hdirectory hname =>
      rw [hpath, lookup_newDirectories hfront hdirectory hname, Outcome.missing.injEq] at hmissing
      have hrest : rest = rest' :=
        List.map_injective_iff.mpr (fun _ _ => Segment.name.inj) hmissing.2
      rw [List.append_cons, hmissing.1, hrest, ← List.append_cons]

/-- A path without links is walked as it stands. -/
theorem Direct.lookup (links : Nat) (h : fs.Direct path) :
    fs.lookup links path = .found path links ∨
      (∃ front name rest, path = front ++ name :: rest ∧
        fs.lookup links path = .missing (front ++ [name]) (rest.map .name)) ∨
      ∃ error, fs.lookup links path = .failed error := by
  induction path using List.reverseRecOn with
  | nil => exact .inl lookup_nil
  | append_singleton path name ih =>
    have hpath : fs.Direct path := by
      intro front name hpre
      exact h front name (hpre.trans (List.prefix_append _ _))
    rcases ih hpath with hfound | ⟨front, missed, rest, rfl, hmissing⟩ | ⟨error, hfailed⟩
    · rcases walk_cases links path (.name name) with
        ⟨error, hw⟩ | ⟨-, ⟨heq, -⟩ | ⟨heq, -⟩ | ⟨name', heq, ⟨-, hw⟩ | ⟨target, hlink, -⟩ | ⟨-, hw⟩⟩⟩
      · exact .inr (.inr ⟨error, by rw [lookup_behind hfound]; exact hw []⟩)
      · cases heq
      · cases heq
      · cases heq
        refine .inr (.inl ⟨path, name, [], rfl, ?_⟩)
        rw [lookup_behind hfound]
        exact hw []
      · cases heq
        exact absurd hlink (h path name List.prefix_rfl target)
      · cases heq
        left
        rw [lookup_behind hfound]
        exact (hw []).trans walk_nil
    · refine .inr (.inl ⟨front, missed, rest ++ [name], by simp, ?_⟩)
      rw [lookup_append, hmissing, Outcome.andThen, List.map_append]
    · refine .inr (.inr ⟨error, ?_⟩)
      rw [lookup_append, hfailed, Outcome.andThen]

theorem Direct.front {front rest : Location Name} (h : fs.Direct (front ++ rest)) :
    fs.Direct front := by
  intro before name hpre
  exact h before name (hpre.trans (List.prefix_append _ _))

theorem Direct.linksLead (h : fs.Direct path) : fs.LinksLead links path := by
  intro front name directory left target hpre hfront hlink
  obtain ⟨rest, rfl⟩ := hpre
  have hdirect : fs.Direct front := by
    rw [List.append_assoc] at h
    exact h.front
  rcases hdirect.lookup links with hfound | ⟨_, _, _, -, hmissing⟩ | ⟨error, hfailed⟩
  · rw [hfront, Outcome.found.injEq] at hfound
    rw [hfound.1] at hlink
    exact absurd hlink (h front name (List.prefix_append _ _) target)
  · rw [hfront] at hmissing; cases hmissing
  · rw [hfront] at hfailed; cases hfailed

theorem Names.direct (h : fs.Names links path location) : fs.Direct location := by
  intro front name hpre target hlink
  have hsome : fs.node (front ++ [name]) ≠ none := by
    rw [hlink]
    exact Option.some_ne_none _
  cases h with
  | file hfound =>
    have hentry := lookup_entry hfound
    rw [eq_of_link_below hlink hpre hentry.ne_none] at hentry
    exact hentry.ne_link target hlink
  | new hmissing =>
    obtain ⟨hnone, parent, last, rfl, hparent⟩ := walk_missing hmissing
    rcases List.prefix_concat_iff.mp hpre with heq | hpre
    · exact hsome (heq ▸ hnone)
    · have hentry : fs.Entry parent := .inl ⟨true, hparent⟩
      rw [eq_of_link_below hlink hpre hentry.ne_none] at hentry
      exact hentry.ne_link target hlink
  | @newDirectories before rest directory missed left hpath hfront hdirectory hmissed =>
    have hmissed_prefix : directory ++ [missed] <+: directory ++ missed :: rest := ⟨rest, by simp⟩
    rcases List.prefix_concat_iff.mp
        ((List.prefix_or_prefix_of_prefix hpre hmissed_prefix).resolve_right fun hbelow =>
          node_ne_none_of_prefix hbelow hsome hmissed) with heq | hpre
    · exact hsome (heq ▸ hmissed)
    · have hentry : fs.Entry directory := .inl ⟨true, hdirectory⟩
      rw [eq_of_link_below hlink hpre hentry.ne_none] at hentry
      exact hentry.ne_link target hlink

theorem Names.eq_iff_direct (h : fs.Names links path location) : location = path ↔ fs.Direct path := by
  constructor
  · rintro rfl
    exact h.direct
  · intro hdirect
    cases h with
    | file hfound =>
      rcases hdirect.lookup links with h | ⟨front, name, rest, -, h⟩ | ⟨error, h⟩
      · rw [hfound, Outcome.found.injEq] at h
        exact h.1
      · rw [hfound] at h; cases h
      · rw [hfound] at h; cases h
    | new hmissing =>
      rcases hdirect.lookup links with h | ⟨front, name, rest, hpath, h⟩ | ⟨error, h⟩
      · rw [hmissing] at h; cases h
      · rw [hmissing, Outcome.missing.injEq] at h
        rw [hpath, h.1, List.map_eq_nil_iff.mp h.2.symm]
      · rw [hmissing] at h; cases h
    | @newDirectories front rest directory name left hpath hfront hdirectory hname =>
      rw [hpath] at hdirect ⊢
      rcases hdirect.front.lookup links with h | ⟨front, name, rest, -, h⟩ | ⟨error, h⟩
      · rw [hfront, Outcome.found.injEq] at h
        rw [h.1]
      · rw [hfront] at h; cases h
      · rw [hfront] at h; cases h

/-- The longest front of a path that is found, and the first name that is not. -/
theorem exists_front (fs : FileSystem Name) (links : Nat) (path : Location Name) :
    fs.Exists links path ∨ ∃ front name rest directory left, path = front ++ name :: rest ∧
      fs.lookup links front = .found directory left ∧ ¬ fs.Exists links (front ++ [name]) := by
  induction path using List.reverseRecOn with
  | nil => exact .inl ⟨[], links, lookup_nil⟩
  | append_singleton path last ih =>
    rcases ih with ⟨directory, left, h⟩ | ⟨front, name, rest, directory, left, rfl, hfront, hname⟩
    · by_cases hexists : fs.Exists links (path ++ [last])
      · exact .inl hexists
      · exact .inr ⟨path, last, [], directory, left, rfl, h, hexists⟩
    · exact .inr ⟨front, name, rest ++ [last], directory, left, by simp, hfront, hname⟩

/-- When every link on it leads to something, a path that leads to nothing yet names what its names
say behind the part of it that is there. -/
theorem Names.eq_behind {front rest directory : Location Name} {name : Name} {left : Nat}
    (h : fs.Names links (front ++ name :: rest) location)
    (hlead : fs.LinksLead links (front ++ name :: rest))
    (hfront : fs.lookup links front = .found directory left)
    (hname : ¬ fs.Exists links (front ++ [name])) : location = directory ++ name :: rest := by
  have hpre : front ++ [name] <+: front ++ name :: rest := ⟨rest, by simp⟩
  rcases walk_cases left directory (.name name) with
    ⟨error, hw⟩ | ⟨hdir, ⟨heq, -⟩ | ⟨heq, -⟩ | ⟨name', heq, ⟨hnone, -⟩ | ⟨target, hlink, -⟩ | ⟨-, hw⟩⟩⟩
  · have hfailed : fs.lookup links (front ++ name :: rest) = .failed error := by
      rw [lookup_behind hfront]
      exact hw _
    exact absurd hfailed (h.ne_failed error)
  · cases heq
  · cases heq
  · cases heq
    exact h.unique (.newDirectories rfl hfront hdir hnone)
  · cases heq
    exact absurd (hlead front name directory left target hpre hfront hlink) hname
  · cases heq
    have hfound : fs.lookup links (front ++ [name]) = .found (directory ++ [name]) left := by
      rw [lookup_behind hfront]
      exact (hw []).trans walk_nil
    exact absurd ⟨_, _, hfound⟩ hname

end Named

section Listed

variable [DecidableEq Name]

/-- The file system of the listed directories and links. -/
def ofEntries (directories : List (Location Name)) (links : List (Location Name × LinkTarget Name))
    (hroot : [] ∈ directories)
    (hparents : ∀ location ∈ directories ++ links.map Prod.fst, location.dropLast ∈ directories) :
    FileSystem Name where
  node location :=
    if location ∈ directories then some (.directory true)
    else (links.find? fun entry => entry.1 = location).map fun entry => .link entry.2
  root_directory := ⟨true, if_pos hroot⟩
  parent_directory := by
    intro location name h
    refine ⟨true, if_pos ?_⟩
    have hmem : location ++ [name] ∈ directories ++ links.map Prod.fst := by
      split_ifs at h with hdirectory
      · exact List.mem_append_left _ hdirectory
      · obtain ⟨node, hnode⟩ := Option.ne_none_iff_exists'.mp h
        obtain ⟨entry, hentry, -⟩ := Option.map_eq_some_iff.mp hnode
        have heq : entry.1 = location ++ [name] := of_decide_eq_true (List.find?_some hentry :)
        rw [← heq]
        exact List.mem_append_right _ (List.mem_map_of_mem (List.mem_of_find?_eq_some hentry))
    have hparent := hparents _ hmem
    rwa [List.dropLast_concat] at hparent

end Listed

end FileSystem

end Lib
