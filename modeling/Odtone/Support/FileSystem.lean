import Mathlib.Data.Finmap

/-! # File systems

A tree of directories, regular files and symbolic links, and the resolution of path names: a path is
walked component by component, `..` goes to the parent directory, and a symbolic link is replaced by
its target, at most forty times. The two operations are those of a program that keeps its data in
files: opening a file for writing, which creates or truncates it, and removing an entry.

A file system carries the proof that it is a tree: the parent of everything in it is a directory.
Access rights are left out.
-/

namespace FileSystem

/-- What can name an entry of a directory. -/
def IsName (s : List Char) : Prop := s ≠ [] ∧ s ≠ ['.'] ∧ s ≠ ['.', '.'] ∧ '/' ∉ s
deriving Decidable

/-- The name of an entry. -/
abbrev Name := {s : List Char // IsName s}

/-- The names on the way from the root to an entry. -/
abbrev Location := List Name

/-- A step on the way. -/
inductive Component where
  | here
  | up
  | down (n : Name)
deriving DecidableEq

namespace Component

/-- The component between two separators; an empty one stays where it is, as does a dot. -/
def ofChars (s : List Char) : Component :=
  if s = ['.', '.'] then .up else if h : IsName s then .down ⟨s, h⟩ else .here

@[simp] theorem ofChars_val (n : Name) : ofChars n.val = .down n := by
  have h := n.property
  rw [ofChars, if_neg h.2.2.1, dif_pos h]

/-- Where a component leads from a directory. -/
def go (loc : Location) : Component → Location
  | .here => loc
  | .up => loc.dropLast
  | .down n => loc ++ [n]

end Component

/-- The components of a path. -/
def components (p : List Char) : List Component := (p.splitOn '/').map .ofChars

theorem components_append_sep (p q : List Char) :
    components (p ++ '/' :: q) = components p ++ components q := by
  rw [components, List.splitOn_append_cons_self, List.map_append, components, components]

theorem components_of_notMem {s : List Char} (h : '/' ∉ s) : components s = [.ofChars s] := by
  rw [components, List.splitOn_eq_singleton h, List.map_singleton]

/-! ## The tree -/

/-- What a location holds. -/
inductive Entry (κ : Type) where
  | file (content : κ)
  | directory
  | link (target : List Char)

def Entry.IsFile {κ : Type} : Entry κ → Prop
  | .file _ => True
  | _ => False

instance {κ : Type} : (e : Entry κ) → Decidable e.IsFile
  | .file _ => isTrue trivial
  | .directory => isFalse id
  | .link _ => isFalse id

/-- Why an operation fails. -/
inductive Errno where
  | noent
  | notdir
  | isdir
  | loop
  | notempty
  | busy
deriving DecidableEq

/-- What the locations hold, the root being a directory. -/
def entryOf {κ : Type} (entries : Finmap fun _ : Location => Entry κ) (loc : Location) :
    Option (Entry κ) :=
  if loc = [] then some .directory else entries.lookup loc

end FileSystem

open FileSystem in
/-- A file system with contents in `κ`, as a process with a working directory sees it. -/
structure FileSystem (κ : Type) where
  entries : Finmap fun _ : Location => Entry κ
  cwd : Location
  tree : ∀ loc n, entryOf entries (loc ++ [n]) ≠ none → entryOf entries loc = some .directory

namespace FileSystem

variable {κ : Type} (fs : FileSystem κ)

def entry (loc : Location) : Option (Entry κ) := entryOf fs.entries loc

@[simp] theorem entry_nil : fs.entry [] = some .directory := rfl

variable {loc : Location}

theorem entry_of_ne_nil (h : loc ≠ []) : fs.entry loc = fs.entries.lookup loc :=
  if_neg h

/-- The parent of what is there is a directory. -/
theorem entry_dropLast (h : fs.entry loc ≠ none) : fs.entry loc.dropLast = some .directory := by
  rcases List.eq_nil_or_concat' loc with rfl | ⟨l, n, rfl⟩
  · rfl
  · rw [List.dropLast_concat]
    exact fs.tree l n h

def IsDirectory (loc : Location) : Bool :=
  match fs.entry loc with
  | some .directory => true
  | _ => false

theorem isDirectory_iff : fs.IsDirectory loc = true ↔ fs.entry loc = some .directory := by
  unfold IsDirectory
  split
  · next h => simp [h]
  · next h => simpa using h

/-! ## Resolution -/

/-- Where a path starts that is used in a directory. -/
def start (dir : Location) (p : List Char) : Location := if p.head? = some '/' then [] else dir

/-- The target of the symbolic link that a component names. -/
def linkAt (loc : Location) : Component → Option (List Char)
  | .down n =>
    match fs.entry (loc ++ [n]) with
    | some (.link target) => some target
    | _ => none
  | _ => none

theorem linkAt_of_isFile {fs : FileSystem κ} {n : Name}
    (h : ∀ e ∈ fs.entry (loc ++ [n]), e.IsFile) : fs.linkAt loc (.down n) = none := by
  unfold linkAt
  dsimp only
  split
  · next ht => exact absurd (h _ ht) id
  · rfl

/-- Walk along a path. A symbolic link is handed to `follow`, at the end of the path only if `last`
is set. -/
def walkWith (last : Bool) (follow : Location → List Component → Except Errno Location) :
    Location → List Component → Except Errno Location
  | loc, [] => .ok loc
  | loc, c :: cs =>
    if fs.IsDirectory loc then
      match fs.linkAt loc c with
      | some target =>
        if cs = [] ∧ last = false then .ok (c.go loc)
        else follow (start loc target) (components target ++ cs)
      | none => walkWith last follow (c.go loc) cs
    else .error (if (fs.entry loc).isSome then .notdir else .noent)

/-- Walk along a path that leads over at most the given number of symbolic links. -/
def walk (last : Bool) : Nat → Location → List Component → Except Errno Location
  | 0 => fs.walkWith last fun _ _ => .error .loop
  | k + 1 => fs.walkWith last (walk last k)

/-- The location of a path. -/
def resolve (last : Bool) (p : List Char) : Except Errno Location :=
  if p = [] then .error .noent else fs.walk last 40 (start fs.cwd p) (components p)

/-! ## Operations -/

/-- The file system that holds nothing. -/
def empty (κ : Type) : FileSystem κ where
  entries := ∅
  cwd := []
  tree l n h := by
    rw [entryOf, if_neg (by simp), Finmap.lookup_empty] at h
    exact absurd rfl h

/-- A directory can be made here. -/
def Vacant (loc : Location) : Prop :=
  fs.IsDirectory loc.dropLast = true ∧ (fs.entry loc).isNone = true
deriving Decidable

/-- A file can be created here, or the file that is here be truncated. -/
def Writable (loc : Location) : Prop :=
  fs.IsDirectory loc.dropLast = true ∧ ∀ e ∈ fs.entry loc, e.IsFile
deriving Decidable

/-- Open a path for writing. -/
def openWrite (p : List Char) : Except Errno {loc : Location // fs.Writable loc} :=
  match fs.resolve true p with
  | .error e => .error e
  | .ok loc =>
    if h : fs.Writable loc then .ok ⟨loc, h⟩
    else .error (if fs.IsDirectory loc then .isdir else .noent)

/-- Put an entry at a location whose parent is a directory and that is no directory itself. -/
def put (loc : Location) (hdir : fs.IsDirectory loc.dropLast = true)
    (hloc : fs.entry loc ≠ some .directory) (e : Entry κ) : FileSystem κ where
  entries := fs.entries.insert loc e
  cwd := fs.cwd
  tree := by
    intro l n h
    have hl : fs.entry l = some .directory := by
      by_cases heq : l ++ [n] = loc
      · rw [← heq, List.dropLast_concat] at hdir
        exact fs.isDirectory_iff.mp hdir
      · refine fs.tree l n ?_
        rwa [entryOf, if_neg (by simp), Finmap.lookup_insert_of_ne _ heq,
          ← fs.entry_of_ne_nil (by simp)] at h
    -- nothing is below the location, which is no directory
    have hne : l ≠ loc := by
      rintro rfl
      exact hloc hl
    rw [entryOf, Finmap.lookup_insert_of_ne _ hne]
    exact hl

theorem entry_put (hdir : fs.IsDirectory loc.dropLast = true)
    (hloc : fs.entry loc ≠ some .directory) (e : Entry κ) (l : Location) :
    (fs.put loc hdir hloc e).entry l = if l = loc then some e else fs.entry l := by
  by_cases hl : l = loc
  · subst hl
    have hne : l ≠ [] := by
      rintro rfl
      exact hloc fs.entry_nil
    rw [if_pos rfl, entry_of_ne_nil _ hne]
    exact Finmap.lookup_insert _
  · rw [if_neg hl]
    exact congrArg _ (Finmap.lookup_insert_of_ne _ hl)

/-- Make a directory. -/
def mkdir (loc : Location) (h : fs.Vacant loc) : FileSystem κ :=
  fs.put loc h.1 (by simp [Option.isNone_iff_eq_none.mp h.2]) .directory

/-- Replace what is in the file at a location, which is created if there is none. -/
def write (loc : {loc : Location // fs.Writable loc}) (content : κ) : FileSystem κ :=
  fs.put loc.val loc.property.1 (fun h => loc.property.2 _ h) (.file content)

/-- Nothing is below the location. -/
def Childless (loc : Location) : Prop :=
  loc ≠ [] ∧ ∀ k ∈ fs.entries.keys, k ≠ [] → k.dropLast ≠ loc
deriving Decidable

/-- Take an entry out of its directory. -/
def unlink (loc : {loc : Location // fs.Childless loc}) : FileSystem κ where
  entries := fs.entries.erase loc.val
  cwd := fs.cwd
  tree := by
    obtain ⟨loc, hne, hchild⟩ := loc
    intro l n h
    have hold : fs.entries.lookup (l ++ [n]) ≠ none := by
      intro hnone
      rw [entryOf, if_neg (by simp)] at h
      by_cases hloc : l ++ [n] = loc
      · rw [hloc, Finmap.lookup_erase] at h
        exact h rfl
      · rw [Finmap.lookup_erase_ne hloc] at h
        exact h hnone
    have hl : l ≠ loc := by
      have hkey : l ++ [n] ∈ fs.entries.keys := by
        rw [Finmap.mem_keys, ← Finmap.lookup_isSome]
        exact Option.isSome_iff_ne_none.mpr hold
      have := hchild _ hkey (by simp)
      rwa [List.dropLast_concat] at this
    rw [entryOf, Finmap.lookup_erase_ne hl]
    exact fs.tree l n (by rwa [entryOf, if_neg (by simp)])

theorem childless_of_isFile {e : Entry κ} (he : fs.entry loc = some e) (hdir : e ≠ .directory) :
    fs.Childless loc := by
  constructor
  · rintro rfl
    exact hdir (Option.some_inj.mp he).symm
  · rintro k hk hne rfl
    have hsome : fs.entry k ≠ none := by
      rw [fs.entry_of_ne_nil hne, ← Option.isSome_iff_ne_none, Finmap.lookup_isSome]
      exact Finmap.mem_keys.mp hk
    rw [fs.entry_dropLast hsome] at he
    exact hdir (Option.some_inj.mp he).symm

/-- Which entry removing a path takes out: none if there is nothing at the path, and a directory
only if it is empty. -/
def remove (p : List Char) : Except Errno (Option {loc : Location // fs.Childless loc}) :=
  match fs.resolve false p with
  | .error .noent | .error .notdir => .ok none
  | .error e => .error e
  | .ok loc =>
    match he : fs.entry loc with
    | none => .ok none
    | some .directory =>
      if h : fs.Childless loc then .ok (some ⟨loc, h⟩)
      else .error (if loc = [] then .busy else .notempty)
    | some (.file _) => .ok (some ⟨loc, fs.childless_of_isFile he nofun⟩)
    | some (.link _) => .ok (some ⟨loc, fs.childless_of_isFile he nofun⟩)

section Entries

variable {fs}

theorem resolve_of_openWrite {p : List Char} {loc : {loc : Location // fs.Writable loc}}
    (h : fs.openWrite p = .ok loc) : fs.resolve true p = .ok loc.val := by
  unfold openWrite at h
  split at h
  · cases h
  · next l hp =>
      split_ifs at h
      rw [hp, ← Except.ok.inj h]

theorem remove_eq_some {p : List Char} {l : Location} {loc : {loc : Location // fs.Childless loc}}
    (hp : fs.resolve false p = .ok l) (h : fs.remove p = .ok (some loc)) : loc.val = l := by
  unfold remove at h
  rw [hp] at h
  dsimp only at h
  split at h
  · cases h
  · split_ifs at h
    cases h
    rfl
  · cases h
    rfl
  · cases h
    rfl

theorem entry_write (loc : {loc : Location // fs.Writable loc}) (content : κ) (l : Location) :
    (fs.write loc content).entry l = if l = loc.val then some (.file content) else fs.entry l :=
  fs.entry_put ..

theorem entry_unlink (loc : {loc : Location // fs.Childless loc}) (l : Location) :
    (fs.unlink loc).entry l = if l = loc.val then none else fs.entry l := by
  obtain ⟨loc, hne, hchild⟩ := loc
  by_cases hl : l = loc
  · subst hl
    rw [if_pos rfl, entry_of_ne_nil _ hne]
    exact Finmap.lookup_erase _ _
  · rw [if_neg hl]
    exact congrArg _ (Finmap.lookup_erase_ne hl)

end Entries

/-! ## Walking on -/

section Walk

variable {fs} {last : Bool} {k : Nat} {loc dir : Location} {cs ds : List Component}

variable {f g : Location → List Component → Except Errno Location} {p : List Char}

/-- What a walk that is extended by `ds` comes to, if `P` holds of the extension by `ds` of what
follows a link and of a walk along `ds` alone. -/
theorem walkWith_append (P : Location → Except Errno Location → Prop) (hds : ds ≠ [])
    (hlink : ∀ loc cs dir, f loc cs = .ok dir → P dir (g loc (cs ++ ds)))
    (hend : ∀ dir, P dir (fs.walkWith last g dir ds)) (h : fs.walkWith true f loc cs = .ok dir) :
    P dir (fs.walkWith last g loc (cs ++ ds)) := by
  induction cs generalizing loc with
  | nil =>
    cases h
    exact hend _
  | cons c cs ih =>
    rw [List.cons_append, walkWith]
    rw [walkWith] at h
    cases hdir : fs.IsDirectory loc with
    | false =>
      rw [hdir] at h
      cases h
    | true =>
      rw [hdir, if_pos rfl] at h
      rw [if_pos rfl]
      cases ht : fs.linkAt loc c with
      | none =>
        rw [ht] at h
        exact ih h
      | some t =>
        rw [ht] at h
        dsimp only at h ⊢
        rw [if_neg (by simp)] at h
        rw [if_neg (by simp [hds]), ← List.append_assoc]
        exact hlink _ _ _ h

/-- A walk whose beginning leads to a location goes on from there. -/
theorem walk_append (last : Bool) (hds : ds ≠ []) (h : fs.walk true k loc cs = .ok dir) :
    ∃ j, fs.walk last k loc (cs ++ ds) = fs.walk last j dir ds := by
  induction k generalizing loc cs dir with
  | zero =>
    refine walkWith_append (fun dir r => ∃ j, r = fs.walk last j dir ds) hds ?_
      (fun dir => ⟨0, rfl⟩) h
    intro loc cs dir hloop
    cases hloop
  | succ k ih =>
    exact walkWith_append (fun dir r => ∃ j, r = fs.walk last j dir ds) hds
      (fun loc cs dir hrest => ih hrest) (fun dir => ⟨k + 1, rfl⟩) h

/-- A walk of one component that is not a symbolic link. -/
theorem walk_singleton {c : Component} (hdir : fs.entry dir = some .directory)
    (hlink : fs.linkAt dir c = none) : fs.walk last k dir [c] = .ok (c.go dir) := by
  have hstep (f : Location → List Component → Except Errno Location) :
      fs.walkWith last f dir [c] = .ok (c.go dir) := by
    rw [walkWith, if_pos (fs.isDirectory_iff.mpr hdir), hlink]
    rfl
  cases k with
  | zero | succ => exact hstep _

/-- A name in a directory without symbolic links resolves to what its component leads to. -/
theorem resolve_child {s : List Char} (hp : fs.resolve true p = .ok dir)
    (hdir : fs.entry dir = some .directory) (hs : '/' ∉ s)
    (hlink : ∀ n t, fs.entry (dir ++ [n]) ≠ some (.link t)) :
    fs.resolve last (p ++ '/' :: s) = .ok ((Component.ofChars s).go dir) := by
  unfold resolve at hp ⊢
  split_ifs at hp with hne
  have hstart : start fs.cwd (p ++ '/' :: s) = start fs.cwd p := by
    unfold start
    rw [List.head?_append_of_ne_nil _ hne]
  have hat : fs.linkAt dir (.ofChars s) = none := by
    unfold linkAt
    split
    · split
      · next ht => exact absurd ht (hlink _ _)
      · rfl
    · rfl
  obtain ⟨j, hj⟩ := walk_append last (List.cons_ne_nil (Component.ofChars s) []) hp
  rw [if_neg (by simp), hstart, components_append_sep, components_of_notMem hs, hj]
  exact walk_singleton hdir hat

variable {fs' : FileSystem κ} {x : Location}

/-- A file that comes, goes or changes is not on the way of a walk. -/
theorem walkWith_congr
    (hagree : ∀ l, l ≠ x → fs'.entry l = fs.entry l) (hx : ∀ e ∈ fs.entry x, e.IsFile)
    (hx' : ∀ e ∈ fs'.entry x, e.IsFile)
    (hlink : ∀ loc cs dir, f loc cs = .ok dir → g loc cs = .ok dir)
    (h : fs.walkWith last f loc cs = .ok dir) : fs'.walkWith last g loc cs = .ok dir := by
  induction cs generalizing loc with
  | nil => exact h
  | cons c cs ih =>
    rw [walkWith] at h ⊢
    cases hd : fs.IsDirectory loc with
    | false =>
      rw [hd] at h
      cases h
    | true =>
      have hloc : loc ≠ x := by
        rintro rfl
        exact hx _ (fs.isDirectory_iff.mp hd)
      have hd' : fs'.IsDirectory loc = true := by
        rw [isDirectory_iff, hagree loc hloc]
        exact fs.isDirectory_iff.mp hd
      have hat : fs'.linkAt loc c = fs.linkAt loc c := by
        cases c with
        | here | up => rfl
        | down n =>
          by_cases hn : loc ++ [n] = x
          · rw [← hn] at hx hx'
            rw [linkAt_of_isFile hx, linkAt_of_isFile hx']
          · unfold linkAt
            dsimp only
            rw [hagree _ hn]
      rw [hd, if_pos rfl] at h
      rw [hd', if_pos rfl, hat]
      cases ht : fs.linkAt loc c with
      | none =>
        rw [ht] at h
        exact ih h
      | some t =>
        rw [ht] at h
        split_ifs at h ⊢ with hend
        · exact h
        · exact hlink _ _ _ h

theorem resolve_congr (hcwd : fs'.cwd = fs.cwd)
    (hagree : ∀ l, l ≠ x → fs'.entry l = fs.entry l) (hx : ∀ e ∈ fs.entry x, e.IsFile)
    (hx' : ∀ e ∈ fs'.entry x, e.IsFile) (h : fs.resolve last p = .ok dir) :
    fs'.resolve last p = .ok dir := by
  have hwalk : ∀ k loc cs dir, fs.walk last k loc cs = .ok dir →
    fs'.walk last k loc cs = .ok dir := by
    intro k
    induction k with
    | zero => exact fun loc cs dir =>
      walkWith_congr hagree hx hx' (fun _ _ _ hloop => nomatch hloop)
    | succ k ih => exact fun loc cs dir => walkWith_congr hagree hx hx' ih
  unfold resolve at h ⊢
  rw [hcwd]
  split_ifs at h ⊢ with hp
  exact hwalk _ _ _ _ h

end Walk

end FileSystem
