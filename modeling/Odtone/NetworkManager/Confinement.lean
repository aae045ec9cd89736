import Odtone.NetworkManager.Settings

/-! # Where the files of connections are

The path of a connection's file is made from the `uuid` a caller of `AddConnection` gives, and is
used by every later `Update` and `Delete` of the object. A `uuid` with a separator in it leads out
of the settings directory. One without resolves to a name in the settings directory, to the
directory itself or to its parent; the latter two are directories, which cannot be opened for
writing. So if no `uuid` has a separator and the settings directory has no symbolic links to begin
with, nothing but regular files directly in it is ever touched. -/

namespace Odtone.NetworkManager

open FileSystem EStateM List Option

/-- The change creates, overwrites or removes a regular file directly in the directory. -/
def Change.Inside (dir : Location) (c : Change) : Prop :=
  (∃ n : Name, c.loc = dir ++ [n]) ∧ (∀ e ∈ c.before, e.IsFile) ∧ ∀ e ∈ c.after, e.IsFile

namespace Settings

/-- The `uuid`, if it is a string, has no separator. -/
def PlainUuid (properties : SettingsMap) : Prop :=
  ∀ v ∈ findUuid properties, ∀ filename, readString v = .ok filename → '/' ∉ filename.toList

/-- A call that makes a connection names it by a plain `uuid`. -/
def Call.Plain : Call → Prop
  | .addConnection properties => PlainUuid properties
  | .addAndActivateConnection _ connection _ _ => PlainUuid connection
  | .update .. | .delete _ => True

/-- The state of `Settings` while the changes stay in the directory `dir`, when the file system was
`fs` at first. -/
structure Confined (fs : FileSystem (Option ConnectionSettings)) (dir : Location) (st : Settings) :
    Prop where
  resolves : st.fs.resolve true st.workingDir = .ok dir
  isDirectory : st.fs.entry dir = some .directory
  noLinks : ∀ n t, st.fs.entry (dir ++ [n]) ≠ some (.link t)
  /-- The file of a connection has a name in the directory; if the name is taken, by a file. -/
  files : ∀ path c, st.connections.get? path = some c →
    ∃ n : Name, c.filePath = st.filePath n.val ∧ ∀ e ∈ st.fs.entry (dir ++ [n]), e.IsFile
  inside : ∀ c ∈ st.changes, c.Inside dir
  outside : ∀ loc, (∀ n, loc ≠ dir ++ [n]) → st.fs.entry loc = fs.entry loc

namespace Confined

variable {fs fs' : FileSystem (Option ConnectionSettings)} {dir : Location} {st : Settings}
  (h : Confined fs dir st)

include h

/-! ## One change -/

variable {n : Name} {loc : {loc : Location // st.fs.Writable loc}}
  {connections : Book String StoredConnection} {properties : SettingsMap}

/-- A regular file of the directory comes, goes or changes. -/
theorem change {c : Change} (hcwd : fs'.cwd = st.fs.cwd)
    (hagree : ∀ l, l ≠ dir ++ [n] → fs'.entry l = st.fs.entry l)
    (hbefore : ∀ e ∈ st.fs.entry (dir ++ [n]), e.IsFile)
    (hafter : ∀ e ∈ fs'.entry (dir ++ [n]), e.IsFile) (hc : c.Inside dir) :
    Confined fs dir { st with fs := fs', changes := st.changes ++ [c] } where
  resolves := resolve_congr hcwd hagree hbefore hafter h.resolves
  isDirectory := by
    rw [← h.isDirectory]
    exact hagree dir (by simp)
  noLinks m t hm := by
    by_cases hmn : dir ++ [m] = dir ++ [n]
    · exact hafter _ (hmn ▸ hm)
    · exact h.noLinks m t ((hagree _ hmn).symm.trans hm)
  files path c hpath := by
    obtain ⟨m, hm, hfile⟩ := h.files path c hpath
    refine ⟨m, hm, ?_⟩
    by_cases hmn : dir ++ [m] = dir ++ [n]
    · rw [hmn]
      exact hafter
    · intro e he
      exact hfile e ((hagree _ hmn).symm.trans he)
  inside x hx := by
    rcases mem_append.mp hx with hx | hx
    · exact h.inside x hx
    · rw [mem_singleton.mp hx]
      exact hc
  outside loc hloc := (hagree loc (hloc n)).trans (h.outside loc hloc)

theorem write
    (hloc : loc.val = dir ++ [n]) (s : ConnectionSettings) : Confined fs dir (st.write loc s) := by
  have hfile := loc.property.2
  have hafter : ∀ e ∈ (st.fs.write loc (some s)).entry (dir ++ [n]), e.IsFile := by
    intro e he
    rw [entry_write, if_pos hloc.symm, mem_some_iff] at he
    rw [← he]
    trivial
  refine h.change rfl ?_ (hloc ▸ hfile) hafter ⟨⟨n, hloc⟩, hfile, ?_⟩
  · intro l hl
    rw [entry_write, if_neg (hloc ▸ hl)]
  · intro e he
    rw [← mem_some_iff.mp he]
    trivial

theorem unlink {loc : {loc : Location // st.fs.Childless loc}}
    (hloc : loc.val = dir ++ [n]) (hfile : ∀ e ∈ st.fs.entry (dir ++ [n]), e.IsFile) :
    Confined fs dir (st.unlink loc) := by
  have hafter : ∀ e ∈ (st.fs.unlink loc).entry (dir ++ [n]), e.IsFile := by
    intro e he
    rw [entry_unlink, if_pos hloc.symm] at he
    cases he
  refine h.change rfl ?_ hfile hafter ⟨⟨n, hloc⟩, ?_, nofun⟩
  · intro l hl
    rw [entry_unlink, if_neg (hloc ▸ hl)]
  · rw [hloc]
    exact hfile

/-! ## Operations -/

variable {s : List Char}

/-- What a name without a separator resolves to. -/
theorem resolve_filePath (hs : '/' ∉ s) (last : Bool) :
    st.fs.resolve last (st.filePath s) = .ok ((Component.ofChars s).go dir) :=
  resolve_child h.resolves h.isDirectory hs h.noLinks

/-- A name without a separator that can be opened for writing is the name of a file in the
directory. -/
theorem openWrite (hs : '/' ∉ s)
    (hopen : st.fs.openWrite (st.filePath s) = .ok loc) : ∃ n : Name, s = n.val ∧
    loc.val = dir ++ [n] := by
  have hval : loc.val = (Component.ofChars s).go dir :=
    Except.ok.inj ((resolve_of_openWrite hopen).symm.trans (h.resolve_filePath hs true))
  have hfile := loc.property.2
  rw [hval] at hfile ⊢
  unfold Component.ofChars at hfile ⊢
  split_ifs at hfile ⊢ with hup hname
  · -- the parent is a directory
    have hparent := st.fs.entry_dropLast (h.isDirectory ▸ some_ne_none _)
    exact absurd (hfile _ hparent) id
  · exact ⟨⟨s, hname⟩, rfl, rfl⟩
  · exact absurd (hfile _ h.isDirectory) id

/-- `write_settings` keeps to the directory, and if it succeeds there is a regular file of that
name. -/
theorem writeSettings (hs : '/' ∉ s) (settings : SettingsMap) :
    Confined fs dir (writeSettings (st.filePath s) settings st).state ∧
    ∀ st', writeSettings (st.filePath s) settings st = .ok () st' → st'.workingDir = st.workingDir ∧
      ∃ n : Name, s = n.val ∧ ∀ e ∈ st'.fs.entry (dir ++ [n]), e.IsFile := by
  unfold Settings.writeSettings
  cases ConnectionSettings.fromMap settings with
  | error e => exact ⟨h, nofun⟩
  | ok x =>
    cases hopen : st.fs.openWrite (st.filePath s) with
    | error e => exact ⟨h, nofun⟩
    | ok loc =>
      obtain ⟨n, hn, hloc⟩ := h.openWrite hs hopen
      refine ⟨h.write hloc x, ?_⟩
      rintro st' ⟨⟩
      refine ⟨rfl, n, hn, ?_⟩
      intro e he
      change e ∈ (st.fs.write loc (some x)).entry (dir ++ [n]) at he
      rw [entry_write, if_pos hloc.symm] at he
      rw [← mem_some_iff.mp he]
      trivial

/-- The connections may change as long as their files have names in the directory. -/
theorem withConnections (hfiles : ∀ path c, connections.get? path = some c →
      ∃ n : Name, c.filePath = st.filePath n.val ∧ ∀ e ∈ st.fs.entry (dir ++ [n]), e.IsFile) :
    Confined fs dir { st with connections := connections } :=
  ⟨h.resolves, h.isDirectory, h.noLinks, hfiles, h.inside, h.outside⟩

theorem newConnection (hs : '/' ∉ s) (properties : SettingsMap) :
    Confined fs dir (newConnection s properties st).state := by
  unfold Settings.newConnection
  have hcount : Confined fs dir { st with connectionCounter := st.connectionCounter + 1 } :=
    ⟨h.resolves, h.isDirectory, h.noLinks, h.files, h.inside, h.outside⟩
  obtain ⟨hconf, hok⟩ := hcount.writeSettings hs properties
  dsimp only
  split
  · next e st' heq =>
      rw [heq] at hconf
      exact hconf
  · next st' heq =>
      obtain ⟨hdir, n, hn, hfile⟩ := hok st' heq
      rw [heq, Result.state_ok] at hconf
      refine hconf.withConnections ?_
      intro path c hc
      rw [Book.get?_insert] at hc
      split_ifs at hc with hpath
      · cases hc
        refine ⟨n, ?_, hfile⟩
        rw [hn, filePath, filePath, hdir]
      · exact hconf.files path c hc

theorem addConnection (hplain : PlainUuid properties) :
    Confined fs dir (addConnection properties st).state := by
  unfold Settings.addConnection
  cases hv : findUuid properties with
  | none => exact h
  | some v =>
    dsimp only
    cases hname : readString v with
    | error e => exact h
    | ok filename => exact h.newConnection (hplain v hv filename hname) properties

theorem update (path : String) (properties : SettingsMap) :
    Confined fs dir (update path properties st).state := by
  unfold Settings.update
  cases hc : st.connections.get? path with
  | none => exact h
  | some c =>
    obtain ⟨n, hn, hfile⟩ := h.files path c hc
    dsimp only
    rw [hn]
    refine (Confined.writeSettings (h.withConnections ?_) n.property.2.2.2 properties).1
    intro path' c' hc'
    rw [Book.get?_modify] at hc'
    split_ifs at hc' with hpath
    · obtain ⟨c₀, hc₀, rfl⟩ := map_eq_some_iff.mp hc'
      exact h.files path' c₀ hc₀
    · exact h.files path' c' hc'

omit h in
theorem of_erase {path path' : String}
    {c : StoredConnection} (h : (connections.erase path).get? path' = some c) :
    connections.get? path' = some c := by
  rw [Book.get?_erase] at h
  split_ifs at h
  exact h

theorem delete (path : String) : Confined fs dir (delete path st).state := by
  unfold Settings.delete
  cases hc : st.connections.get? path with
  | none => exact h
  | some c =>
    obtain ⟨n, hn, hfile⟩ := h.files path c hc
    have hresolve := h.resolve_filePath n.property.2.2.2 false
    rw [Component.ofChars_val, ← hn] at hresolve
    dsimp only
    cases hr : st.fs.remove c.filePath with
    | error e => exact h
    | ok loc? =>
      cases loc? with
      | none => exact h.withConnections fun path' c' hc' => h.files path' c' (of_erase hc')
      | some loc =>
        have hloc : loc.val = dir ++ [n] := remove_eq_some hresolve hr
        have hconf := h.unlink hloc hfile
        exact hconf.withConnections fun path' c' hc' => hconf.files path' c' (of_erase hc')

theorem addConnectionQuietly (hplain : PlainUuid properties) :
    Confined fs dir (addConnectionQuietly properties st).state := by
  have hconf := h.addConnection hplain
  unfold Settings.addConnectionQuietly
  split <;> next heq =>
    rw [heq] at hconf
    exact hconf

end Confined

/-! ## Runs -/

theorem plainUuid_setSsid {ssid : List UInt8} {sm : SettingsMap} (h : PlainUuid sm) :
    PlainUuid (setSsid ssid sm) := by
  have hfind : findUuid (setSsid ssid sm) = findUuid sm := by
    unfold findUuid setSsid
    rw [Finmap.lookup_insert_of_ne _ (by decide)]
  unfold PlainUuid
  rw [hfind]
  exact h

variable {fs : FileSystem (Option ConnectionSettings)} {dir : Location} {st : Settings}

theorem Confined.perform (h : Confined fs dir st) {c : Call} (hc : c.Plain) :
    Confined fs dir (c.perform st).state := by
  cases c with
  | addConnection properties =>
    have hconf := h.addConnection hc
    change Confined fs dir ((Settings.addConnection properties).after (fun _ st => st) st).state
    cases heq : Settings.addConnection properties st with
    | ok path st' =>
      rw [heq] at hconf
      rw [after_of_ok heq]
      exact hconf
    | error e st' =>
      rw [heq] at hconf
      rw [after_of_error heq]
      exact hconf
  | addAndActivateConnection devices connection device specificObject =>
    change Confined fs dir (Settings.addAndActivateConnection devices connection device
      specificObject st).state
    unfold Settings.addAndActivateConnection
    split
    · exact h.addConnectionQuietly hc
    · split
      · exact h
      · split
        · exact h.addConnectionQuietly (plainUuid_setSsid hc)
        · exact h
    · exact h
  | update path properties => exact h.update path properties
  | delete path => exact h.delete path

theorem Confined.step (h : Confined fs dir st) {c : Call} (hc : c.Plain) :
    Confined fs dir (step c st).state := by
  have hconf := h.perform hc
  unfold Settings.step
  split <;> next heq =>
    rw [heq] at hconf
    exact hconf

theorem Confined.loadConnection (h : Confined fs dir st) {n : Name} {st' : Settings}
    (hload : loadConnection st n = .ok st') : Confined fs dir st' := by
  unfold Settings.loadConnection Settings.readSettings at hload
  rw [h.resolve_filePath n.property.2.2.2 true, Component.ofChars_val] at hload
  dsimp only at hload
  split at hload
  · cases hload
  · cases hload
    exact h
  · next settings hread =>
      cases hload
      refine ⟨h.resolves, h.isDirectory, h.noLinks, ?_, h.inside, h.outside⟩
      intro path c hc
      rw [Book.get?_insert] at hc
      split_ifs at hc with hpath
      · cases hc
        refine ⟨n, rfl, ?_⟩
        intro e he
        rw [show st.fs.entry (Component.go dir (.down n)) = some e from he] at hread
        cases e with
        | file => trivial
        | _ => cases hread
      · exact h.files path c hc

/-- The settings are confined when they have been loaded. -/
theorem Confined.of_load {workingDir : List Char} {path : String} {listing : List Name}
    (hload : load fs workingDir path listing = .ok st) (hdir : fs.resolve true workingDir = .ok dir)
    (hlinks : ∀ n t, fs.entry (dir ++ [n]) ≠ some (.link t)) : Confined fs dir st := by
  unfold load at hload
  rw [hdir] at hload
  dsimp only at hload
  split_ifs at hload with hd
  have hstart : Confined fs dir ⟨fs, workingDir, path, [], 0, []⟩ :=
    ⟨hdir, fs.isDirectory_iff.mp hd, hlinks, nofun, nofun, fun _ _ => rfl⟩
  -- one directory entry after the other
  generalize (⟨fs, workingDir, path, [], 0, []⟩ : Settings) = st₀ at hload hstart
  induction listing generalizing st₀ with
  | nil =>
    cases hload
    exact hstart
  | cons n listing ih =>
    rw [foldlM_cons] at hload
    cases heq : Settings.loadConnection st₀ n with
    | error e =>
      rw [heq] at hload
      cases hload
    | ok st₁ =>
      rw [heq] at hload
      exact ih st₁ hload (hstart.loadConnection heq)

/-- In every run in which no `uuid` has a separator and no entry of the settings directory is a
symbolic link at the start, every file that is created, overwritten or removed is a regular file
directly in the settings directory, and nothing else in the file system changes. -/
theorem changes_inside_of_plain {workingDir : List Char} {path : String} {listing : List Name}
    (hload : load fs workingDir path listing = .ok st) (hdir : fs.resolve true workingDir = .ok dir)
    (hlinks : ∀ n t, fs.entry (dir ++ [n]) ≠ some (.link t)) (calls : List Call)
    (hcalls : ∀ c ∈ calls, c.Plain) :
    (∀ c ∈ (run calls st).changes, c.Inside dir) ∧
    ∀ loc, (∀ n, loc ≠ dir ++ [n]) → (run calls st).fs.entry loc = fs.entry loc := by
  have hrun : Confined fs dir (run calls st) :=
    runAll_along (P := Confined fs dir)
      (fun c st hc h => Confined.step h hc) calls
      (Confined.of_load hload hdir hlinks) (along_of_forall (fun c hc _ => hcalls c hc) st)
  exact ⟨hrun.inside, hrun.outside⟩

/-! ### Two runs -/

def sampleNames : Name × Name × Name :=
  (⟨['e', 't', 'c'], by decide⟩, ⟨['n', 'm'], by decide⟩, ⟨['h', 'o', 's', 't', 's'], by decide⟩)

/-- The directories `/etc` and `/etc/nm`. -/
def sampleFs : FileSystem (Option ConnectionSettings) :=
  ((FileSystem.empty _).mkdir [sampleNames.1] (by decide)).mkdir [sampleNames.1, sampleNames.2.1]
    (by decide)

def sampleSettings : Settings where
  fs := sampleFs
  workingDir := ['/', 'e', 't', 'c', '/', 'n', 'm']
  path := "/Settings"
  connections := []
  connectionCounter := 0
  changes := []

def sampleProperties (uuid : String) : SettingsMap :=
  .singleton "connection" (.singleton "uuid" ⟨.string, uuid⟩)

/-- The calls add a connection of the given `uuid` and delete it. -/
def sampleCalls (uuid : String) : List Call :=
  [.addConnection (sampleProperties uuid), .delete "/Settings/1"]

theorem sampleSettings_loaded :
    load sampleFs sampleSettings.workingDir "/Settings" [] = .ok sampleSettings := rfl

theorem sampleSettings_resolve :
    sampleFs.resolve true sampleSettings.workingDir = .ok [sampleNames.1, sampleNames.2.1] := by
  decide +kernel

theorem sampleFs_noLinks (loc : Location) (t : List Char) :
    sampleFs.entry loc ≠ some (.link t) := by
  intro h
  rw [sampleFs, mkdir, entry_put, mkdir, entry_put] at h
  split_ifs at h
  · cases h
  · cases h
  · unfold entry entryOf at h
    split_ifs at h
    · cases h
    · cases h

theorem plainUuid_sampleProperties {uuid : String} (h : '/' ∉ uuid.toList) :
    PlainUuid (sampleProperties uuid) := by
  have hfind : findUuid (sampleProperties uuid) = some ⟨.string, uuid⟩ := rfl
  intro v hv filename hname
  rw [hfind, mem_some_iff] at hv
  subst hv
  cases hname
  exact h

/-- The file of the connection `home` is created in the settings directory and removed again. -/
theorem changes_inside_home :
    let st := run (sampleCalls "home") sampleSettings
    st.changes.length = 2 ∧ (∀ c ∈ st.changes, c.Inside [sampleNames.1, sampleNames.2.1]) ∧
      ∀ loc, (∀ n, loc ≠ [sampleNames.1, sampleNames.2.1] ++ [n]) →
        st.fs.entry loc = sampleFs.entry loc := by
  refine ⟨by decide +kernel, changes_inside_of_plain sampleSettings_loaded sampleSettings_resolve
    (fun n t => sampleFs_noLinks _ t) (sampleCalls "home") ?_⟩
  intro c hc
  rcases mem_pair.mp hc with rfl | rfl
  · exact plainUuid_sampleProperties (by decide)
  · trivial

/-- The `uuid` `../hosts` names a file next to the settings directory, which is created and then
removed. -/
theorem uuid_leads_out :
    load sampleFs sampleSettings.workingDir "/Settings" [] = .ok sampleSettings ∧
    sampleFs.resolve true sampleSettings.workingDir = .ok [sampleNames.1, sampleNames.2.1] ∧
    (run (sampleCalls "../hosts") sampleSettings).changes.map
      (fun c => (c.loc, c.before.isSome, c.after.isSome)) =
      [([sampleNames.1, sampleNames.2.2], false, true),
        ([sampleNames.1, sampleNames.2.2], true, false)] ∧
    ∀ c ∈ (run (sampleCalls "../hosts") sampleSettings).changes,
      ¬ c.Inside [sampleNames.1, sampleNames.2.1] := by
  have hchanges : (run (sampleCalls "../hosts") sampleSettings).changes.map
      (fun c => (c.loc, c.before.isSome, c.after.isSome)) =
      [([sampleNames.1, sampleNames.2.2], false, true),
        ([sampleNames.1, sampleNames.2.2], true, false)] := by
    decide +kernel
  refine ⟨sampleSettings_loaded, sampleSettings_resolve, hchanges, ?_⟩
  rintro c hc ⟨⟨n, hn⟩, -⟩
  have hmem := mem_map_of_mem (f := fun c : Change => (c.loc, c.before.isSome, c.after.isSome)) hc
  rw [hchanges, hn] at hmem
  simp at hmem

end Settings

end Odtone.NetworkManager
