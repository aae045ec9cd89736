import Odtone.Mihf.Sac

/-! # What an MIHF advertises

`update_local_capabilities` derives the capabilities of this MIHF from the books of Link SAPs and of
users. `Advertises` says what they should be: what every active Link SAP offers, together with what
any user adds. The two flags of the function see the users only, so the commands are right exactly
when there is a user with commands if and only if there is an active Link SAP.
-/

namespace Odtone.Mihf

open Wire (Bytes Ty)
open List Bitmap

/-! ## What should be advertised -/

/-- The list is present if and only if `present`, and then it has the members `has`. -/
def Publishes {n : Nat} (b : Option (Bitmap n)) (present : Prop) (has : Nat → Prop) : Prop :=
  (b.isSome = true ↔ present) ∧ ∀ c, b = some c → ∀ i < 8 * n, c.get i = true ↔ has i

/-- The active Link SAPs. -/
def LinkBook.active (b : LinkBook) : List LinkEntry := (b.map Prod.snd).filter LinkEntry.status

/-- The user handles the command `i`, which is none of a Link SAP. -/
def UserEntry.Handles (u : UserEntry) (i : Nat) : Prop :=
  3 ≤ i ∧ ∃ b, u.suppCmd = some b ∧ b.get i = true

/-- The user answers the queries of type `i`. -/
def UserEntry.Answers (u : UserEntry) (i : Nat) : Prop := ∃ b, u.suppIq = some b ∧ b.get i = true

theorem UserEntry.Answers.lt {u : UserEntry} {i : Nat} (h : u.Answers i) : i < 8 * 8 := by
  obtain ⟨b, -, hb⟩ := h
  by_contra hle
  rw [get_of_le (Nat.le_of_not_lt hle)] at hb
  cases hb

/-- The capabilities that follow from the two books. -/
structure Advertises (links : List LinkEntry) (users : List UserEntry)
    (c : Capabilities) : Prop where
  addrs : c.listNetTypeAddr =
    if links = [] then none else some (links.map fun e => e.linkId.netTypeAddr)
  events : Publishes c.eventList (links ≠ []) fun i => ∀ e ∈ links, e.eventList.get i = true
  commands : Publishes c.cmdList (links ≠ [] ∨ ∃ u ∈ users, ∃ i, u.Handles i) fun i =>
    (links ≠ [] ∧ ∀ e ∈ links, e.mihCommands.get i = true) ∨ ∃ u ∈ users, u.Handles i
  queries : Publishes c.queryType (∃ u ∈ users, ∃ i, u.Answers i) fun i => ∃ u ∈ users, u.Answers i

/-! ## What is advertised -/

namespace UserEntry

variable {u : UserEntry} {i : Nat}

theorem get_commands : u.commands.get i = true ↔ u.Handles i := by
  unfold commands Handles
  cases u.suppCmd with
  | none => simp
  | some b =>
    have hlt : ∀ i ∈ (range 32).drop 3, i < 8 * 4 := by decide
    have hmem : i ∈ (range 32).drop 3 ↔ 3 ≤ i ∧ i < 32 := by
      rw [range_eq_range', drop_range', mem_range'_1]
    simp only [Option.map_some, Option.getD_some, get_copy hlt, Bool.and_eq_true,
      decide_eq_true_eq, hmem, Option.some.injEq, exists_eq_left']
    refine ⟨fun h => ⟨h.1.1, h.2⟩, fun h => ⟨⟨h.1, ?_⟩, h.2⟩⟩
    by_contra hle
    rw [get_of_le (Nat.le_of_not_lt hle)] at h
    cases h.2

theorem get_queries : u.queries.get i = true ↔ i < 32 ∧ u.Answers i := by
  unfold queries Answers
  cases u.suppIq with
  | none => simp
  | some b =>
    have hlt : ∀ i ∈ range 32, i < 8 * 8 := fun i hi => by
      rw [mem_range] at hi
      omega
    simp [get_copy hlt]

end UserEntry

/-- The commands of the users are seen by the flag `has_cmd`. -/
theorem any_commands_iff {users : List UserEntry} :
    (users.any fun u => u.commands ≠ .empty 4) = true ↔ ∃ u ∈ users, ∃ i, u.Handles i := by
  simp only [any_eq_true, decide_eq_true_eq, ne_empty_iff, UserEntry.get_commands]

/-- Of the queries of the users, the flag `has_iq` sees the first half. -/
theorem any_queries_iff {users : List UserEntry} :
    (users.any fun u => u.queries ≠ .empty 8) = true ↔ ∃ u ∈ users, ∃ i < 32, u.Answers i := by
  simp only [any_eq_true, decide_eq_true_eq, ne_empty_iff, UserEntry.get_queries]

/-- The lists that `update_local_capabilities` stores. -/
def derived (links : List LinkEntry) (users : List UserEntry) : Capabilities where
  listNetTypeAddr := if links = [] then none else some (links.map fun e => e.linkId.netTypeAddr)
  eventList := if links = [] then none
    else some (links.foldl (fun b e => b.common (Bitmap.copy (range 32) e.eventList)) (.full 4))
  cmdList := if users.any fun u => u.commands ≠ .empty 4 then
      some (users.foldl (fun b u => b.merge u.commands)
        (links.foldl (fun b e => b.common e.mihCommands) (.full 4)))
    else none
  queryType := if users.any fun u => u.queries ≠ .empty 8 then
      some (users.foldl (fun b u => b.merge u.queries) (.empty 8))
    else none

/-- `update_local_capabilities` assigns to four of the lists of this MIHF. -/
theorem Services.get?_updateLocalCapabilities (cfg : Config) (s : Services) (id : Bytes) :
    (s.updateLocalCapabilities cfg).abook.get? id =
      if id = cfg.mihfid then (s.abook.get? id).map fun a =>
        let c := derived s.lbook.active (s.ubook.map Prod.snd)
        { a with
          listNetTypeAddr := c.listNetTypeAddr, eventList := c.eventList, cmdList := c.cmdList
          queryType := c.queryType }
      else s.abook.get? id := by
  rw [Services.updateLocalCapabilities]
  rw [Book.get?_modify, Book.get?_modify]
  by_cases hid : id = cfg.mihfid
  · rw [if_pos hid, if_pos hid, if_pos hid, Option.map_map]
    refine congrArg (Option.map · _) (funext fun a => ?_)
    have hactive : (s.lbook.map Prod.snd).filter LinkEntry.status = s.lbook.active := rfl
    simp only [hactive, Function.comp_apply, derived, List.isEmpty_iff, List.map_eq_nil_iff]
    by_cases hlinks : s.lbook.active = []
    · simp only [hlinks, if_true]
    · simp only [hlinks, if_false]
  · rw [if_neg hid, if_neg hid, if_neg hid]

section

variable {links : List LinkEntry} {users : List UserEntry}

variable {n : Nat} {present : Prop} {has : Nat → Prop}

theorem publishes_none : Publishes (n := n) none present has ↔ ¬present := by
  simp [Publishes]

theorem publishes_some {b : Bitmap n} :
    Publishes (some b) present has ↔ present ∧ ∀ i < 8 * n, b.get i = true ↔ has i := by
  simp [Publishes]

theorem derived_events (users : List UserEntry) :
    Publishes (derived links users).eventList (links ≠ []) fun i =>
      ∀ e ∈ links, e.eventList.get i = true := by
  by_cases hlinks : links = []
  · simp only [derived, hlinks, if_true, publishes_none, ne_eq, not_true_eq_false,
      not_false_eq_true]
  · simp only [derived, hlinks, if_false, publishes_some, ne_eq, not_false_eq_true, true_and]
    intro i hi
    rw [get_foldl_common, get_full hi, Bool.true_and, all_eq_true]
    simp only [show (32 : Nat) = 8 * 4 from rfl, copy_range]

/-- The commands are right if and only if users and Link SAPs contribute both or neither. -/
theorem derived_commands_iff :
    (Publishes (derived links users).cmdList (links ≠ [] ∨ ∃ u ∈ users, ∃ i, u.Handles i) fun i =>
      (links ≠ [] ∧ ∀ e ∈ links, e.mihCommands.get i = true) ∨ ∃ u ∈ users, u.Handles i) ↔
    (links ≠ [] ↔ ∃ u ∈ users, ∃ i, u.Handles i) := by
  by_cases husers : ∃ u ∈ users, ∃ i, u.Handles i
  · simp only [derived, any_commands_iff.mpr husers, if_true, publishes_some, husers, or_true,
      true_and, iff_true]
    constructor
    · -- without an active Link SAP all bits are set, also those of the commands of a Link SAP
      rintro h rfl
      have h0 := (h 0 (by decide)).mp (by
        rw [get_foldl_merge, foldl_nil, get_full (by decide), Bool.true_or])
      rcases h0 with ⟨hne, -⟩ | ⟨u, -, hu, -⟩
      · exact hne rfl
      · omega
    · intro hlinks i hi
      rw [get_foldl_merge, get_foldl_common, get_full hi, Bool.true_and,
        Bool.or_eq_true, all_eq_true, any_eq_true]
      simp only [UserEntry.get_commands, hlinks, true_and, ne_eq, not_false_eq_true]
  · have hnone : (users.any fun u => u.commands ≠ .empty 4) = false :=
      Bool.eq_false_of_not_eq_true fun h => husers (any_commands_iff.mp h)
    simp only [derived, hnone, Bool.false_eq_true, if_false, publishes_none, husers, or_false,
      iff_false]

/-- The queries are right if and only if they are all among the first half. -/
theorem derived_queries_iff (links : List LinkEntry) :
    (Publishes (derived links users).queryType (∃ u ∈ users, ∃ i, u.Answers i) fun i =>
      ∃ u ∈ users, u.Answers i) ↔ ∀ u ∈ users, ∀ i, u.Answers i → i < 32 := by
  have hget : ∀ i, (users.foldl (fun b u => b.merge u.queries) (empty 8)).get i = true ↔
      ∃ u ∈ users, i < 32 ∧ u.Answers i := by
    intro i
    rw [get_foldl_merge, get_empty, Bool.false_or, any_eq_true]
    simp only [UserEntry.get_queries]
  by_cases husers : ∃ u ∈ users, ∃ i < 32, u.Answers i
  · have hpresent : ∃ u ∈ users, ∃ i, u.Answers i := by
      obtain ⟨u, hu, i, -, hi⟩ := husers
      exact ⟨u, hu, i, hi⟩
    simp only [derived, any_queries_iff.mpr husers, if_true, publishes_some,
      hpresent, true_and, hget]
    constructor
    · intro h u hu i hi
      obtain ⟨-, -, hlt, -⟩ := (h i hi.lt).mpr ⟨u, hu, hi⟩
      exact hlt
    · intro h i _
      exact ⟨fun ⟨u, hu, _, hi⟩ => ⟨u, hu, hi⟩, fun ⟨u, hu, hi⟩ => ⟨u, hu, h u hu i hi, hi⟩⟩
  · have hnone : (users.any fun u => u.queries ≠ .empty 8) = false :=
      Bool.eq_false_of_not_eq_true fun h => husers (any_queries_iff.mp h)
    simp only [derived, hnone, Bool.false_eq_true, if_false, publishes_none]
    constructor
    · intro h u hu i hi
      exact absurd ⟨u, hu, i, hi⟩ h
    · rintro h ⟨u, hu, i, hi⟩
      exact husers ⟨u, hu, i, h u hu i hi, hi⟩

end

/-- `update_local_capabilities` publishes what follows from the books if and only if this MIHF is in
the address book, users contribute commands exactly when a Link SAP is active, and no user has a
query type beyond the first 32. -/
theorem advertises_iff (cfg : Config) (s : Services) :
    (∃ a, (s.updateLocalCapabilities cfg).abook.get? cfg.mihfid = some a ∧
      Advertises s.lbook.active (s.ubook.map Prod.snd) a.toCapabilities) ↔
    (s.abook.get? cfg.mihfid).isSome = true ∧
      (s.lbook.active ≠ [] ↔ ∃ u ∈ s.ubook.map Prod.snd, ∃ i, u.Handles i) ∧
      ∀ u ∈ s.ubook.map Prod.snd, ∀ i, u.Answers i → i < 32 := by
  rw [Services.get?_updateLocalCapabilities, if_pos rfl, Option.isSome_iff_exists]
  cases s.abook.get? cfg.mihfid with
  | none => simp
  | some a =>
    simp only [Option.map_some, Option.some.injEq, exists_eq_left', exists_eq', true_and]
    constructor
    · intro h
      exact ⟨derived_commands_iff.mp h.commands, (derived_queries_iff s.lbook.active).mp h.queries⟩
    · rintro ⟨hcmd, hiq⟩
      exact ⟨rfl, derived_events (s.ubook.map Prod.snd), derived_commands_iff.mpr hcmd,
        (derived_queries_iff s.lbook.active).mpr hiq⟩

namespace Advertisement

/-- A Link SAP with the command `link_get_parameters`. -/
def sampleLink : LinkEntry :=
  { ip := [], port := 0, linkId := ⟨(19 : BitVec 8), .inl ((6 : BitVec 16), [1], ())⟩
    cmdList := (Bitmap.empty 4).set 3 }

/-- A user with the command of position 3. -/
def sampleUser : UserEntry := ⟨[], 0, some ((Bitmap.empty 4).set 3), none⟩

/-- The commands in the entry of this MIHF after an update. -/
def advertisedCommands (lbook : LinkBook) (ubook : UserBook) : Option (Bitmap 4) :=
  let s : Services := { lbook := lbook, ubook := ubook, abook := [([77], {})] }
  ((s.updateLocalCapabilities sampleConfig).abook.get? [77]).bind fun a => a.cmdList

/-- Without a user the command of the Link SAP is not advertised; without a Link SAP every command
is. -/
theorem commands_misadvertised :
    sampleLink.mihCommands.get 0 = true ∧ advertisedCommands [([76], sampleLink)] [] = none ∧
      (∀ i, sampleUser.Handles i → i = 3) ∧
      (advertisedCommands [] [([65], sampleUser)]).map (·.get 0) = some true := by
  refine ⟨by decide, by decide +kernel, ?_, by decide +kernel⟩
  rintro i ⟨-, b, hb, hi⟩
  cases hb
  simpa [Bitmap.get_set] using hi

end Advertisement

end Odtone.Mihf
