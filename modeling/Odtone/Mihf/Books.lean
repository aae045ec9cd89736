import Odtone.Mihf.Services

/-! # The books as finite maps

`link_book`, `user_book` and `address_book` are three classes with the same four operations on the
address of an entity: `add`, `set_ip`, `set_port` and `del`. What they should do is said once, by a
map from identifiers to entries in which `set_ip` and `set_port` assign to one field of one entry.
The setters of `user_book` test the iterator the wrong way round: they leave an entry that exists as
it is, and for an identifier without an entry they assign through `end()`. -/

namespace Odtone.Mihf

open Function EStateM Option

open Wire (Bytes)

/-! ## The specification -/

/-- An operation on a book; `ι` is what `add` is given besides the identifier. -/
inductive BookOp (ι : Type) where
  | add (id : Bytes) (info : ι)
  | setIp (id ip : Bytes)
  | setPort (id : Bytes) (port : UInt16)
  | del (id : Bytes)

namespace BookOp

variable {ι : Type}

/-- Does the operation determine the address of the entity `id`? -/
def renewsIp (id : Bytes) : BookOp ι → Bool
  | .add j _ | .setIp j _ | .del j => j = id
  | .setPort _ _ => false

/-- Does the operation determine the port of the entity `id`? -/
def renewsPort (id : Bytes) : BookOp ι → Bool
  | .add j _ | .setPort j _ | .del j => j = id
  | .setIp _ _ => false

end BookOp

/-- Entries with an address and a port, and the entry that `add` makes where the book has `prev`. -/
structure Contact (ι α : Type) where
  entry (info : ι) (prev : Option α) : α
  ip : α → Bytes
  port : α → UInt16
  setIp : Bytes → α → α
  setPort : UInt16 → α → α
  ip_setIp (v : Bytes) (a : α) : ip (setIp v a) = v
  ip_setPort (v : UInt16) (a : α) : ip (setPort v a) = ip a
  port_setIp (v : Bytes) (a : α) : port (setIp v a) = port a
  port_setPort (v : UInt16) (a : α) : port (setPort v a) = v

namespace Contact

variable {ι α : Type} (c : Contact ι α) {m : Bytes → Option α} {id : Bytes} {op : BookOp ι}

/-- What an operation does to a map from identifiers to entries. -/
def apply (m : Bytes → Option α) : BookOp ι → Bytes → Option α
  | .add id info => Function.update m id (some (c.entry info (m id)))
  | .setIp id ip => Function.update m id ((m id).map (c.setIp ip))
  | .setPort id port => Function.update m id ((m id).map (c.setPort port))
  | .del id => Function.update m id none

theorem map_ip_apply (h : op.renewsIp id = false) :
    (c.apply m op id).map c.ip = (m id).map c.ip := by
  cases op with
  | setPort j v =>
    by_cases hj : id = j
    · subst hj
      simp [apply, comp_def, c.ip_setPort]
    · simp [apply, update_of_ne hj]
  | add j _ | setIp j _ | del j =>
    have hj : id ≠ j := fun heq => by simp [BookOp.renewsIp, heq] at h
    simp [apply, update_of_ne hj]

theorem map_port_apply (h : op.renewsPort id = false) :
    (c.apply m op id).map c.port = (m id).map c.port := by
  cases op with
  | setIp j v =>
    by_cases hj : id = j
    · subst hj
      simp [apply, comp_def, c.port_setIp]
    · simp [apply, update_of_ne hj]
  | add j _ | setPort j _ | del j =>
    have hj : id ≠ j := fun heq => by simp [BookOp.renewsPort, heq] at h
    simp [apply, update_of_ne hj]

end Contact

/-! ## The three books -/

namespace LinkBook

/-- `link_book::set_ip` -/
def setIp (b : LinkBook) (id ip : Bytes) : LinkBook := b.modify id fun e => { e with ip := ip }

/-- `link_book::set_port` -/
def setPort (b : LinkBook) (id : Bytes) (port : UInt16) : LinkBook :=
  b.modify id fun e => { e with port := port }

/-- `link_book::del` -/
def del (b : LinkBook) (id : Bytes) : LinkBook := b.erase id

end LinkBook

namespace AddressBook

/-- `address_book::set_ip` -/
def setIp (b : AddressBook) (id ip : Bytes) : AddressBook :=
  b.modify id fun e => { e with ip := ip }

/-- `address_book::set_port` -/
def setPort (b : AddressBook) (id : Bytes) (port : UInt16) : AddressBook :=
  b.modify id fun e => { e with port := port }

/-- `address_book::del` -/
def del (b : AddressBook) (id : Bytes) : AddressBook := b.erase id

end AddressBook

namespace UserBook

/-- `if (it == _ubook.end()) it->second = ...;`: an entry that is found is left alone, and `end()`
is no entry. -/
def assignAtEnd (b : UserBook) (id : Bytes) : Except Fault UserBook :=
  if (b.get? id).isNone then .error .badPointer else .ok b

/-- `user_book::set_ip` -/
def setIp (b : UserBook) (id _ip : Bytes) : Except Fault UserBook := b.assignAtEnd id

/-- `user_book::set_port` -/
def setPort (b : UserBook) (id : Bytes) (_port : UInt16) : Except Fault UserBook := b.assignAtEnd id

/-- `user_book::del` -/
def del (b : UserBook) (id : Bytes) : UserBook := b.erase id

/-- A call that may fail. -/
def assigning (f : UserBook → Except Fault UserBook) : EStateM Fault UserBook Unit := fun b =>
  match f b with
  | .ok b' => .ok () b'
  | .error e => .error e b

theorem assigning_eq_ok {f : UserBook → Except Fault UserBook} {b b' : UserBook} :
    assigning f b = .ok () b' ↔ f b = .ok b' := by
  unfold assigning
  cases f b <;> simp

end UserBook

inductive BookKind where
  | link
  | user
  | address
deriving DecidableEq

namespace BookKind

def Entry : BookKind → Type
  | .link => LinkEntry
  | .user => UserEntry
  | .address => AddressEntry

/-- What `add` is given. -/
def Info : BookKind → Type
  | .link => Bytes × UInt16 × LinkId
  | .user => Bytes × UInt16 × Option (Bitmap 4) × Option (Bitmap 8)
  | .address => AddressEntry

def contact : (k : BookKind) → Contact k.Info k.Entry
  | .link =>
    { entry := fun info _ => ({ ip := info.1, port := info.2.1, linkId := info.2.2 } : LinkEntry)
      ip := LinkEntry.ip
      port := LinkEntry.port
      setIp := fun v (e : LinkEntry) => { e with ip := v }
      setPort := fun v (e : LinkEntry) => { e with port := v }
      ip_setIp := fun _ _ => rfl
      ip_setPort := fun _ _ => rfl
      port_setIp := fun _ _ => rfl
      port_setPort := fun _ _ => rfl }
  | .user =>
    { entry := fun info _ => (⟨info.1, info.2.1, info.2.2.1, info.2.2.2⟩ : UserEntry)
      ip := UserEntry.ip
      port := UserEntry.port
      setIp := fun v (e : UserEntry) => { e with ip := v }
      setPort := fun v (e : UserEntry) => { e with port := v }
      ip_setIp := fun _ _ => rfl
      ip_setPort := fun _ _ => rfl
      port_setIp := fun _ _ => rfl
      port_setPort := fun _ _ => rfl }
  | .address =>
    -- an entry that exists keeps its address and port
    { entry := fun (info : AddressEntry) (prev : Option AddressEntry) =>
        match prev with
        | some e => { info with ip := e.ip, port := e.port }
        | none => info
      ip := AddressEntry.ip
      port := AddressEntry.port
      setIp := fun v (e : AddressEntry) => { e with ip := v }
      setPort := fun v (e : AddressEntry) => { e with port := v }
      ip_setIp := fun _ _ => rfl
      ip_setPort := fun _ _ => rfl
      port_setIp := fun _ _ => rfl
      port_setPort := fun _ _ => rfl }

/-- One call. -/
def step : (k : BookKind) → BookOp k.Info → EStateM Fault (Book Bytes k.Entry) Unit
  | .link, op => modify fun b : LinkBook =>
    match op with
    | .add id (ip, port, linkId) => b.add id ip port linkId
    | .setIp id ip => b.setIp id ip
    | .setPort id port => b.setPort id port
    | .del id => b.del id
  | .user, op => UserBook.assigning fun b =>
    match op with
    | .add id (ip, port, suppCmd, suppIq) => .ok (b.add id ip port suppCmd suppIq)
    | .setIp id ip => b.setIp id ip
    | .setPort id port => b.setPort id port
    | .del id => .ok (b.del id)
  | .address, op => modify fun b : AddressBook =>
    match op with
    | .add id info => b.add id info
    | .setIp id ip => b.setIp id ip
    | .setPort id port => b.setPort id port
    | .del id => b.del id

/-! ## Refinement -/

section

variable (k : BookKind) {b : Book Bytes k.Entry} {op : BookOp k.Info}

/-- The call returns, and the book is then the map it should be. -/
def AsMap (op : BookOp k.Info) (b : Book Bytes k.Entry) : Prop :=
  ∃ b', k.step op b = .ok () b' ∧ b'.get? = k.contact.apply b.get? op

/-- A setter of the book of users is given what the entry has already. -/
def Harmless (op : BookOp k.Info) (b : Book Bytes k.Entry) : Prop :=
  k = .user → match op with
    | .setIp id ip => (b.get? id).map k.contact.ip = some ip
    | .setPort id port => (b.get? id).map k.contact.port = some port
    | .add _ _ | .del _ => True

theorem address_add (b : AddressBook) (id : Bytes) (info : AddressEntry) :
    b.add id info = b.insert id (BookKind.address.contact.entry info (b.get? id)) := by
  unfold AddressBook.add
  cases hb : b.get? id <;> rfl

theorem link_asMap (op : BookOp (Info .link)) (b : LinkBook) : AsMap .link op b := by
  cases op with
  | add id info => exact ⟨_, rfl, b.get?_insert_eq_update id _⟩
  | setIp id _ | setPort id _ => exact ⟨_, rfl, b.get?_modify_eq_update id _⟩
  | del id => exact ⟨_, rfl, b.get?_erase_eq_update id⟩

theorem address_asMap (op : BookOp (Info .address)) (b : AddressBook) : AsMap .address op b := by
  cases op with
  | add id info =>
    exact ⟨_, rfl, (congrArg Book.get? (address_add b id info)).trans
      (b.get?_insert_eq_update id _)⟩
  | setIp id _ | setPort id _ => exact ⟨_, rfl, b.get?_modify_eq_update id _⟩
  | del id => exact ⟨_, rfl, b.get?_erase_eq_update id⟩

theorem assignAtEnd_asMap (b : UserBook) (id : Bytes) {β : Type} {f : β → UserEntry → UserEntry}
    {g : UserEntry → β} (hf : ∀ v e, f v e = e ↔ g e = v) (v : β) :
    (∃ b', UserBook.assigning (·.assignAtEnd id) b = .ok () b' ∧
        b'.get? = update b.get? id ((b.get? id).map (f v))) ↔ (b.get? id).map g = some v := by
  simp only [UserBook.assigning_eq_ok, UserBook.assignAtEnd]
  cases hb : b.get? id with
  | none => simp
  | some e =>
    simp only [isNone_some, Bool.false_eq_true, if_false, Except.ok.injEq,
      exists_eq_left', map_some, some.injEq]
    constructor
    · intro h
      have hid := congrFun h id
      rw [hb, update_self, some.injEq] at hid
      exact (hf v e).mp hid.symm
    · intro h
      rw [(hf v e).mpr h, ← hb, update_eq_self]

theorem user_asMap_iff (op : BookOp (Info .user)) (b : UserBook) :
    AsMap .user op b ↔ Harmless .user op b := by
  cases op with
  | add id info => exact iff_of_true ⟨_, rfl, b.get?_insert_eq_update id _⟩ fun _ => trivial
  | del id => exact iff_of_true ⟨_, rfl, b.get?_erase_eq_update id⟩ fun _ => trivial
  | setIp id ip =>
    have hset := assignAtEnd_asMap b id (f := fun v e => { e with ip := v })
      (g := UserEntry.ip) (fun v e => by cases e; simp [eq_comm]) ip
    exact hset.trans ⟨fun h _ => h, fun h => h rfl⟩
  | setPort id port =>
    have hset := assignAtEnd_asMap b id (f := fun v e => { e with port := v })
      (g := UserEntry.port) (fun v e => by cases e; simp [eq_comm]) port
    exact hset.trans ⟨fun h _ => h, fun h => h rfl⟩

theorem asMap_iff (k : BookKind) (op : BookOp k.Info) (b : Book Bytes k.Entry) :
    k.AsMap op b ↔ k.Harmless op b := by
  cases k with
  | link => exact iff_of_true (link_asMap op b) nofun
  | user => exact user_asMap_iff op b
  | address => exact iff_of_true (address_asMap op b) nofun

section

variable {β : Type} {k : BookKind} {ops : List (BookOp k.Info)} {b b' : Book Bytes k.Entry}
  {op : BookOp k.Info} {g : k.Entry → β} {id : Bytes} {renews : BookOp k.Info → Bool}

theorem runAll_cons (h : k.step op b = .ok () b') :
    runAll k.step (op :: ops) b = runAll k.step ops b' := by
  rw [runAll, h]

variable (hg : ∀ m op, renews op = false → (k.contact.apply m op id).map g = (m id).map g)
  (hops : ∀ op ∈ ops, renews op = false)
include hg hops

/-- What the operations of a run leave alone stays as it is. -/
theorem runAll_keeps (h : Along k.step k.AsMap ops b) :
    ((runAll k.step ops b).get? id).map g = (b.get? id).map g := by
  induction ops generalizing b with
  | nil => rfl
  | cons op ops ih =>
    obtain ⟨hop, hops⟩ := List.forall_mem_cons.mp hops
    obtain ⟨⟨b', hstep, hget⟩, hrest⟩ := h
    rw [hstep] at hrest
    rw [runAll_cons hstep, ih hops hrest, hget, hg _ _ hop]

/-- What an operation sets stays until an operation renews it. -/
theorem runAll_sets {v : β} (hset : (k.contact.apply b.get? op id).map g = some v)
    (h : Along k.step k.AsMap (op :: ops) b) :
    ((runAll k.step (op :: ops) b).get? id).map g = some v := by
  obtain ⟨⟨b', hstep, hget⟩, hrest⟩ := h
  rw [hstep] at hrest
  rw [runAll_cons hstep, runAll_keeps hg hops hrest, hget, hset]

end

/-- A sequence of operations does to a book what it does to the map, each of them to the named field
of the named entry alone, if and only if no setter of the book of users is called but with the value
that is there. What such a sequence has set stays until it is set again. -/
theorem book_updates_iff (k : BookKind) (ops : List (BookOp k.Info)) (b : Book Bytes k.Entry) :
    (Along k.step k.AsMap ops b ↔ Along k.step k.Harmless ops b) ∧
    (∀ id v, (b.get? id).isSome → (∀ op ∈ ops, op.renewsIp id = false) →
      Along k.step k.Harmless (.setIp id v :: ops) b →
      ((runAll k.step (.setIp id v :: ops) b).get? id).map k.contact.ip = some v) ∧
    ∀ id v, (b.get? id).isSome → (∀ op ∈ ops, op.renewsPort id = false) →
      Along k.step k.Harmless (.setPort id v :: ops) b →
      ((runAll k.step (.setPort id v :: ops) b).get? id).map k.contact.port = some v := by
  have hmap : k.AsMap = k.Harmless := by
    funext op b
    exact propext (k.asMap_iff op b)
  rw [← hmap]
  refine ⟨Iff.rfl, fun id v hid hops h => ?_, fun id v hid hops h => ?_⟩
  · obtain ⟨e, he⟩ := isSome_iff_exists.mp hid
    refine runAll_sets (fun m op => k.contact.map_ip_apply) hops ?_ h
    simp [Contact.apply, he, k.contact.ip_setIp]
  · obtain ⟨e, he⟩ := isSome_iff_exists.mp hid
    refine runAll_sets (fun m op => k.contact.map_port_apply) hops ?_ h
    simp [Contact.apply, he, k.contact.port_setPort]

/-- `set_ip` does not change the entry of a user, and for an unknown user it assigns through
`end()`. -/
theorem user_setIp_ignored :
    let b : UserBook := [([65], ⟨[1], 4551, none, none⟩)]
    ((runAll (step .user) [.setIp [65] [2]] b).get? [65]).map UserEntry.ip = some [1] ∧
      step .user (.setIp [66] [2]) b = .error .badPointer b ∧
      ¬Along (step .user) (AsMap .user) [.setIp [65] [2]] b ∧
      ¬Along (step .user) (AsMap .user) [.setIp [66] [2]] b := by
  refine ⟨rfl, rfl, ?_, ?_⟩
  all_goals
    rintro ⟨h, -⟩
    have := (user_asMap_iff _ _).mp h rfl
    revert this
    decide

end

end BookKind

end Odtone.Mihf
