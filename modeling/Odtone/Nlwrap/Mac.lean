import Mathlib.Data.List.Forall2
import Odtone.Support.Hex

/-! # MAC attributes of netlink requests

`genl_msg::put_mac` reads a MAC address with `mac_addr_a2n`, which cuts its argument at the colons
by writing zeros over them. The loop is bounded by `ETH_ALEN`, the length of a text, where the
buffer of the caller has `ETH_NLEN` bytes; and the caller takes the result zero for a failure.
-/

namespace Odtone.Nlwrap

open List
open Hex (digit?)

/-- `ETH_NLEN` -/
def ethNlen : Nat := 6

/-- `ETH_ALEN` -/
def ethAlen : Nat := 18

/-- What a run of `mac_addr_a2n` leaves: its result, the text it was given and the bytes it has
stored from `mac_addr[0]` on. -/
structure Converted where
  ret : Int
  text : List UInt8
  stored : List UInt8 := []
deriving DecidableEq

/-- The characters in front of the first colon or zero. -/
def group (arg : List UInt8) : List UInt8 := arg.takeWhile fun c => c ≠ 0x3a ∧ c ≠ 0

/-- `sscanf` on one group, to what is stored in a byte of `mac_addr`. -/
def scanByte (g : List UInt8) : Option UInt8 :=
  ((Hex.scan g).filter fun temp => 0 ≤ temp ∧ temp ≤ 255).map fun temp => UInt8.ofNat temp.toNat

/-- `mac_addr_a2n` with `n` rounds of its loop left. -/
def macAddrA2n : Nat → List UInt8 → Converted
  | 0, arg => ⟨0, arg, []⟩
  | n + 1, arg =>
    match arg.drop (group arg).length, scanByte (group arg) with
    | 0x3a :: cp, none => ⟨-1, group arg ++ 0 :: cp, []⟩
    | 0x3a :: cp, some b =>
      let r := macAddrA2n n cp
      ⟨r.ret, group arg ++ 0 :: r.text, b :: r.stored⟩
    | _, none => ⟨-1, arg, []⟩
    -- the break: `i` is the number of rounds made before
    | _, some b => ⟨if n = 0 then 0 else -1, arg, [b]⟩

/-- Groups with colons between them. -/
def joined : List (List UInt8) → List UInt8
  | [] => []
  | g :: gs => g ++ gs.flatMap (0x3a :: ·)

/-- `mac_addr_n2a` -/
def macAddrN2a (arg : List UInt8) : List UInt8 :=
  joined (arg.map fun b => [Hex.lower (b.toNat / 16), Hex.lower (b.toNat % 16)])

/-- What `put_mac` leaves: the exception or the bytes of the attribute, the string of the caller and
how many bytes were stored from the start of `nmac` on. -/
structure PutMac where
  result : Except String (List UInt8)
  text : List UInt8
  stored : Nat

/-- `put_mac`, with `stack` for what is in `nmac` before and `room` for the success of
`nla_put`. -/
def putMac (stack : List UInt8) (room : Bool) (mac : List UInt8) : PutMac :=
  let r := macAddrA2n ethAlen mac
  { result :=
      if r.ret = 0 then .error "Invalid mac address given"
      else if !room then .error "Error putting MAC in nl_msg"
      else .ok ((r.stored ++ stack.drop r.stored.length).take ethNlen)
    text := r.text
    stored := r.stored.length }

/-! ## Six groups -/

/-- Digits for the value of a byte. -/
structure IsGroup (g : List UInt8) (b : UInt8) : Prop where
  ne_nil : g ≠ []
  digits : ∀ c ∈ g, (digit? c).isSome
  value : Hex.value g = b.toNat

/-- Six groups of digits with colons between them, for the bytes `bs`. -/
def IsMac (s bs : List UInt8) : Prop :=
  bs.length = ethNlen ∧ ∃ gs, s = joined gs ∧ Forall₂ IsGroup gs bs

/-- Only the buffer is written, the string is kept, the six bytes of a MAC address are added, and
any other string is refused. -/
structure PutMac.Correct (p : PutMac) (s : List UInt8) : Prop where
  bounded : p.stored ≤ ethNlen
  kept : p.text = s
  added : ∀ bs, IsMac s bs → p.result = .ok bs
  refused : (¬ ∃ bs, IsMac s bs) → ∃ e, p.result = .error e

variable {g s bs stack : List UInt8} {b : UInt8} {n : Nat}

theorem IsGroup.scanByte_eq (h : IsGroup g b) : scanByte g = some b := by
  have hb : b.toNat < 256 := b.toNat_lt
  have hscan : Hex.scan g = some (b.toNat : Int) := by
    rw [Hex.scan_digits h.ne_nil h.digits (by rw [h.value]; exact hb), h.value]
  have hrange : (0 : Int) ≤ b.toNat ∧ (b.toNat : Int) ≤ 255 := by omega
  simp [scanByte, hscan, Option.filter, hrange]

theorem IsGroup.plain (h : IsGroup g b) : ∀ c ∈ g, c ≠ 0x3a ∧ c ≠ 0 := fun c hc =>
  ⟨Hex.ne_of_digit (h.digits c hc) (by decide), Hex.ne_of_digit (h.digits c hc) (by decide)⟩

theorem group_append {r : List UInt8} (hg : ∀ c ∈ g, c ≠ 0x3a ∧ c ≠ 0) :
    group (g ++ 0x3a :: r) = g := by
  rw [group, takeWhile_append_of_pos (by simpa using hg)]
  simp

/-- The groups are stored in their order. With fewer of them than rounds the loop is left by its
break, and the result is a failure. -/
theorem macAddrA2n_joined {gs : List (List UInt8)} (h : Forall₂ IsGroup gs bs)
    (hg : IsGroup g b) (hn : gs.length < n) :
    (macAddrA2n (n + 1) (joined (g :: gs))).ret = -1 ∧
      (macAddrA2n (n + 1) (joined (g :: gs))).stored = b :: bs := by
  induction h generalizing g b n with
  | nil =>
    have hgroup : group (joined [g]) = g := by
      simpa [joined, group] using hg.plain
    have hrest : (joined [g]).drop g.length = [] := by simp [joined]
    have hpos : n ≠ 0 := Nat.ne_of_gt hn
    simp only [macAddrA2n, hgroup, hrest, hg.scanByte_eq, hpos, if_false, and_self]
  | @cons g' b' gs bs hg' h ih =>
    have hgroup : group (joined (g :: g' :: gs)) = g := group_append hg.plain
    have hrest : (joined (g :: g' :: gs)).drop g.length = 0x3a :: joined (g' :: gs) := by
      simp [joined]
    obtain ⟨n, rfl⟩ : ∃ k, n = k + 1 := ⟨n - 1, by omega⟩
    obtain ⟨hret, hstored⟩ := ih hg' (Nat.lt_of_succ_lt_succ hn)
    rw [macAddrA2n]
    simp only [hgroup, hrest, hg.scanByte_eq, hret, hstored, and_self]

/-- The result is zero only if all rounds have stored a byte. -/
theorem stored_of_ret (h : (macAddrA2n n s).ret = 0) : (macAddrA2n n s).stored.length = n := by
  induction n generalizing s with
  | zero => rfl
  | succ n ih =>
    rw [macAddrA2n] at h ⊢
    split at h <;> simp_all

theorem text_ne {r : List UInt8} (hg : ∀ c ∈ g, c ≠ 0x3a ∧ c ≠ 0) (hs : s = g ++ 0x3a :: r) :
    (macAddrA2n (n + 1) s).text ≠ s := by
  subst hs
  have hrest : (g ++ 0x3a :: r).drop g.length = 0x3a :: r := by simp
  rw [macAddrA2n, group_append hg, hrest]
  split <;> simp_all

theorem isGroup_lower (b : UInt8) :
    IsGroup [Hex.lower (b.toNat / 16), Hex.lower (b.toNat % 16)] b := by
  have hb : b.toNat < 256 := b.toNat_lt
  have hhi := Hex.digit?_lower (n := b.toNat / 16) (by omega)
  have hlo := Hex.digit?_lower (n := b.toNat % 16) (by omega)
  refine ⟨by simp, by simp [hhi, hlo], ?_⟩
  simp [Hex.value, hhi, hlo]
  omega

theorem isMac_macAddrN2a (h : bs.length = ethNlen) : IsMac (macAddrN2a bs) bs := by
  refine ⟨h, _, rfl, ?_⟩
  rw [forall₂_map_left_iff, forall₂_same]
  exact fun b _ => isGroup_lower b

theorem IsMac.result_eq (h : IsMac s bs) : (putMac stack true s).result = .ok bs := by
  obtain ⟨hlen, gs, rfl, hgs⟩ := h
  cases hgs with
  | nil => cases hlen
  | @cons g b gs bs hg hgs =>
    have hbs : bs.length = 5 := Nat.succ.inj hlen
    have hgs' : gs.length < 17 := by rw [hgs.length_eq, hbs]; decide
    obtain ⟨hret, hstored⟩ := macAddrA2n_joined hgs hg hgs'
    simp [putMac, ethAlen, hret, hstored, ethNlen, hbs]

/-- The colons of a MAC address are overwritten. -/
theorem IsMac.text_ne (h : IsMac s bs) : (putMac stack true s).text ≠ s := by
  obtain ⟨hlen, gs, rfl, hgs⟩ := h
  cases hgs with
  | nil => cases hlen
  | cons hg hgs =>
    cases hgs with
    | nil => cases hlen
    | cons hg' hgs => exact Nlwrap.text_ne hg.plain rfl

/-- The six bytes of a MAC address are added, also of one that `mac_addr_n2a` has written. But no
string meets the whole of what is required: a MAC address is overwritten, and a string is refused
only after eighteen bytes of it have been stored. -/
theorem putMac_not_correct (stack s : List UInt8) :
    ¬ (putMac stack true s).Correct s ∧
      (∀ bs, IsMac s bs → (putMac stack true s).result = .ok bs) ∧
      ∀ bs, bs.length = ethNlen → (putMac stack true (macAddrN2a bs)).result = .ok bs := by
  refine ⟨?_, fun bs h => h.result_eq, fun bs h => (isMac_macAddrN2a h).result_eq⟩
  intro hcorrect
  by_cases hmac : ∃ bs, IsMac s bs
  · obtain ⟨bs, hmac⟩ := hmac
    exact hmac.text_ne hcorrect.kept
  · obtain ⟨e, he⟩ := hcorrect.refused hmac
    have hret : (macAddrA2n ethAlen s).ret = 0 := by
      by_contra hret
      simp [putMac, hret] at he
    have hbounded : (macAddrA2n ethAlen s).stored.length ≤ ethNlen := hcorrect.bounded
    rw [stored_of_ret hret] at hbounded
    exact absurd hbounded (by decide)

/-- `00:11:22:33:44:55` is overwritten. -/
theorem putMac_overwrites :
    ¬ (putMac (replicate 6 0) true (macAddrN2a [0x00, 0x11, 0x22, 0x33, 0x44, 0x55])).Correct
      (macAddrN2a [0x00, 0x11, 0x22, 0x33, 0x44, 0x55]) :=
  fun h => absurd h.kept (by decide)

end Odtone.Nlwrap
