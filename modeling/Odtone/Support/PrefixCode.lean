import Mathlib.Data.List.Basic

/-! # Prefix codes

A set of words is prefix free when none of them is a proper prefix of another. A decoder that takes
a word off the front of its input can then take at most one: two words of the set at the front of
the same input are equal. Formats built from fixed-size words, from a header that determines the
format of the body, and from counted repetitions are prefix free.
-/

universe u v

/-- At most one word of `P` stands at the front of any list. -/
def PrefixFree {β : Type u} (P : List β → Prop) : Prop :=
  ∀ ⦃a b x y : List β⦄, P a → P b → a ++ x = b ++ y → a = b

/-- `n` words of `P`, one after the other. -/
def Repeated {β : Type u} (P : List β → Prop) (n : Nat) (w : List β) : Prop :=
  ∃ parts : List (List β), parts.length = n ∧ (∀ p ∈ parts, P p) ∧ w = parts.flatten

theorem Repeated.nil {β : Type u} {P : List β → Prop} : Repeated P 0 [] := ⟨[], rfl, by simp, rfl⟩

theorem Repeated.cons {β : Type u} {P : List β → Prop} {n : Nat} {p w : List β} (hp : P p)
    (h : Repeated P n w) : Repeated P (n + 1) (p ++ w) := by
  obtain ⟨parts, rfl, hparts, rfl⟩ := h
  exact ⟨p :: parts, rfl, by simpa [hp] using hparts, rfl⟩

theorem Repeated.length_eq {β : Type u} {k n : Nat} {w : List β}
    (h : Repeated (fun p => p.length = k) n w) : w.length = n * k := by
  obtain ⟨parts, rfl, hparts, rfl⟩ := h
  rw [List.length_flatten, List.map_congr_left hparts]
  simp

namespace PrefixFree

open List

variable {β : Type u} {ι : Type v} {P : List β → Prop}

theorem of_length (n : Nat) (h : ∀ a, P a → a.length = n) : PrefixFree P := by
  intro a b x y ha hb heq
  exact (append_inj heq ((h a ha).trans (h b hb).symm)).1

theorem nil : PrefixFree fun a : List β => a = [] := of_length 0 fun _ ha => by simp [ha]

theorem mono {Q : List β → Prop} (h : PrefixFree P) (hQP : ∀ a, Q a → P a) : PrefixFree Q :=
  fun _ _ _ _ ha hb heq => h (hQP _ ha) (hQP _ hb) heq

/-- A header that determines the format of what follows it. -/
theorem bind {F : ι → List β → Prop} {W : ι → List β → Prop}
    (hF : PrefixFree fun f => ∃ i, F i f) (hi : ∀ {i j f}, F i f → F j f → i = j)
    (hW : ∀ i, PrefixFree (W i)) : PrefixFree fun w => ∃ i f v, w = f ++ v ∧ F i f ∧ W i v := by
  rintro _ _ x y ⟨i, f, v, rfl, hf, hv⟩ ⟨j, g, w, rfl, hg, hw⟩ heq
  simp only [append_assoc] at heq
  obtain rfl := hF ⟨i, hf⟩ ⟨j, hg⟩ heq
  obtain rfl := hi hf hg
  rw [hW i hv hw (append_cancel_left heq)]

theorem append {Q : List β → Prop} (hP : PrefixFree P) (hQ : PrefixFree Q) :
    PrefixFree fun w => ∃ f v, w = f ++ v ∧ P f ∧ Q v := by
  have h := bind (ι := Unit) (hP.mono fun a ⟨_, ha⟩ => ha) (fun _ _ => rfl) fun _ => hQ
  exact h.mono fun w ⟨f, v, hw⟩ => ⟨(), f, v, hw⟩

theorem repeated (hP : PrefixFree P) (n : Nat) : PrefixFree (Repeated P n) := by
  induction n with
  | zero =>
    refine nil.mono ?_
    rintro _ ⟨parts, hlen, -, rfl⟩
    rw [length_eq_zero_iff.mp hlen, flatten_nil]
  | succ n ih =>
    refine (hP.append ih).mono ?_
    rintro _ ⟨parts, hlen, hparts, rfl⟩
    obtain ⟨p, parts, rfl⟩ := exists_cons_of_length_eq_add_one hlen
    refine ⟨p, parts.flatten, rfl, hparts p (by simp), parts, by simpa using hlen, ?_, rfl⟩
    exact fun q hq => hparts q (by simp [hq])

end PrefixFree
