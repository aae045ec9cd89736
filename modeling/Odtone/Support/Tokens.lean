import Mathlib.Data.List.Basic

/-! # Tokens between separators

A text is cut at a separator and empty tokens are dropped, so that separators at either end and
several of them in a row leave nothing behind.
-/

namespace Tokens

open List

variable {α : Type} [DecidableEq α] {sep : α} {cur g : List α} {gs : List (List α)}

/-- The token that has been read, if it is not empty. -/
def flush (cur : List α) : List (List α) := if cur = [] then [] else [cur]

/-- The tokens of a text of which `cur` has been read since the last separator. -/
def tokensFrom (sep : α) : List α → List α → List (List α)
  | cur, [] => flush cur
  | cur, c :: cs =>
    if c = sep then flush cur ++ tokensFrom sep [] cs else tokensFrom sep (cur ++ [c]) cs

/-- The tokens of a text -/
def tokens (sep : α) (text : List α) : List (List α) := tokensFrom sep [] text

theorem tokensFrom_of_notMem (h : sep ∉ g) : tokensFrom sep cur g = flush (cur ++ g) := by
  induction g generalizing cur with
  | nil => simp [tokensFrom]
  | cons c g ih =>
    rw [mem_cons, not_or] at h
    rw [tokensFrom, if_neg (Ne.symm h.1), ih h.2, append_assoc, singleton_append]

theorem tokensFrom_append (a b : List α) :
    tokensFrom sep cur (a ++ sep :: b) = tokensFrom sep cur a ++ tokens sep b := by
  induction a generalizing cur with
  | nil => simp [tokensFrom, tokens]
  | cons c a ih =>
    rw [cons_append, tokensFrom, tokensFrom]
    split_ifs
    · rw [ih, append_assoc]
    · exact ih

theorem tokens_append (a b : List α) : tokens sep (a ++ sep :: b) = tokens sep a ++ tokens sep b :=
  tokensFrom_append a b

theorem tokens_of_notMem (hne : g ≠ []) (h : sep ∉ g) : tokens sep g = [g] := by
  rw [tokens, tokensFrom_of_notMem h, nil_append, flush, if_neg hne]

/-- Tokens with separators between them are found again. -/
theorem tokens_intercalate (h : ∀ g ∈ gs, g ≠ [] ∧ sep ∉ g) :
    tokens sep (intercalate [sep] gs) = gs := by
  induction gs with
  | nil => rfl
  | cons g gs ih =>
    obtain ⟨hg, hgs⟩ := forall_mem_cons.mp h
    have htoken := tokens_of_notMem hg.1 hg.2
    cases gs with
    | nil => rw [intercalate_singleton, htoken]
    | cons g' gs =>
      rw [intercalate_cons_cons, append_assoc, singleton_append, tokens_append,
        htoken, ih hgs, singleton_append]

end Tokens
