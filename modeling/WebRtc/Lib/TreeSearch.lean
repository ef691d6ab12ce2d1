import Mathlib.Data.List.Basic
import Mathlib.Data.List.TakeWhile
import Mathlib.Tactic.Cases

/-!
# Searching a tree whose order may fail

A search goes left or right at each key it meets, by a test that is meant to hold for the keys in
front only. Where it is not monotone, the place reached depends on the shape of the tree; but the
key in front of it has passed the test, and the key behind it has not. This is all that is assumed
here.
-/

namespace TreeSearch

open List

variable {κ : Type}

structure IsBoundary (test : κ → Bool) (keys : List κ) (i : Nat) : Prop where
  le : i ≤ keys.length
  front : ∀ k ∈ (keys.take i).getLast?, test k = true
  back : ∀ k ∈ (keys.drop i).head?, test k = false

structure Search (κ : Type) where
  index : (κ → Bool) → List κ → Nat
  boundary : ∀ test keys, IsBoundary test keys (index test keys)

theorem isBoundary_takeWhile (test : κ → Bool) (keys : List κ) :
    IsBoundary test keys (keys.takeWhile test).length := by
  have hsplit : keys = keys.takeWhile test ++ keys.dropWhile test :=
    takeWhile_append_dropWhile.symm
  have htake := (congrArg (take _) hsplit).trans take_left
  have hdrop := (congrArg (drop _) hsplit).trans drop_left
  refine ⟨(takeWhile_sublist _).length_le, ?_, ?_⟩
  · rw [htake]
    intro k hk
    exact mem_takeWhile_imp (mem_of_getLast? hk)
  · rw [hdrop]
    intro k hk
    have hhead := head?_dropWhile_not test keys
    rw [Option.mem_def.mp hk] at hhead
    exact hhead

/-- The search that meets every key from the front on. -/
def Search.leftmost : Search κ where
  index test keys := (keys.takeWhile test).length
  boundary := isBoundary_takeWhile

section Monotone

variable {test : κ → Bool} {keys : List κ} {i : Nat}

section

variable (h : IsBoundary test keys i)
  (mono : keys.Pairwise fun a b => test b = true → test a = true)
include h mono

/-- Where the test is monotone, a search ends behind the last key that passes. -/
theorem IsBoundary.test_of_mem_take {k : κ} (hk : k ∈ keys.take i) : test k = true := by
  have hfront := mono.sublist (take_sublist i keys)
  obtain ⟨front, last, hlast⟩ : ∃ front last, keys.take i = front ++ [last] :=
    (eq_nil_or_concat' _).resolve_left (ne_nil_of_mem hk)
  have htest : test last = true := h.front last (by rw [hlast]; exact getLast?_concat)
  rw [hlast] at hk hfront
  rcases mem_append.mp hk with hmem | hmem
  · exact List.Pairwise.rel_of_mem_append hfront hmem mem_cons_self htest
  · rw [mem_singleton.mp hmem]
    exact htest

theorem IsBoundary.not_test_of_mem_drop {k : κ} (hk : k ∈ keys.drop i) : test k = false := by
  have hback := mono.sublist (drop_sublist i keys)
  cases hrest : keys.drop i with
  | nil =>
    rw [hrest] at hk
    exact absurd hk not_mem_nil
  | cons head tail =>
    have htest := h.back head (by rw [hrest]; rfl)
    rw [hrest] at hk hback
    rcases mem_cons.mp hk with rfl | hmem
    · exact htest
    · by_contra hpass
      have := rel_of_pairwise_cons hback hmem (eq_true_of_ne_false hpass)
      exact Bool.false_ne_true (htest.symm.trans this)

end

end Monotone

end TreeSearch
