import Mathlib.Data.List.Basic

/-!
# Stable sorting by a number

A list is a stable sorting of another one when it is ordered by a number of its elements and, for
every number, the elements of that number stand in the same order in both lists. There is exactly
one such list (`StablySorts.unique`), merge sort finds it (`stablySorts_mergeSort`), and to sort
what elements produce is to sort the elements first (`StablySorts.flatMap`).
-/

set_option autoImplicit false

namespace ArticleAudit.Audit

variable {α β : Type} {number : α → UInt32} {numberOf : β → UInt32} {l sorted : List α}

/-- The sorted list is ordered by number, and elements of one number keep their order. -/
structure StablySorts (number : α → UInt32) (l sorted : List α) : Prop where
  ordered : sorted.Pairwise fun a b => number a ≤ number b
  stable : ∀ n, sorted.filter (number · == n) = l.filter (number · == n)

namespace StablySorts

/-- An element of the sorted list is one of the list. -/
theorem mem_iff (h : StablySorts number l sorted) (a : α) : a ∈ sorted ↔ a ∈ l := by
  have hmem : ∀ xs : List α, a ∈ xs ↔ a ∈ xs.filter (number · == number a) := by
    intro xs
    simp
  rw [hmem sorted, hmem l, h.stable]

/-- The first of several elements has the least number. -/
theorem le_of_mem {a b : α} {rest : List α} (h : StablySorts number l (a :: rest))
    (hb : b ∈ a :: rest) : number a ≤ number b := by
  rcases List.mem_cons.mp hb with rfl | hb
  · exact UInt32.le_refl _
  · exact (List.pairwise_cons.mp h.ordered).1 b hb

/-- Two stable sortings of a list start with the same element. -/
theorem head_eq {a b : α} {as bs : List α} (ha : StablySorts number l (a :: as))
    (hb : StablySorts number l (b :: bs)) : a = b := by
  have hab : b ∈ a :: as := (ha.mem_iff b).mpr ((hb.mem_iff b).mp List.mem_cons_self)
  have hba : a ∈ b :: bs := (hb.mem_iff a).mpr ((ha.mem_iff a).mp List.mem_cons_self)
  have hnumber : number a = number b := UInt32.le_antisymm (ha.le_of_mem hab) (hb.le_of_mem hba)
  -- Both are the first element of their number.
  have hfilter := (ha.stable (number a)).trans (hb.stable (number a)).symm
  rw [List.filter_cons_of_pos (by simp), List.filter_cons_of_pos (by simp [hnumber])] at hfilter
  exact (List.cons.inj hfilter).1

/-- A list has one stable sorting. -/
theorem unique {other : List α} (h : StablySorts number l sorted)
    (hother : StablySorts number l other) : sorted = other := by
  induction sorted generalizing l other with
  | nil =>
    cases other with
    | nil => rfl
    | cons b bs =>
      have hb := (h.mem_iff b).mpr ((hother.mem_iff b).mp List.mem_cons_self)
      cases hb
  | cons a as ih =>
    cases other with
    | nil =>
      have ha := (hother.mem_iff a).mpr ((h.mem_iff a).mp List.mem_cons_self)
      cases ha
    | cons b bs =>
      obtain rfl : a = b := h.head_eq hother
      have hrest : StablySorts number as bs := by
        refine ⟨(List.pairwise_cons.mp hother.ordered).2, ?_⟩
        intro n
        have hfilter := (hother.stable n).trans (h.stable n).symm
        by_cases hn : number a = n
        · rw [List.filter_cons_of_pos (by simp [hn]), List.filter_cons_of_pos (by simp [hn])]
            at hfilter
          exact (List.cons.inj hfilter).2
        · rwa [List.filter_cons_of_neg (by simp [hn]), List.filter_cons_of_neg (by simp [hn])]
            at hfilter
      have hself : StablySorts number as as :=
        ⟨(List.pairwise_cons.mp h.ordered).2, fun _ => rfl⟩
      rw [ih hself hrest]

/-- What elements produce is sorted with the elements, if it carries their numbers. -/
theorem flatMap {f : α → List β} (h : StablySorts number l sorted)
    (hf : ∀ a, ∀ b ∈ f a, numberOf b = number a) :
    StablySorts numberOf (l.flatMap f) (sorted.flatMap f) := by
  constructor
  · rw [List.pairwise_flatMap]
    constructor
    · intro a _
      refine List.pairwise_of_forall_mem_list ?_
      intro x hx y hy
      rw [hf a x hx, hf a y hy]
      exact UInt32.le_refl _
    · refine h.ordered.imp ?_
      intro a b hab x hx y hy
      rw [hf a x hx, hf b y hy]
      exact hab
  · intro n
    -- What has a number is what the elements of that number produce.
    have hfilter : ∀ xs : List α, (xs.flatMap f).filter (numberOf · == n) =
        (xs.filter (number · == n)).flatMap f := by
      intro xs
      induction xs with
      | nil => rfl
      | cons a rest ih =>
        rw [List.flatMap_cons, List.filter_append, ih]
        by_cases ha : number a = n
        · rw [List.filter_cons_of_pos (by simp [ha]), List.flatMap_cons]
          congr 1
          rw [List.filter_eq_self]
          intro b hb
          simp [hf a b hb, ha]
        · have hnone : (f a).filter (numberOf · == n) = [] := by
            rw [List.filter_eq_nil_iff]
            intro b hb
            simp [hf a b hb, ha]
          rw [List.filter_cons_of_neg (by simp [ha]), hnone, List.nil_append]
    rw [hfilter, hfilter, h.stable]

end StablySorts

/-- Merge sort is stable. -/
theorem stablySorts_mergeSort (number : α → UInt32) (l : List α) :
    StablySorts number l (l.mergeSort fun a b => number a ≤ number b) := by
  have htrans : ∀ a b c : α, decide (number a ≤ number b) = true →
      decide (number b ≤ number c) = true → decide (number a ≤ number c) = true := by
    intro a b c hab hbc
    simp only [decide_eq_true_eq] at *
    exact UInt32.le_trans hab hbc
  have htotal : ∀ a b : α,
      (decide (number a ≤ number b) || decide (number b ≤ number a)) = true := by
    intro a b
    simpa using UInt32.le_total (number a) (number b)
  constructor
  · simpa using List.pairwise_mergeSort htrans htotal l
  · intro n
    have hordered : (l.filter (number · == n)).Pairwise
        fun a b => decide (number a ≤ number b) = true := by
      refine List.pairwise_of_forall_mem_list ?_
      intro a ha b hb
      have ha := (List.mem_filter.mp ha).2
      have hb := (List.mem_filter.mp hb).2
      simp only [beq_iff_eq] at ha hb
      simp [ha, hb]
    -- The elements of one number are a sorted part of the list, so they are one of the result.
    have hsub := (List.sublist_mergeSort htrans htotal hordered List.filter_sublist).filter
      (number · == n)
    rw [List.filter_filter] at hsub
    simp only [Bool.and_self] at hsub
    have hperm := (List.mergeSort_perm l fun a b => decide (number a ≤ number b)).filter
      (number · == n)
    exact (hsub.eq_of_length hperm.length_eq.symm).symm

end ArticleAudit.Audit
