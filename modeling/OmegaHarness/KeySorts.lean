import Mathlib.Data.List.Sort
import Mathlib.Tactic

/-!
# Stable sorts by a key

A list is sorted by a key of its elements, and elements of equal keys stay in the order in
which they came. So the sort hides the order of the list exactly when elements of equal
keys are equal: if two different ones share a key, whichever stood first still does.
-/
namespace OmegaHarness.KeySorts

variable {A K : Type} [LE K] [DecidableLE K] (key : A → K)

def sortByKey (l : List A) : List A := l.insertionSort fun a b => key a ≤ key b

theorem sortByKey_perm (l : List A) : (sortByKey key l).Perm l := List.perm_insertionSort _ _

theorem sortByKey_cons (a : A) (l : List A) :
    sortByKey key (a::l) = (sortByKey key l).orderedInsert (fun a b => key a ≤ key b) a := rfl

/-- A list whose keys ascend is left alone. -/
theorem sortByKey_of_sorted {l : List A} (h : l.Pairwise fun a b => key a ≤ key b) :
    sortByKey key l = l := h.insertionSort_eq

section Ordered
variable [Std.IsLinearOrder K]

theorem sortByKey_sorted (l : List A) :
    (sortByKey key l).Pairwise fun a b => key a ≤ key b := by
  have htotal : Std.Total fun a b : A => key a ≤ key b := ⟨fun a b => Std.le_total⟩
  have htrans : IsTrans A fun a b => key a ≤ key b := ⟨fun a b c => Std.le_trans⟩
  exact List.pairwise_insertionSort _ l

section Ties
variable [DecidableEq K]

/-- An element is moved past greater keys only, so past none of its own. -/
theorem filter_orderedInsert (k : K) (a : A) (l : List A) :
    (l.orderedInsert (fun a b => key a ≤ key b) a).filter (fun b => key b = k) =
      (a::l).filter fun b => key b = k := by
  induction l with
  | nil => rfl
  | cons b l ih =>
      rw [List.orderedInsert]
      split
      · rfl
      · rename_i hnot
        rw [List.filter_cons,ih]
        by_cases ha : key a = k
        · have hb : key b ≠ k := by
            intro hb
            exact hnot (ha.trans hb.symm ▸ Std.le_refl _)
          simp [ha,hb]
        · simp [List.filter_cons,ha]

theorem filter_sortByKey (k : K) (l : List A) :
    (sortByKey key l).filter (fun b => key b = k) = l.filter fun b => key b = k := by
  induction l with
  | nil => rfl
  | cons a l ih =>
      rw [sortByKey_cons,filter_orderedInsert,List.filter_cons,List.filter_cons,ih]

/-- Which of two elements of one key stands in front is seen in the sorted list. -/
theorem eq_of_sortByKey_cons {a b : A} {l m : List A} (hkey : key a = key b)
    (h : sortByKey key (a::l) = sortByKey key (b::m)) : a = b := by
  have hties := congrArg (List.filter fun c => key c = key b) h
  rw [filter_sortByKey,filter_sortByKey,List.filter_cons_of_pos (by simp [hkey]),
    List.filter_cons_of_pos (by simp)] at hties
  exact (List.cons.inj hties).1

end Ties

theorem sortByKey_congr {l m : List A} (hperm : m.Perm l)
    (hties : ∀ a ∈ l, ∀ b ∈ l, key a = key b → a = b) : sortByKey key m = sortByKey key l := by
  have hsame : (sortByKey key m).Perm (sortByKey key l) :=
    (sortByKey_perm key m).trans (hperm.trans (sortByKey_perm key l).symm)
  refine hsame.eq_of_pairwise ?_ (sortByKey_sorted key m) (sortByKey_sorted key l)
  intro a b ha hb hab hba
  have ha' : a ∈ l := (hperm.mem_iff).mp ((sortByKey_perm key m).mem_iff.mp ha)
  have hb' : b ∈ l := (sortByKey_perm key l).mem_iff.mp hb
  exact hties a ha' b hb' (Std.le_antisymm hab hba)

/-- The order of the list is hidden exactly when equal keys mean equal elements. -/
theorem sortByKey_invariant_iff [DecidableEq A] [DecidableEq K] {l : List A} :
    (∀ m, m.Perm l → sortByKey key m = sortByKey key l) ↔
      ∀ a ∈ l, ∀ b ∈ l, key a = key b → a = b := by
  constructor
  · intro hsame a ha b hb hkey
    have hfirst := hsame _ (List.perm_cons_erase ha).symm
    have hsecond := hsame _ (List.perm_cons_erase hb).symm
    exact eq_of_sortByKey_cons key hkey (hfirst.trans hsecond.symm)
  · intro hties m hperm
    exact sortByKey_congr key hperm hties

end Ordered

end OmegaHarness.KeySorts
