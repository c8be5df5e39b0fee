import Mathlib.Data.List.Nodup
import Mathlib.Data.List.Sort

/-!
# Sorting by a key

What a sort is known to do: it permutes, and its result is sorted by the
comparator.  A comparator that reads only a key of the elements leaves the order of
elements with the same key open.  Where no two elements share a key nothing is left
open: the keys of the result are strictly increasing, and the result depends on the
elements alone.
-/

namespace Data

variable {α κ : Type} {key : α → κ} {lt : κ → κ → Prop} {sort : List α → List α}

/-- The function permutes a list so that it is sorted by `lt` on the keys. -/
structure SortsBy (key : α → κ) (lt : κ → κ → Prop) (sort : List α → List α) : Prop where
  perm : ∀ l, (sort l).Perm l
  sorted : ∀ l, (sort l).Pairwise fun a b => ¬ lt (key b) (key a)

namespace SortsBy

variable {l l' : List α}

/-- The keys of the result are those of the list. -/
theorem keys_nodup (h : SortsBy key lt sort) (hkeys : (l.map key).Nodup) :
    ((sort l).map key).Nodup :=
  ((h.perm l).map key).nodup_iff.2 hkeys

/-- Distinct keys come out strictly increasing. -/
theorem increasing [Std.Trichotomous lt] (h : SortsBy key lt sort) (hkeys : (l.map key).Nodup) :
    ((sort l).map key).Pairwise lt := by
  have hdistinct := h.keys_nodup hkeys
  rw [List.Nodup, List.pairwise_map] at hdistinct
  rw [List.pairwise_map]
  refine (hdistinct.and (h.sorted l)).imp fun {a b} hab => ?_
  by_contra hlt
  exact hab.1 (Std.Trichotomous.trichotomous _ _ hlt hab.2)

/-- With distinct keys the result depends on the elements alone. -/
theorem eq_of_perm [Std.Trichotomous lt] (h : SortsBy key lt sort) (hkeys : (l.map key).Nodup)
    (hperm : l.Perm l') : sort l = sort l' := by
  have hsame : (sort l).Perm (sort l') := ((h.perm l).trans hperm).trans (h.perm l').symm
  refine List.Perm.eq_of_pairwise (fun a b ha hb hab hba => ?_) (h.sorted l) (h.sorted l') hsame
  have hkey : key a = key b := Std.Trichotomous.trichotomous _ _ hba hab
  exact List.inj_on_of_nodup_map hkeys ((h.perm l).mem_iff.1 ha)
    ((h.perm l).mem_iff.1 (hsame.mem_iff.2 hb)) hkey

end SortsBy

/-- Merge sort sorts by a key. -/
theorem sortsBy_mergeSort [DecidableRel lt] [Std.Trichotomous lt] [Std.Asymm lt]
    (htrans : ∀ {a b c}, lt a b → lt b c → lt a c) :
    SortsBy key lt fun l => l.mergeSort fun a b => decide (¬ lt (key b) (key a)) where
  perm l := List.mergeSort_perm l _
  sorted l := by
    have hsorted : (l.mergeSort fun a b => decide (¬ lt (key b) (key a))).Pairwise
        fun a b => decide (¬ lt (key b) (key a)) :=
      List.pairwise_mergeSort (fun a b c hab hbc => ?_) (fun a b => ?_) l
    · exact hsorted.imp fun h => of_decide_eq_true h
    · rw [decide_eq_true_eq] at hab hbc ⊢
      intro hca
      by_cases hcb : lt (key c) (key b)
      · exact hbc hcb
      · by_cases hbc' : lt (key b) (key c)
        · exact hab (htrans hbc' hca)
        · have heq := Std.Trichotomous.trichotomous _ _ hbc' hcb
          rw [heq] at hab
          exact hab hca
    · rw [Bool.or_eq_true, decide_eq_true_eq, decide_eq_true_eq, ← not_and_or]
      exact fun h => Std.Asymm.asymm _ _ h.1 h.2

end Data
