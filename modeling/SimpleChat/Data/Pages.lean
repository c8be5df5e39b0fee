import Mathlib.Data.List.Basic
import Mathlib.Data.List.Range
import Mathlib.Logic.Function.Basic

/-!
# Pages under keys

Lines are posted under keys, and each key has a page that is made when it is needed.
The entry of a key may be forgotten.  Its page stays where it is, and the next line
under the key goes to a new one.

`Holds` says that no line is lost by this: the pages of a key, in the order in which
they were made, hold the lines that were posted under it, in order.
-/

namespace Data

open Function

/-- The page of each key that has one, the page that is made next, and the lines. -/
structure Pages (κ α : Type) where
  keys : κ → Option Nat
  next : Nat
  lines : Nat → List α

namespace Pages

variable {κ α : Type} [DecidableEq κ] (b : Pages κ α)

/-- The page that a line under the key goes to. -/
def page (k : κ) : Nat := (b.keys k).getD b.next

/-- The page of the key is made if there is none. -/
def openPage (k : κ) : Pages κ α :=
  match b.keys k with
  | some _ => b
  | none => { b with keys := update b.keys k (some b.next), next := b.next + 1 }

/-- A line at the end of a page. -/
def append (x : Nat) (line : α) : Pages κ α :=
  { b with lines := update b.lines x (b.lines x ++ [line]) }

/-- A line under a key. -/
def post (k : κ) (line : α) : Pages κ α := (b.openPage k).append (b.page k) line

/-- The entry of a key is removed. -/
def forget (k : κ) : Pages κ α := { b with keys := update b.keys k none }

/-- The pages that were made for a key, in order.  The first `base` pages belong to no
key. -/
def pagesOf (base : Nat) (owner : Nat → κ) (k : κ) : List Nat :=
  (List.range b.next).filter fun x => decide (base ≤ x ∧ owner x = k)

/-- The pages of the keys hold the lines `posted`, where `owner` says for which key a page
was made. -/
structure HoldsFor (base : Nat) (posted : κ → List α) (owner : Nat → κ) : Prop where
  base_le : base ≤ b.next
  /-- The page of a key is the last that was made for it. -/
  mapped : ∀ k x, b.keys k = some x →
    base ≤ x ∧ x < b.next ∧ owner x = k ∧ ∀ y, x < y → y < b.next → owner y ≠ k
  fresh : ∀ x, b.next ≤ x → b.lines x = []
  posted : ∀ k, (b.pagesOf base owner k).flatMap b.lines = posted k

/-- The lines `posted` are on the pages of the keys. -/
def Holds (base : Nat) (posted : κ → List α) : Prop := ∃ owner, b.HoldsFor base posted owner

variable {b} {base : Nat} {posted : κ → List α} {owner : Nat → κ} {k : κ}

omit [DecidableEq κ] in
theorem append_lines_self (b : Pages κ α) (x : Nat) (line : α) :
    (b.append x line).lines x = b.lines x ++ [line] := update_self _ _ _

omit [DecidableEq κ] in
theorem append_lines_of_ne (b : Pages κ α) {x y : Nat} (h : y ≠ x) (line : α) :
    (b.append x line).lines y = b.lines y := update_of_ne h _ _

theorem openPage_lines (b : Pages κ α) (k : κ) : (b.openPage k).lines = b.lines := by
  unfold openPage
  split <;> rfl

/-- The pages up to the last one of a key. -/
theorem pagesOf_eq_concat {x : Nat} (hbase : base ≤ x) (hlt : x < b.next) (hown : owner x = k)
    (hlast : ∀ y, x < y → y < b.next → owner y ≠ k) :
    ∃ before, b.pagesOf base owner k = before ++ [x] ∧ ∀ y ∈ before, y ≠ x := by
  have ⟨n, hn⟩ : ∃ n, b.next = (x + 1) + n := ⟨b.next - (x + 1), by omega⟩
  refine ⟨(List.range x).filter fun y => decide (base ≤ y ∧ owner y = k), ?_, fun y hy => ?_⟩
  · have hrest : ((List.range n).map (x + 1 + ·)).filter
        (fun y => decide (base ≤ y ∧ owner y = k)) = [] := by
      refine List.filter_eq_nil_iff.2 fun y hy => ?_
      have ⟨i, hi, he⟩ := List.mem_map.1 hy
      have hin := List.mem_range.1 hi
      have hne := hlast y (by omega) (by omega)
      simp [hne]
    rw [pagesOf, hn, List.range_add, List.filter_append, hrest, List.append_nil, List.range_succ,
      List.filter_append, List.filter_singleton]
    simp [hbase, hown]
  · have hlt := List.mem_range.1 (List.mem_filter.1 hy).1
    omega

namespace HoldsFor

/-- A line on a page that belongs to no key. -/
theorem append (h : b.HoldsFor base posted owner) {x : Nat} (hx : x < base) (line : α) :
    (b.append x line).HoldsFor base posted owner where
  base_le := h.base_le
  mapped := h.mapped
  fresh y hy := by
    have hle := h.base_le
    have hne : y ≠ x := by
      have hnext : b.next ≤ y := hy
      omega
    exact (b.append_lines_of_ne hne line).trans (h.fresh y hy)
  posted k := by
    rw [← h.posted k]
    refine List.flatMap_congr fun y hy => b.append_lines_of_ne ?_ line
    have hbase := of_decide_eq_true (List.mem_filter.1 hy).2
    omega

/-- The entry of a key is removed. -/
theorem forget (h : b.HoldsFor base posted owner) (k : κ) :
    (b.forget k).HoldsFor base posted owner where
  base_le := h.base_le
  mapped k' x hx := by
    change update b.keys k none k' = some x at hx
    by_cases hk : k' = k
    · subst hk
      rw [update_self] at hx
      cases hx
    · rw [update_of_ne hk] at hx
      exact h.mapped k' x hx
  fresh := h.fresh
  posted := h.posted

/-- The page of a key is there after it was opened. -/
theorem openPage (h : b.HoldsFor base posted owner) (k : κ) :
    ∃ owner', (b.openPage k).HoldsFor base posted owner' ∧
      (b.openPage k).keys k = some (b.page k) := by
  cases hk : b.keys k with
  | some x =>
    have hsame : b.openPage k = b := by
      unfold Pages.openPage
      rw [hk]
    refine ⟨owner, ?_, ?_⟩
    · rw [hsame]
      exact h
    · rw [hsame, hk, page, hk]
      rfl
  | none =>
    have hopen : b.openPage k =
        { b with keys := update b.keys k (some b.next), next := b.next + 1 } := by
      unfold Pages.openPage
      rw [hk]
    have hpage : b.page k = b.next := by
      rw [page, hk]
      rfl
    have hold : ∀ y, y < b.next → update owner b.next k y = owner y :=
      fun y hy => update_of_ne (Nat.ne_of_lt hy) _ _
    rw [hopen, hpage]
    refine ⟨update owner b.next k, ⟨?_, fun k' x hx => ?_, fun x hx => ?_, fun k' => ?_⟩,
      update_self _ _ _⟩
    · exact Nat.le_succ_of_le h.base_le
    · dsimp only at hx ⊢
      by_cases hk' : k' = k
      · subst hk'
        rw [update_self] at hx
        cases hx
        exact ⟨h.base_le, Nat.lt_succ_self _, update_self _ _ _, fun y h1 h2 => by omega⟩
      · rw [update_of_ne hk'] at hx
        have ⟨hbase, hlt, hown, hlast⟩ := h.mapped k' x hx
        refine ⟨hbase, Nat.lt_succ_of_lt hlt, (hold x hlt).trans hown, fun y h1 h2 => ?_⟩
        rcases Nat.lt_succ_iff_lt_or_eq.1 h2 with h2 | rfl
        · rw [hold y h2]
          exact hlast y h1 h2
        · rw [update_self]
          exact Ne.symm hk'
    · exact h.fresh x (Nat.le_of_succ_le hx)
    · -- The new page is empty.
      have hpages : (List.range b.next).filter
          (fun x => decide (base ≤ x ∧ update owner b.next k x = k')) =
            b.pagesOf base owner k' := by
        refine List.filter_congr fun x hx => ?_
        rw [hold x (List.mem_range.1 hx)]
      have hnew : ∀ l : List Nat, (∀ x ∈ l, x = b.next) → l.flatMap b.lines = [] := by
        intro l hl
        refine List.flatMap_eq_nil_iff.2 fun x hx => ?_
        rw [hl x hx]
        exact h.fresh _ (Nat.le_refl _)
      rw [← h.posted k', pagesOf, List.range_succ, List.filter_append, hpages, List.flatMap_append,
        hnew _ fun x hx => List.mem_singleton.1 (List.mem_of_mem_filter hx), List.append_nil]

/-- A line at the end of the page of a key. -/
theorem append_page (h : b.HoldsFor base posted owner) {x : Nat} (hk : b.keys k = some x)
    (line : α) :
    (b.append x line).HoldsFor base (update posted k (posted k ++ [line])) owner := by
  have ⟨hbase, hlt, hown, hlast⟩ := h.mapped k x hk
  refine ⟨h.base_le, h.mapped, fun y hy => ?_, fun k' => ?_⟩
  · have hne : y ≠ x := by
      have hnext : b.next ≤ y := hy
      omega
    exact (b.append_lines_of_ne hne line).trans (h.fresh y hy)
  · by_cases hk' : k' = k
    · subst hk'
      have ⟨before, hpages, hne⟩ := pagesOf_eq_concat (b := b) hbase hlt hown hlast
      have hsame : before.flatMap (b.append x line).lines = before.flatMap b.lines :=
        List.flatMap_congr fun y hy => b.append_lines_of_ne (hne y hy) line
      rw [update_self, ← h.posted k']
      show (b.pagesOf base owner k').flatMap _ = _
      rw [hpages, List.flatMap_append, List.flatMap_append, List.flatMap_singleton,
        List.flatMap_singleton, hsame, append_lines_self, List.append_assoc]
    · rw [update_of_ne hk', ← h.posted k']
      refine List.flatMap_congr fun y hy => b.append_lines_of_ne ?_ line
      have hy' := of_decide_eq_true (List.mem_filter.1 hy).2
      intro he
      subst he
      exact hk' (hy'.2.symm.trans hown)

end HoldsFor

namespace Holds

/-- The page of a key holds some of the lines that were posted under it. -/
theorem lines_sublist (h : b.Holds base posted) {x : Nat} (hk : b.keys k = some x) :
    (b.lines x).Sublist (posted k) := by
  obtain ⟨owner, h⟩ := h
  have ⟨hbase, hlt, hown, hlast⟩ := h.mapped k x hk
  have ⟨before, hpages, _⟩ := pagesOf_eq_concat (b := b) hbase hlt hown hlast
  rw [← h.posted k, hpages, List.flatMap_append, List.flatMap_singleton]
  exact List.sublist_append_right _ _

/-- A line on a page that belongs to no key. -/
theorem append (h : b.Holds base posted) {x : Nat} (hx : x < base) (line : α) :
    (b.append x line).Holds base posted := by
  have ⟨owner, h⟩ := h
  exact ⟨owner, h.append hx line⟩

/-- The entry of a key is removed. -/
theorem forget (h : b.Holds base posted) (k : κ) : (b.forget k).Holds base posted := by
  have ⟨owner, h⟩ := h
  exact ⟨owner, h.forget k⟩

/-- The page of a key is made. -/
theorem openPage (h : b.Holds base posted) (k : κ) : (b.openPage k).Holds base posted := by
  have ⟨owner, h⟩ := h
  have ⟨owner', h', _⟩ := h.openPage k
  exact ⟨owner', h'⟩

/-- A line under a key is the last one of its key, and no other key gets it. -/
theorem post (h : b.Holds base posted) (k : κ) (line : α) :
    (b.post k line).Holds base (update posted k (posted k ++ [line])) := by
  have ⟨owner, h⟩ := h
  have ⟨owner', h', hk⟩ := h.openPage k
  exact ⟨owner', h'.append_page hk line⟩

/-- A line under a key is on no page that belongs to no key. -/
theorem lines_post (h : b.Holds base posted) (k : κ) (line : α) {x : Nat} (hx : x < base) :
    (b.post k line).lines x = b.lines x := by
  have ⟨owner, h⟩ := h
  have ⟨owner', h', hk⟩ := h.openPage k
  have hpage := (h'.mapped k _ hk).1
  rw [Pages.post, append_lines_of_ne _ (by omega), openPage_lines]

end Holds

/-- Before any line was posted. -/
theorem holds_empty [Inhabited κ] (base : Nat) :
    (⟨fun _ => none, base, fun _ => []⟩ : Pages κ α).Holds base fun _ => [] :=
  ⟨fun _ => default, Nat.le_refl _, fun _ _ hx => (nomatch hx), fun _ _ => rfl,
    fun _ => List.flatMap_eq_nil_iff.2 fun _ _ => rfl⟩

end Pages

end Data
