import Mathlib.Data.List.Nodup
import Mathlib.Data.List.Infix
import Mathlib.Logic.Function.Iterate

/-!
# Tabs under a key and under a title

A book holds tabs in a row, each a handle under a title, and a map from keys to
handles.  `openTab` gives a new key a new tab under the title of the key.  `closeTab`
takes a tab out and removes, from the map, the key that reads as the title of the
tab: this is another key than the one that the tab was opened for.

So a closed tab leaves a key that maps to no tab, and no later step repairs this: a
key that dangles can be removed only as the title of another tab that is closed, and
then the key of that one dangles, or a key that it is a title of.  `Placed` holds
that chain.  A book without a dangling key is in bijection with its tabs.
-/

namespace Data

open Function

/-- The tabs, the map of the keys, and the handle that is given next. -/
structure TabBook (κ : Type) where
  tabs : List (Nat × κ)
  keys : κ → Option Nat
  next : Nat

namespace TabBook

variable {κ : Type} (title : κ → κ) (base : List (Nat × κ)) (b : TabBook κ)

/-- The key maps to a handle that is in no tab. -/
def Dangling (k : κ) : Prop := ∃ x, b.keys k = some x ∧ ∀ t, (x, t) ∉ b.tabs

/-- A key that dangles, or a title of one, or a title of that. -/
def Traced (k : κ) : Prop := ∃ u n, k = title^[n] u ∧ b.Dangling u

/-- The keys and the tabs behind those of `base` are in bijection, and the titles are
those of the keys. -/
structure Matches : Prop where
  present : ∀ k x, b.keys k = some x → (x, title k) ∈ b.tabs.drop base.length
  keyed : ∀ tab ∈ b.tabs.drop base.length, ∃! k, b.keys k = some tab.1
  nodup : ((b.tabs.drop base.length).map Prod.fst).Nodup

/-- What holds of the book in every run. -/
structure Placed : Prop where
  starts : base <+: b.tabs
  nodup : (b.tabs.map Prod.fst).Nodup
  tabs_below : ∀ tab ∈ b.tabs, tab.1 < b.next
  keys_below : ∀ k x, b.keys k = some x → x < b.next ∧ x ∉ base.map Prod.fst
  titled : ∀ k x t, b.keys k = some x → (x, t) ∈ b.tabs → t = title k
  kept : ∀ x t, (x, t) ∈ b.tabs → x ∉ base.map Prod.fst →
    ∃ k, t = title k ∧ (b.keys k = some x ∨ b.Traced title k)

variable {title base b} {k u v : κ} {index x : Nat} {t : κ}

/-- What is traced stays so under another title. -/
theorem Traced.under (h : b.Traced title k) : b.Traced title (title k) := by
  have ⟨u, n, hk, hu⟩ := h
  refine ⟨u, n + 1, ?_, hu⟩
  rw [iterate_succ_apply', ← hk]

/-- The tabs behind those of `base` are the ones with other handles. -/
theorem mem_drop_iff (hstarts : base <+: b.tabs) (hnodup : (b.tabs.map Prod.fst).Nodup)
    {tab : Nat × κ} :
    tab ∈ b.tabs.drop base.length ↔ tab ∈ b.tabs ∧ tab.1 ∉ base.map Prod.fst := by
  have ⟨rest, hrest⟩ := hstarts
  rw [← hrest] at hnodup ⊢
  rw [List.map_append, List.nodup_append] at hnodup
  rw [List.drop_left, List.mem_append]
  constructor
  · intro hmem
    exact ⟨Or.inr hmem, fun hbase => hnodup.2.2 _ hbase _ (List.mem_map_of_mem hmem) rfl⟩
  · intro ⟨hmem, hown⟩
    exact hmem.resolve_left fun hbase => hown (List.mem_map_of_mem hbase)

/-- A handle is in one tab. -/
theorem not_mem_eraseIdx (hnodup : (b.tabs.map Prod.fst).Nodup) (h : b.tabs[index]? = some (x, t)) :
    ∀ t', (x, t') ∉ b.tabs.eraseIdx index := by
  intro t' hmem
  have ⟨j, hne, hj⟩ := List.mem_eraseIdx_iff_getElem?.1 hmem
  have hlt : index < (b.tabs.map Prod.fst).length := by
    rw [List.length_map]
    exact (List.getElem?_eq_some_iff.1 h).1
  have hsame : (b.tabs.map Prod.fst)[index]? = (b.tabs.map Prod.fst)[j]? := by
    rw [List.getElem?_map, List.getElem?_map, h, hj]
    rfl
  exact hne ((List.getElem?_inj hlt hnodup).1 hsame).symm

namespace Placed

variable (h : b.Placed title base)
include h

/-- The handle that is given next is in no tab. -/
theorem not_mem_next : (b.next, t) ∉ b.tabs := by
  intro hmem
  have hlt : b.next < b.next := h.tabs_below _ hmem
  omega

/-- A tab behind those of `base` has another handle. -/
theorem own_of_getElem? (hindex : base.length ≤ index) (htab : b.tabs[index]? = some (x, t)) :
    x ∉ base.map Prod.fst := by
  have hdrop : (x, t) ∈ b.tabs.drop base.length := by
    rw [List.mem_iff_getElem?]
    refine ⟨index - base.length, ?_⟩
    rw [List.getElem?_drop, Nat.add_sub_cancel' hindex]
    exact htab
  exact ((mem_drop_iff h.starts h.nodup).1 hdrop).2

/-- Two keys of one tab are the same. -/
theorem key_unique (hinj : Injective title) (hk : b.keys k = some x) (hu : b.keys u = some x)
    (hmem : (x, t) ∈ b.tabs) : k = u :=
  hinj ((h.titled k x t hk hmem).symm.trans (h.titled u x t hu hmem))

/-- A key dangles unless it has its tab behind those of `base`. -/
theorem mem_drop_iff_not_dangling (hk : b.keys k = some x) :
    (x, title k) ∈ b.tabs.drop base.length ↔ ¬ b.Dangling k := by
  rw [mem_drop_iff h.starts h.nodup]
  constructor
  · intro ⟨hmem, _⟩ ⟨y, hy, hno⟩
    rw [hk, Option.some.injEq] at hy
    exact hno (title k) (hy ▸ hmem)
  · intro hkept
    refine ⟨?_, (h.keys_below k x hk).2⟩
    by_contra hno
    refine hkept ⟨x, hk, fun t hmem => hno ?_⟩
    rw [← h.titled k x t hk hmem]
    exact hmem

/-- The book is in bijection with its tabs if and only if no key dangles. -/
theorem matches_iff (hinj : Injective title) : b.Matches title base ↔ ¬ ∃ k, b.Dangling k := by
  constructor
  · intro hmatches ⟨k, hdangling⟩
    have ⟨x, hk, _⟩ := hdangling
    exact (h.mem_drop_iff_not_dangling hk).1 (hmatches.present k x hk) hdangling
  · intro hnone
    refine ⟨fun k x hk => ?_, fun tab htab => ?_, h.nodup.sublist ((List.drop_sublist _ _).map _)⟩
    · exact (h.mem_drop_iff_not_dangling hk).2 fun hk => hnone ⟨k, hk⟩
    · have ⟨hmem, hown⟩ := (mem_drop_iff h.starts h.nodup).1 htab
      have ⟨k, _, hkey⟩ := h.kept tab.1 tab.2 hmem hown
      have hk : b.keys k = some tab.1 := by
        refine hkey.resolve_right fun ⟨u, _, _, hu⟩ => ?_
        exact hnone ⟨u, hu⟩
      exact ⟨k, hk, fun u hu => h.key_unique hinj hu hk hmem⟩

end Placed

variable [DecidableEq κ]

/-! ## Opening a tab -/

/-- A new tab for a key. -/
def addTab (title : κ → κ) (b : TabBook κ) (k : κ) : TabBook κ :=
  ⟨b.tabs ++ [(b.next, title k)], update b.keys k (some b.next), b.next + 1⟩

/-- A key that has no tab gets a new one. -/
def openTab (title : κ → κ) (b : TabBook κ) (k : κ) : TabBook κ :=
  match b.keys k with
  | some _ => b
  | none => b.addTab title k

theorem keys_addTab : (b.addTab title k).keys u = some x ↔
    u = k ∧ x = b.next ∨ u ≠ k ∧ b.keys u = some x := by
  show update b.keys k (some b.next) u = some x ↔ _
  by_cases hu : u = k
  · rw [hu, update_self, Option.some.injEq]
    simp [eq_comm]
  · rw [update_of_ne hu]
    simp [hu]

theorem mem_addTab : (x, t) ∈ (b.addTab title k).tabs ↔
    (x, t) ∈ b.tabs ∨ x = b.next ∧ t = title k := by
  show (x, t) ∈ b.tabs ++ [(b.next, title k)] ↔ _
  rw [List.mem_append, List.mem_singleton, Prod.mk.injEq]

namespace Placed

variable (h : b.Placed title base)
include h

/-- A key that dangles still does. -/
theorem dangling_addTab (hk : b.keys k = none) (hu : b.Dangling u) :
    (b.addTab title k).Dangling u := by
  have ⟨x, hx, hno⟩ := hu
  have hne : u ≠ k := by
    intro he
    rw [he, hk] at hx
    cases hx
  refine ⟨x, keys_addTab.2 (Or.inr ⟨hne, hx⟩), fun t hmem => ?_⟩
  have hlt := (h.keys_below u x hx).1
  rcases mem_addTab.1 hmem with hmem | ⟨he, _⟩
  · exact hno t hmem
  · omega

theorem addTab (hk : b.keys k = none) : (b.addTab title k).Placed title base where
  starts := h.starts.trans (List.prefix_append _ _)
  nodup := by
    show ((b.tabs ++ [(b.next, title k)]).map Prod.fst).Nodup
    rw [List.map_append, List.nodup_append]
    refine ⟨h.nodup, List.nodup_singleton _, fun x hx y hy => ?_⟩
    have ⟨tab, htab, he⟩ := List.mem_map.1 hx
    have hlt := h.tabs_below tab htab
    rw [List.map_singleton, List.mem_singleton] at hy
    omega
  tabs_below tab htab := by
    show tab.1 < b.next + 1
    rcases mem_addTab.1 htab with htab | ⟨he, _⟩
    · have hlt := h.tabs_below tab htab
      omega
    · omega
  keys_below u x hx := by
    show x < b.next + 1 ∧ _
    rcases keys_addTab.1 hx with ⟨_, he⟩ | ⟨_, hx⟩
    · refine ⟨by omega, fun hbase => ?_⟩
      have ⟨tab, htab, hfst⟩ := List.mem_map.1 hbase
      have hlt := h.tabs_below tab (h.starts.subset htab)
      omega
    · have ⟨hlt, hown⟩ := h.keys_below u x hx
      exact ⟨by omega, hown⟩
  titled u x t hx hmem := by
    rcases keys_addTab.1 hx with ⟨hu, he⟩ | ⟨_, hx⟩
    · rcases mem_addTab.1 hmem with hmem | ⟨_, ht⟩
      · exact absurd (he ▸ hmem) h.not_mem_next
      · rw [ht, hu]
    · have hlt := (h.keys_below u x hx).1
      rcases mem_addTab.1 hmem with hmem | ⟨he, _⟩
      · exact h.titled u x t hx hmem
      · omega
  kept x t hmem hown := by
    rcases mem_addTab.1 hmem with hmem | ⟨hx, ht⟩
    · have ⟨v, ht, hv⟩ := h.kept x t hmem hown
      refine ⟨v, ht, hv.imp (fun hv => ?_) fun ⟨u, n, hn, hu⟩ =>
        ⟨u, n, hn, h.dangling_addTab hk hu⟩⟩
      refine keys_addTab.2 (Or.inr ⟨fun he => ?_, hv⟩)
      rw [he, hk] at hv
      cases hv
    · exact ⟨k, ht, Or.inl (keys_addTab.2 (Or.inl ⟨rfl, hx⟩))⟩

/-- No new key dangles. -/
theorem dangling_addTab_iff (hk : b.keys k = none) :
    (b.addTab title k).Dangling u ↔ b.Dangling u := by
  refine ⟨fun ⟨x, hx, hno⟩ => ?_, fun hu => h.dangling_addTab hk hu⟩
  rcases keys_addTab.1 hx with ⟨_, he⟩ | ⟨_, hx⟩
  · exact absurd (mem_addTab.2 (Or.inr ⟨he, rfl⟩)) (hno (title k))
  · exact ⟨x, hx, fun t hmem => hno t (mem_addTab.2 (Or.inl hmem))⟩

theorem openTab : (b.openTab title k).Placed title base := by
  unfold TabBook.openTab
  cases hk : b.keys k with
  | some x => exact h
  | none => exact h.addTab hk

/-- Opening a tab leaves no key dangling, and repairs none that does. -/
theorem dangling_openTab_iff : (b.openTab title k).Dangling u ↔ b.Dangling u := by
  unfold TabBook.openTab
  cases hk : b.keys k with
  | some x => exact Iff.rfl
  | none => exact h.dangling_addTab_iff hk

end Placed

/-! ## Closing a tab -/

/-- Closes a tab and removes its title from the keys. -/
def closeTab (b : TabBook κ) (index : Nat) : TabBook κ :=
  match b.tabs[index]? with
  | some tab => ⟨b.tabs.eraseIdx index, update b.keys tab.2 none, b.next⟩
  | none => b

theorem closeTab_of_some (hindex : b.tabs[index]? = some (x, t)) :
    b.closeTab index = ⟨b.tabs.eraseIdx index, update b.keys t none, b.next⟩ := by
  unfold closeTab
  rw [hindex]

theorem keys_closeTab {y : Nat} (hindex : b.tabs[index]? = some (x, t)) :
    (b.closeTab index).keys u = some y ↔ u ≠ t ∧ b.keys u = some y := by
  rw [closeTab_of_some hindex]
  show update b.keys t none u = some y ↔ _
  by_cases hu : u = t
  · rw [hu, update_self]
    simp
  · rw [update_of_ne hu]
    simp [hu]

theorem tabs_closeTab_subset : (b.closeTab index).tabs ⊆ b.tabs := by
  unfold closeTab
  split
  · exact List.eraseIdx_subset
  · exact List.Subset.refl _

/-- A key that dangles still does, unless it is the title of the tab. -/
theorem dangling_closeTab (hindex : b.tabs[index]? = some (x, t)) (hu : b.Dangling u)
    (hne : u ≠ t) : (b.closeTab index).Dangling u := by
  have ⟨y, hy, hno⟩ := hu
  exact ⟨y, (keys_closeTab hindex).2 ⟨hne, hy⟩, fun t' hmem => hno t' (tabs_closeTab_subset hmem)⟩

namespace Placed

variable (h : b.Placed title base)
include h

/-- The key of a tab that was closed is traced. -/
theorem traced_closeTab (hacyclic : ∀ n v, title^[n + 1] v ≠ v)
    (hindex : b.tabs[index]? = some (x, t)) (hown : x ∉ base.map Prod.fst) :
    ∃ v, t = title v ∧ (b.closeTab index).Traced title v := by
  have ⟨v, ht, hv⟩ := h.kept x t (List.mem_of_getElem? hindex) hown
  refine ⟨v, ht, ?_⟩
  rcases hv with hv | ⟨u, n, hn, hu⟩
  · have hne : v ≠ t := by
      rw [ht]
      exact fun he => hacyclic 0 v he.symm
    refine ⟨v, 0, rfl, x, (keys_closeTab hindex).2 ⟨hne, hv⟩, ?_⟩
    rw [closeTab_of_some hindex]
    exact not_mem_eraseIdx h.nodup hindex
  · have hne : u ≠ t := by
      intro he
      rw [he, ht] at hn
      exact hacyclic n v hn.symm
    exact ⟨u, n, hn, dangling_closeTab hindex hu hne⟩

theorem closeTab (hacyclic : ∀ n v, title^[n + 1] v ≠ v) (hindex : base.length ≤ index) :
    (b.closeTab index).Placed title base := by
  cases htab : b.tabs[index]? with
  | none =>
    unfold TabBook.closeTab
    rw [htab]
    exact h
  | some tab =>
    obtain ⟨y, t⟩ := tab
    have ⟨rest, hrest⟩ := h.starts
    have ⟨v, ht, hv⟩ := h.traced_closeTab hacyclic htab (h.own_of_getElem? hindex htab)
    have htabs : (b.closeTab index).tabs = b.tabs.eraseIdx index := by rw [closeTab_of_some htab]
    have hnext : (b.closeTab index).next = b.next := by rw [closeTab_of_some htab]
    refine ⟨?_, ?_, fun tab hmem => ?_, fun u x hx => ?_, fun u x t' hx hmem => ?_,
      fun x t' hmem hown' => ?_⟩
    · rw [htabs, ← hrest, List.eraseIdx_append_of_length_le hindex]
      exact List.prefix_append _ _
    · rw [htabs]
      exact h.nodup.sublist ((List.eraseIdx_sublist _ _).map _)
    · rw [hnext]
      exact h.tabs_below tab (tabs_closeTab_subset hmem)
    · rw [hnext]
      exact h.keys_below u x ((keys_closeTab htab).1 hx).2
    · exact h.titled u x t' ((keys_closeTab htab).1 hx).2 (tabs_closeTab_subset hmem)
    · have ⟨u, ht', hu⟩ := h.kept x t' (tabs_closeTab_subset hmem) hown'
      refine ⟨u, ht', ?_⟩
      -- the key that is removed is traced, as the title of one that is
      by_cases hut : u = t
      · rw [hut, ht]
        exact Or.inr hv.under
      · refine hu.imp (fun hu => (keys_closeTab htab).2 ⟨hut, hu⟩) fun ⟨z, n, hn, hz⟩ => ?_
        by_cases hzt : z = t
        · have ⟨z', m, hm, hz'⟩ := hv.under
          refine ⟨z', n + m, ?_, hz'⟩
          rw [iterate_add_apply, ← hm, ← ht, ← hzt]
          exact hn
        · exact ⟨z, n, hn, dangling_closeTab htab hz hzt⟩

/-- After a tab behind those of `base` was closed, a key dangles. -/
theorem exists_dangling_closeTab (hacyclic : ∀ n v, title^[n + 1] v ≠ v)
    (hindex : base.length ≤ index) (hlt : index < b.tabs.length) :
    ∃ u, (b.closeTab index).Dangling u := by
  have htab : b.tabs[index]? = some (b.tabs[index].1, b.tabs[index].2) := by
    rw [List.getElem?_eq_getElem hlt]
  have ⟨_, _, u, _, _, hu⟩ := h.traced_closeTab hacyclic htab (h.own_of_getElem? hindex htab)
  exact ⟨u, hu⟩

end Placed

end TabBook

end Data
