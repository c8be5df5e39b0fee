import Mathlib.Logic.Basic
import Mathlib.Tactic.Common

/-!
# Labelled transition systems given by a step function

A system is an initial state and a partial step function.  All of the
nondeterminism is in the label, so that a concrete run is a list of labels and
can be evaluated.

`Steps C s s'` is a run from `s` to `s'` each of whose steps meets the
condition `C`, which reads the state before the step and the label.  A claim
about every run takes `C` to be `Any`.
-/

namespace Conc

/-- A labelled transition system with states `σ` and labels `ℓ`. -/
structure Lts (σ ℓ : Type) where
  init : σ
  step : σ → ℓ → Option σ

namespace Lts

variable {σ ℓ : Type} (L : Lts σ ℓ)

/-- The condition that every step meets. -/
def Any : σ → ℓ → Prop := fun _ _ => True

/-- A run from the first state to the second, all of whose steps meet `C`. -/
inductive Steps (C : σ → ℓ → Prop) : σ → σ → Prop
  | refl (s : σ) : Steps C s s
  | tail {s s' s'' : σ} {l : ℓ} (h : Steps C s s') (hC : C s' l)
      (hs : L.step s' l = some s'') : Steps C s s''

/-- The states that a run from the initial state reaches. -/
def Reaches (C : σ → ℓ → Prop) (s : σ) : Prop := L.Steps C L.init s

variable {L} {C D : σ → ℓ → Prop} {s s' s'' : σ}

theorem Steps.single {l : ℓ} (hC : C s l) (hs : L.step s l = some s') : L.Steps C s s' :=
  .tail (.refl s) hC hs

theorem Steps.trans (h : L.Steps C s s') (h' : L.Steps C s' s'') : L.Steps C s s'' := by
  induction h' with
  | refl => exact h
  | tail _ hC hs ih => exact .tail ih hC hs

theorem Steps.mono (h : L.Steps C s s') (hCD : ∀ t l, C t l → D t l) : L.Steps D s s' := by
  induction h with
  | refl => exact .refl _
  | tail _ hC hs ih => exact .tail ih (hCD _ _ hC) hs

/-- A condition that every step of a run turns out to meet may be added. -/
theorem Steps.strengthen (h : L.Steps C s s')
    (hD : ∀ t l t', L.Steps C s t → C t l → L.step t l = some t' → D t l) : L.Steps D s s' := by
  induction h with
  | refl => exact .refl _
  | tail hr hC hs ih => exact .tail ih (hD _ _ _ hr hC hs) hs

/-- A run that meets a condition is a run. -/
theorem Steps.any (h : L.Steps C s s') : L.Steps Any s s' := h.mono fun _ _ _ => trivial

theorem Reaches.any (h : L.Reaches C s) : L.Reaches Any s := Steps.any h

theorem Reaches.init : L.Reaches C L.init := .refl _

theorem Reaches.tail {l : ℓ} (h : L.Reaches C s) (hC : C s l) (hs : L.step s l = some s') :
    L.Reaches C s' := Steps.tail h hC hs

theorem Reaches.steps (h : L.Reaches C s) (h' : L.Steps C s s') : L.Reaches C s' :=
  Steps.trans h h'

/-- The invariant rule: what one step preserves, a whole run preserves. -/
theorem Steps.invariant {I : σ → Prop} (h : L.Steps C s s') (h0 : I s)
    (hstep : ∀ t l t', L.Steps C s t → I t → C t l → L.step t l = some t' → I t') : I s' := by
  induction h with
  | refl => exact h0
  | tail hr hC hs ih => exact hstep _ _ _ hr ih hC hs

theorem Reaches.invariant {I : σ → Prop} (h : L.Reaches C s) (h0 : I L.init)
    (hstep : ∀ t l t', L.Reaches C t → I t → C t l → L.step t l = some t' → I t') : I s :=
  Steps.invariant h h0 hstep

/-! ## Concrete runs -/

/-- The state after a list of labels, if each of them is enabled. -/
def run (L : Lts σ ℓ) : σ → List ℓ → Option σ
  | s, [] => some s
  | s, l :: ls => (L.step s l).bind fun s' => L.run s' ls

theorem run_append (ls ls' : List ℓ) :
    L.run s (ls ++ ls') = (L.run s ls).bind fun t => L.run t ls' := by
  induction ls generalizing s with
  | nil => rfl
  | cons l ls ih =>
    rw [List.cons_append, run, run, Option.bind_assoc]
    congr 1
    funext t
    exact ih

/-- Every step of the run of the labels meets the condition. -/
def Meets (L : Lts σ ℓ) (C : σ → ℓ → Prop) : σ → List ℓ → Prop
  | _, [] => True
  | s, l :: ls => C s l ∧ ∀ s', L.step s l = some s' → L.Meets C s' ls

/-- A condition that reads the labels only. -/
theorem meets_iff_forall {P : ℓ → Prop} {ls : List ℓ} (h : L.run s ls = some s') :
    L.Meets (fun _ l => P l) s ls ↔ ∀ l ∈ ls, P l := by
  induction ls generalizing s with
  | nil => exact ⟨fun _ _ hl => (nomatch hl), fun _ => trivial⟩
  | cons l ls ih =>
    rw [run, Option.bind_eq_some_iff] at h
    have ⟨t, ht, hrun⟩ := h
    rw [Meets, List.forall_mem_cons, ← ih hrun]
    refine and_congr_right fun _ => ⟨fun hrest => hrest t ht, fun hrest t' ht' => ?_⟩
    rw [ht, Option.some.injEq] at ht'
    exact ht' ▸ hrest

/-- A condition that follows from two others where an invariant holds that the steps
under the first of them keep. -/
theorem Meets.imp {D E : σ → ℓ → Prop} {I : σ → Prop} {ls : List ℓ} (hI : I s)
    (hkeeps : ∀ t l t', I t → C t l → L.step t l = some t' → I t')
    (himp : ∀ t l, I t → C t l → D t l → E t l) (hC : L.Meets C s ls) (hD : L.Meets D s ls) :
    L.Meets E s ls := by
  induction ls generalizing s with
  | nil => trivial
  | cons l ls ih =>
    refine ⟨himp s l hI hC.1 hD.1, fun t ht => ?_⟩
    exact ih (hkeeps s l t hI hC.1 ht) (hC.2 t ht) (hD.2 t ht)

theorem Meets.and {D : σ → ℓ → Prop} {ls : List ℓ} (hC : L.Meets C s ls) (hD : L.Meets D s ls) :
    L.Meets (fun t l => C t l ∧ D t l) s ls :=
  .imp (I := fun _ => True) trivial (fun _ _ _ _ _ _ => trivial)
    (fun _ _ _ hC hD => ⟨hC, hD⟩) hC hD

/-- A condition that the labels meet in every state. -/
theorem Meets.of_forall {ls : List ℓ} (h : ∀ l ∈ ls, ∀ t, C t l) : L.Meets C s ls := by
  induction ls generalizing s with
  | nil => trivial
  | cons l ls ih =>
    exact ⟨h l List.mem_cons_self s, fun _ _ => ih fun l' hl' => h l' (List.mem_cons_of_mem l hl')⟩

/-- What a run meets holds of a label that may come at its end. -/
theorem Meets.last {ls : List ℓ} {l : ℓ} (h : L.Meets C s (ls ++ [l]))
    (hrun : L.run s ls = some s') : C s' l := by
  induction ls generalizing s with
  | nil =>
    cases hrun
    exact h.1
  | cons l' ls ih =>
    rw [run, Option.bind_eq_some_iff] at hrun
    have ⟨t, ht, hrest⟩ := hrun
    exact ih (h.2 t ht) hrest

/-- The rule for an exact condition: a property that a step from a state with the
invariant keeps if and only if the step meets the condition. -/
theorem run_iff_of_invariant {I J : σ → Prop} {ls : List ℓ} (hJ : J s)
    (hkeeps : ∀ t l t', J t → L.step t l = some t' → J t')
    (hstep : ∀ t l t', J t → L.step t l = some t' → (I t' ↔ I t ∧ C t l))
    (h : L.run s ls = some s') : I s' ↔ I s ∧ L.Meets C s ls := by
  induction ls generalizing s with
  | nil =>
    cases h
    exact ⟨fun hI => ⟨hI, trivial⟩, fun hI => hI.1⟩
  | cons l ls ih =>
    rw [run, Option.bind_eq_some_iff] at h
    have ⟨t, ht, hrun⟩ := h
    rw [ih (hkeeps s l t hJ ht) hrun, hstep s l t hJ ht, Meets]
    constructor
    · intro ⟨⟨hI, hC⟩, hrest⟩
      refine ⟨hI, hC, fun t' ht' => ?_⟩
      rw [ht, Option.some.injEq] at ht'
      exact ht' ▸ hrest
    · intro ⟨hI, hC, hrest⟩
      exact ⟨⟨hI, hC⟩, hrest t ht⟩

/-- The rule for an exact condition that needs no invariant. -/
theorem run_iff {I : σ → Prop} {ls : List ℓ}
    (hstep : ∀ t l t', L.step t l = some t' → (I t' ↔ I t ∧ C t l))
    (h : L.run s ls = some s') : I s' ↔ I s ∧ L.Meets C s ls :=
  run_iff_of_invariant (J := fun _ => True) trivial (fun _ _ _ _ _ => trivial)
    (fun t l t' _ => hstep t l t') h

/-- A concrete run whose labels all meet a condition is a run. -/
theorem Steps.of_run {ls : List ℓ} (h : L.run s ls = some s')
    (hC : ∀ l ∈ ls, ∀ t, C t l) : L.Steps C s s' := by
  induction ls generalizing s with
  | nil =>
    rw [run, Option.some.injEq] at h
    rw [h]
    exact .refl _
  | cons l ls ih =>
    rw [run, Option.bind_eq_some_iff] at h
    obtain ⟨t, ht, hrun⟩ := h
    exact (Steps.single (hC l List.mem_cons_self s) ht).trans
      (ih hrun fun l' hl' => hC l' (List.mem_cons_of_mem l hl'))

/-- What a concrete run reaches is reachable. -/
theorem Reaches.of_run {ls : List ℓ} (h : L.run L.init ls = some s) : L.Reaches Any s :=
  Steps.of_run h fun _ _ _ => trivial

/-- The state after a list of labels, if each of them is enabled and meets the
condition. -/
def runIf (L : Lts σ ℓ) (C : σ → ℓ → Prop) [∀ s l, Decidable (C s l)] : σ → List ℓ → Option σ
  | s, [] => some s
  | s, l :: ls => if C s l then (L.step s l).bind fun s' => L.runIf C s' ls else none

theorem Steps.of_runIf [∀ s l, Decidable (C s l)] {ls : List ℓ}
    (h : L.runIf C s ls = some s') : L.Steps C s s' := by
  induction ls generalizing s with
  | nil =>
    rw [runIf, Option.some.injEq] at h
    rw [h]
    exact .refl _
  | cons l ls ih =>
    rw [runIf] at h
    split at h
    · rename_i hC
      rw [Option.bind_eq_some_iff] at h
      obtain ⟨t, ht, hrun⟩ := h
      exact (Steps.single hC ht).trans (ih hrun)
    · cases h

theorem Meets.of_runIf [∀ s l, Decidable (C s l)] {ls : List ℓ}
    (h : L.runIf C s ls = some s') : L.Meets C s ls ∧ L.run s ls = some s' := by
  induction ls generalizing s with
  | nil => exact ⟨trivial, h⟩
  | cons l ls ih =>
    rw [runIf] at h
    split at h
    · rename_i hC
      rw [Option.bind_eq_some_iff] at h
      have ⟨t, ht, hrun⟩ := h
      have ⟨hmeets, hrest⟩ := ih hrun
      refine ⟨⟨hC, fun t' ht' => ?_⟩, ?_⟩
      · rw [ht, Option.some.injEq] at ht'
        exact ht' ▸ hmeets
      · rw [run, ht]
        exact hrest
    · cases h

/-- A property of the end of a concrete run under a condition, for evaluation. -/
theorem exists_reaches_of_runIf [∀ s l, Decidable (C s l)] (ls : List ℓ) (p : σ → Bool)
    (h : (L.runIf C L.init ls).any p = true) : ∃ s, L.Reaches C s ∧ p s = true := by
  rw [Option.any_eq_true] at h
  obtain ⟨s, hs, hp⟩ := h
  exact ⟨s, .of_runIf hs, hp⟩

/-- Properties of a state of a concrete run and of its end, for evaluation. -/
theorem exists_steps_of_runIf [∀ s l, Decidable (C s l)] (ls ls' : List ℓ) (p p' : σ → Bool)
    (h : ((L.runIf C L.init ls).any fun s => p s && (L.runIf C s ls').any p') = true) :
    ∃ s s', L.Reaches C s ∧ L.Steps C s s' ∧ p s = true ∧ p' s' = true := by
  rw [Option.any_eq_true] at h
  obtain ⟨s, hs, hp⟩ := h
  rw [Bool.and_eq_true, Option.any_eq_true] at hp
  obtain ⟨hp, s', hs', hp'⟩ := hp
  exact ⟨s, s', .of_runIf hs, .of_runIf hs', hp, hp'⟩

/-- A property of the end of a concrete run, for evaluation. -/
theorem exists_reaches_of_run (ls : List ℓ) (p : σ → Bool)
    (h : (L.run L.init ls).any p = true) : ∃ s, L.Reaches Any s ∧ p s = true := by
  rw [Option.any_eq_true] at h
  obtain ⟨s, hs, hp⟩ := h
  exact ⟨s, .of_run hs, hp⟩

end Lts

end Conc
