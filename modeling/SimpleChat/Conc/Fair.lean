import Mathlib.Order.WellFounded
import SimpleChat.Conc.Lts

/-!
# Infinite runs and fairness

A `Path` is an infinite run.  A part of the system has moves, which are some of the steps.
A path is fair to the part if the part does not stay where it could move.

`Path.settles` is the rule for a part whose moves go down in a well-founded order and
which the other steps leave alone: on a fair path it comes to a point from which it stays
where it is, and it cannot move there.
-/

namespace Conc

namespace Lts

variable {σ ℓ α : Type}

/-- An infinite run. -/
structure Path (L : Lts σ ℓ) where
  state : Nat → σ
  label : Nat → ℓ
  step : ∀ n, L.step (state n) (label n) = some (state (n + 1))

variable {L : Lts σ ℓ} {M : σ → ℓ → Prop}

/-- Some move of the part is enabled. -/
def Can (L : Lts σ ℓ) (M : σ → ℓ → Prop) (s : σ) : Prop := ∃ l s', M s l ∧ L.step s l = some s'

namespace Path

/-- A part that can move from some point on moves again. -/
def Fair (r : L.Path) (M : σ → ℓ → Prop) : Prop :=
  ∀ n, (∀ m, n ≤ m → L.Can M (r.state m)) → ∃ m, n ≤ m ∧ M (r.state m) (r.label m)

variable {r : L.Path}

theorem steps {n m : Nat} (h : n ≤ m) : L.Steps Any (r.state n) (r.state m) := by
  induction m, h using Nat.le_induction with
  | base => exact .refl _
  | succ m _ ih => exact ih.tail trivial (r.step m)

section Descent

variable {down : α → α → Prop} {f : σ → α}

/-- A part whose moves go down moves a finite number of times. -/
theorem rests (hdown : WellFounded down)
    (hmove : ∀ n, M (r.state n) (r.label n) → down (f (r.state (n + 1))) (f (r.state n)))
    (hkeep : ∀ n, ¬ M (r.state n) (r.label n) → f (r.state (n + 1)) = f (r.state n)) :
    ∃ n, ∀ m, n ≤ m → ¬ M (r.state m) (r.label m) ∧ f (r.state m) = f (r.state n) := by
  -- It rests where it has come down as far as it ever does.
  obtain ⟨_, ⟨n, rfl⟩, hmin⟩ := hdown.has_min (Set.range fun n => f (r.state n)) ⟨_, 0, rfl⟩
  have hrest : ∀ m, f (r.state m) = f (r.state n) → ¬ M (r.state m) (r.label m) := by
    intro m hm hM
    have hlower := hmove m hM
    rw [hm] at hlower
    exact hmin _ ⟨m + 1, rfl⟩ hlower
  have hsame : ∀ m, n ≤ m → f (r.state m) = f (r.state n) := by
    intro m hm
    induction m, hm using Nat.le_induction with
    | base => rfl
    | succ m hm ih => exact (hkeep m (hrest m ih)).trans ih
  exact ⟨n, fun m hm => ⟨hrest m (hsame m hm), hsame m hm⟩⟩

/-- On a fair path it comes to rest where it cannot move. -/
theorem settles (hdown : WellFounded down)
    (hmove : ∀ n, M (r.state n) (r.label n) → down (f (r.state (n + 1))) (f (r.state n)))
    (hkeep : ∀ n, ¬ M (r.state n) (r.label n) → f (r.state (n + 1)) = f (r.state n))
    (hfair : r.Fair M) :
    ∃ n, ¬ L.Can M (r.state n) ∧ ∀ m, n ≤ m → f (r.state m) = f (r.state n) := by
  obtain ⟨n, hrest⟩ := rests hdown hmove hkeep
  have hblocked : ∃ m, n ≤ m ∧ ¬ L.Can M (r.state m) := by
    by_contra hnone
    obtain ⟨m, hm, hM⟩ := hfair n fun m hm => by
      by_contra hcan
      exact hnone ⟨m, hm, hcan⟩
    exact (hrest m hm).1 hM
  obtain ⟨m, hm, hcan⟩ := hblocked
  refine ⟨m, hcan, fun k hk => ?_⟩
  exact (hrest k (Nat.le_trans hm hk)).2.trans (hrest m hm).2.symm

end Descent

/-! ## Paths that come to an end -/

/-- A step, and then a path. -/
def cons {s : σ} {l : ℓ} (r : L.Path) (h : L.step s l = some (r.state 0)) : L.Path where
  state
    | 0 => s
    | n + 1 => r.state n
  label
    | 0 => l
    | n + 1 => r.label n
  step
    | 0 => h
    | n + 1 => r.step n

/-- A concrete run, after which a step that changes nothing is repeated. -/
theorem exists_of_run {s s' : σ} {ls : List ℓ} {l : ℓ} (h : L.run s ls = some s')
    (hl : L.step s' l = some s') :
    ∃ r : L.Path, r.state 0 = s ∧ (∀ n, r.label n = l ∨ r.label n ∈ ls) ∧
      ∃ N, ∀ n, N ≤ n → r.state n = s' := by
  induction ls generalizing s with
  | nil =>
    cases h
    exact ⟨⟨fun _ => s', fun _ => l, fun _ => hl⟩, rfl, fun _ => Or.inl rfl, 0, fun _ _ => rfl⟩
  | cons l' ls ih =>
    rw [run, Option.bind_eq_some_iff] at h
    obtain ⟨t, ht, hrun⟩ := h
    obtain ⟨r, rfl, hlabels, N, hend⟩ := ih hrun
    refine ⟨r.cons ht, rfl, fun n => ?_, N + 1, fun n hn => ?_⟩
    · cases n with
      | zero => exact Or.inr List.mem_cons_self
      | succ n => exact (hlabels n).imp_right (List.mem_cons_of_mem l')
    · cases n with
      | zero => exact absurd hn (Nat.not_succ_le_zero N)
      | succ n => exact hend n (Nat.le_of_succ_le_succ hn)

/-- A path that ends where a part cannot move is fair to it. -/
theorem Fair.of_end {s : σ} {N : Nat} (hend : ∀ n, N ≤ n → r.state n = s) (hs : ¬ L.Can M s) :
    r.Fair M := by
  intro n hcan
  refine absurd (hcan (max n N) (Nat.le_max_left n N)) ?_
  rwa [hend _ (Nat.le_max_right n N)]

end Path

end Lts

end Conc
