import SimpleChat.Conc.Pool

/-!
# Two runs side by side

A property of two runs of one machine is shown by a simulation in lockstep.  The
threads of the two pools perform operations that need not be the same, and
receive responses that need not be the same.  `Coupling` says which ones may be
performed side by side, in a state that follows both programs; `Prog.Coupled`
says that two programs do so on every pair of branches.

`Couples.run` is the rule.  It is enough that operations side by side keep a
relation of the two pools, and that labels side by side are enabled together.
-/

namespace Conc

open Function

/-- Operations and responses side by side, with a state that both programs
share. -/
structure Coupling (S : Sig) (Q : Type) where
  ops : Q → S.Op → S.Op → Prop
  next : Q → (o o' : S.Op) → S.Resp o → S.Resp o' → Q → Prop

namespace Prog

variable {S T : Sig} {α β Q : Type} {M : Coupling S Q}

/-- The programs perform operations side by side on every pair of branches, and
return values that are related by `post`. -/
def Coupled (M : Coupling S Q) (post : α → α → Q → Prop) : Prog S α → Prog S α → Q → Prop
  | .ret a, .ret a', q => post a a' q
  | .call o k, .call o' k', q =>
    M.ops q o o' ∧ ∀ r r' q', M.next q o o' r r' q' → (k r).Coupled M post (k' r') q'
  | _, _, _ => False

section Coupled

variable {post post' : α → α → Q → Prop} {q : Q} {p p' : Prog S α}

/-- Coupled programs end together. -/
theorem Coupled.of_ret {a : α} (h : (Prog.ret a : Prog S α).Coupled M post p' q) :
    ∃ a', p' = .ret a' ∧ post a a' q := by
  cases p' with
  | ret a' => exact ⟨a', rfl, h⟩
  | call o k => exact h.elim

/-- Coupled programs go on together. -/
theorem Coupled.of_call {o : S.Op} {k : S.Resp o → Prog S α}
    (h : (Prog.call o k).Coupled M post p' q) :
    ∃ o' k', p' = .call o' k' ∧ M.ops q o o' ∧
      ∀ r r' q', M.next q o o' r r' q' → (k r).Coupled M post (k' r') q' := by
  cases p' with
  | ret a' => exact h.elim
  | call o' k' => exact ⟨o', k', rfl, h⟩

theorem Coupled.weaken (h : p.Coupled M post p' q) (hpost : ∀ a a' q, post a a' q → post' a a' q) :
    p.Coupled M post' p' q := by
  induction p generalizing p' q with
  | ret a =>
    have ⟨a', hp', ha⟩ := h.of_ret
    rw [hp']
    exact hpost a a' q ha
  | call o k ih =>
    have ⟨o', k', hp', hops, hk⟩ := h.of_call
    rw [hp']
    exact ⟨hops, fun r r' q' hnext => ih r (hk r r' q' hnext)⟩

/-- The rule for sequencing. -/
theorem Coupled.bind {f f' : α → Prog S β} {post : β → β → Q → Prop} {mid : α → α → Q → Prop}
    (h : p.Coupled M mid p' q)
    (hf : ∀ a a' q, mid a a' q → (f a).Coupled M post (f' a') q) :
    (p >>= f).Coupled M post (p' >>= f') q := by
  induction p generalizing p' q with
  | ret a =>
    have ⟨a', hp', ha⟩ := h.of_ret
    rw [hp']
    exact hf a a' q ha
  | call o k ih =>
    have ⟨o', k', hp', hops, hk⟩ := h.of_call
    rw [hp']
    exact ⟨hops, fun r r' q' hnext => ih r (hk r r' q' hnext)⟩

end Coupled

end Prog

namespace Machine

variable {S : Sig} {Tid Ctl σ Ch Env Q : Type} [DecidableEq Tid] {m : Machine S Tid Ctl σ Ch Env}
  {M : Coupling S Q} {post : Ctl → Ctl → Q → Prop}
  {J : Pool S Tid Ctl σ → Pool S Tid Ctl σ → (Tid → Q) → Prop} {E : Env → Env → Prop}

/-- The premises of the rule.  `E` says which steps of the environment are side by
side. -/
structure Couples (m : Machine S Tid Ctl σ Ch Env) (M : Coupling S Q)
    (post : Ctl → Ctl → Q → Prop)
    (J : Pool S Tid Ctl σ → Pool S Tid Ctl σ → (Tid → Q) → Prop) (E : Env → Env → Prop) : Prop where
  op : ∀ p p' qs t ch o o' k k' r s, J p p' qs → p.prog t = .call o k → p'.prog t = .call o' k' →
    M.ops (qs t) o o' → m.exec t p.shared o ch = some (r, s) →
    ∃ r' s' q', m.exec t p'.shared o' ch = some (r', s') ∧ M.next (qs t) o o' r r' q' ∧
      J (p.afterOp t o k r s) (p'.afterOp t o' k' r' s') (update qs t q')
  jump : ∀ p p' qs t c c', J p p' qs → post c c' (qs t) →
    ∃ q', (m.resume t c).Coupled M post (m.resume t c') q' ∧
      J (p.withProg t (m.resume t c)) (p'.withProg t (m.resume t c')) (update qs t q')
  env : ∀ p p' qs e e' s start, J p p' qs → E e e' → m.env e p.shared = some (s, start) →
    ∃ s' qs', m.env e' p'.shared = some (s', start) ∧
      (∀ t, (∀ c, start ≠ some (t, c)) → qs' t = qs t) ∧
      (∀ t c, start = some (t, c) → post c c (qs' t)) ∧
      J (p.afterEnv s start) (p'.afterEnv s' start) qs'

/-- Two pools whose threads have coupled programs. -/
def Coupled (M : Coupling S Q) (post : Ctl → Ctl → Q → Prop)
    (J : Pool S Tid Ctl σ → Pool S Tid Ctl σ → (Tid → Q) → Prop) (p p' : Pool S Tid Ctl σ)
    (qs : Tid → Q) : Prop :=
  (∀ t, (p.prog t).Coupled M post (p'.prog t) (qs t)) ∧ J p p' qs

/-- The same label, or steps of the environment that are side by side. -/
def SideBySide (E : Env → Env → Prop) : Label Tid Ch Env → Label Tid Ch Env → Prop
  | .op t ch, l' => l' = .op t ch
  | .jump t, l' => l' = .jump t
  | .env e, .env e' => E e e'
  | .env _, _ => False

omit [DecidableEq Tid] in
theorem SideBySide.refl (hE : ∀ e, E e e) (l : Label Tid Ch Env) : SideBySide E l l := by
  cases l with
  | op t ch | jump t => rfl
  | env e => exact hE e

/-- One step side by side. -/
theorem Couples.step (h : Couples m M post J E) {p p' q : Pool S Tid Ctl σ} {qs : Tid → Q}
    {l l' : Label Tid Ch Env} (hp : Coupled M post J p p' qs) (hl : SideBySide E l l')
    (hs : m.step p l = some q) : ∃ q' qs', m.step p' l' = some q' ∧ Coupled M post J q q' qs' := by
  have ⟨hprogs, hJ⟩ := hp
  cases l with
  | op t ch =>
    subst hl
    have ⟨o, k, r, s, hprog, he, hq⟩ := step_op.1 hs
    subst hq
    have ht := hprogs t
    rw [hprog] at ht
    have ⟨o', k', hprog', hops, hk⟩ := ht.of_call
    have ⟨r', s', a, he', hnext, hJ'⟩ := h.op p p' qs t ch o o' k k' r s hJ hprog hprog' hops he
    refine ⟨p'.afterOp t o' k' r' s', update qs t a, step_op.2 ⟨o', k', r', s', hprog', he', rfl⟩,
      fun u => ?_, hJ'⟩
    by_cases hu : u = t
    · subst hu
      simpa using hk r r' a hnext
    · simpa [hu] using hprogs u
  | jump t =>
    subst hl
    have ⟨c, hprog, hq⟩ := step_jump.1 hs
    subst hq
    have ht := hprogs t
    rw [hprog] at ht
    have ⟨c', hprog', hpost⟩ := ht.of_ret
    have ⟨a, hresume, hJ'⟩ := h.jump p p' qs t c c' hJ hpost
    refine ⟨p'.withProg t (m.resume t c'), update qs t a, step_jump.2 ⟨c', hprog', rfl⟩,
      fun u => ?_, hJ'⟩
    by_cases hu : u = t
    · subst hu
      simpa using hresume
    · simpa [hu] using hprogs u
  | env e =>
    cases l' with
    | op t ch => exact hl.elim
    | jump t => exact hl.elim
    | env e' =>
      have ⟨s, start, he, hq⟩ := step_env.1 hs
      subst hq
      have ⟨s', qs', he', hsame, hstart, hJ'⟩ := h.env p p' qs e e' s start hJ hl he
      refine ⟨p'.afterEnv s' start, qs', step_env.2 ⟨s', start, he', rfl⟩, fun u => ?_, hJ'⟩
      rcases start with _ | ⟨t, c⟩
      · rw [hsame u (by simp)]
        exact hprogs u
      · rw [Pool.afterEnv_some_prog, Pool.afterEnv_some_prog]
        by_cases hu : u = t
        · subst hu
          rw [update_self, update_self]
          exact hstart u c rfl
        · rw [update_of_ne hu, update_of_ne hu, hsame u]
          · exact hprogs u
          · intro c' heq
            rw [Option.some.injEq, Prod.mk.injEq] at heq
            exact hu heq.1.symm

/-- Two runs under labels side by side. -/
theorem Couples.run (h : Couples m M post J E) {s : σ} {start : Tid → Ctl}
    {ls ls' : List (Label Tid Ch Env)} (hls : List.Forall₂ (SideBySide E) ls ls')
    {p p' q : Pool S Tid Ctl σ} {qs : Tid → Q} (hp : Coupled M post J p p' qs)
    (hrun : (m.toLts s start).run p ls = some q) :
    ∃ q' qs', (m.toLts s start).run p' ls' = some q' ∧ Coupled M post J q q' qs' := by
  induction hls generalizing p p' qs with
  | nil =>
    cases hrun
    exact ⟨p', qs, rfl, hp⟩
  | cons hl _ ih =>
    rw [Lts.run, Option.bind_eq_some_iff] at hrun
    obtain ⟨t, ht, hrest⟩ := hrun
    obtain ⟨t', as, ht', hcoupled⟩ := h.step hp hl ht
    obtain ⟨q', qs', hrun', hq⟩ := ih hcoupled hrest
    refine ⟨q', qs', ?_, hq⟩
    rw [Lts.run, Option.bind_eq_some_iff]
    exact ⟨t', ht', hrun'⟩

end Machine

end Conc
