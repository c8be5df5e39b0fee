import SimpleChat.Conc.Pool

/-!
# Operations that take effect at one point

An operation may be performed by a program over a lower signature, between whose
operations the other threads run.  It is as good as one step if all operations of the
program but one are silent: the one at which it takes effect.

`Atomic.steps` is the rule for a pair of machines whose operations are performed in this
way.  It is enough to look at a silent operation, at one that takes effect, and at one
step of the environment.  A thread below is on its way to the effect of its operation,
or has left it behind, and the thread above is before or after this operation.
-/

namespace Conc

open Function

namespace Prog

variable {S T : Sig} {α β : Type}

/-- The program performs silent operations and returns `r`. -/
def Ends (silent : T.Op → Prop) (r : α) : Prog T α → Prop
  | .ret a => a = r
  | .call o k => silent o ∧ ∀ x, (k x).Ends silent r

/-- The program takes effect once: at an operation that stands for the whole, and whose
response settles what the program returns. -/
def Commits (silent : T.Op → Prop) (stands : (o : T.Op) → (T.Resp o → α) → Prop) :
    Prog T α → Prop
  | .ret _ => False
  | .call o k => (silent o ∧ ∀ x, (k x).Commits silent stands) ∨
      ∃ f, stands o f ∧ ∀ x, (k x).Ends silent (f x)

variable {silent : T.Op → Prop} {stands : (o : T.Op) → (T.Resp o → α) → Prop}

theorem Ends.bind {p : Prog T α} {f : α → Prog T β} {r : α} {r' : β} (h : p.Ends silent r)
    (hf : (f r).Ends silent r') : (p >>= f).Ends silent r' := by
  induction p with
  | ret a =>
    cases h
    exact hf
  | call o k ih => exact ⟨h.1, fun x => ih x (h.2 x)⟩

end Prog

namespace Machine

variable {S T : Sig} {Tid Ctl σ τ Ch Env : Type} [DecidableEq Tid]

/-- What is silent below, and what an operation below stands for. -/
structure Effects (S T : Sig) where
  silent : T.Op → Prop
  stands : (o : S.Op) → (o' : T.Op) → (T.Resp o' → S.Resp o) → Prop

/-- The program below is on its way to the effect of the next operation above, or has
left the effect of the last one behind. -/
inductive Implements (E : Effects S T) (impl : (o : S.Op) → Prog T (S.Resp o)) :
    Prog T Ctl → Prog S Ctl → Prop where
  | before {o : S.Op} {b : Prog T (S.Resp o)} (k : S.Resp o → Prog S Ctl)
      (h : b.Commits E.silent (E.stands o)) :
      Implements E impl (b >>= fun r => (k r).interp impl) (.call o k)
  | after {β : Type} {b : Prog T β} {r : β} (k : β → Prog S Ctl) (h : b.Ends E.silent r) :
      Implements E impl (b >>= fun r => (k r).interp impl) (k r)

/-- The premises of the rule: the operations of `high` are performed below by `impl`, and
`J` relates the two memories. -/
structure Atomic (low : Machine T Tid Ctl τ Ch Env) (high : Machine S Tid Ctl σ Ch Env)
    (E : Effects S T) (impl : (o : S.Op) → Prog T (S.Resp o)) (J : τ → σ → Prop) : Prop where
  resume : ∀ t c, low.resume t c = (high.resume t c).interp impl
  commits : ∀ o, (impl o).Commits E.silent (E.stands o)
  silent : ∀ w v t o ch r w', J w v → E.silent o → low.exec t w o ch = some (r, w') → J w' v
  /-- An operation that stands for one above has the effect of this one. -/
  effect : ∀ w v t o o' f ch r w', J w v → E.stands o o' f → low.exec t w o' ch = some (r, w') →
    ∃ v', high.exec t v o ch = some (f r, v') ∧ J w' v'
  env : ∀ w v e w' start, J w v → low.env e w = some (w', start) →
    ∃ v', high.env e v = some (v', start) ∧ J w' v'

variable {low : Machine T Tid Ctl τ Ch Env} {high : Machine S Tid Ctl σ Ch Env}
  {E : Effects S T} {impl : (o : S.Op) → Prog T (S.Resp o)} {J : τ → σ → Prop}

/-- A thread is between two operations. -/
theorem implements_interp (hcommits : ∀ o, (impl o).Commits E.silent (E.stands o))
    (h : Prog S Ctl) : Implements E impl (h.interp impl) h := by
  cases h with
  | ret c => exact .after (b := .ret ()) (r := ()) (fun _ => .ret c) rfl
  | call o k => exact .before k (hcommits o)

/-- What the next operation of a thread is above. -/
theorem Implements.of_call {l : Prog T Ctl} {h : Prog S Ctl} (hi : Implements E impl l h)
    (hcommits : ∀ o, (impl o).Commits E.silent (E.stands o)) {o' : T.Op}
    {k' : T.Resp o' → Prog T Ctl} (hl : l = .call o' k') :
    (E.silent o' ∧ ∀ x, Implements E impl (k' x) h) ∨
      ∃ o k f, h = .call o k ∧ E.stands o o' f ∧ ∀ x, Implements E impl (k' x) (k (f x)) := by
  -- The effect of an operation is still to come.
  have hbefore : ∀ {o : S.Op} {b : Prog T (S.Resp o)} (k : S.Resp o → Prog S Ctl),
      b.Commits E.silent (E.stands o) → (b >>= fun r => (k r).interp impl) = .call o' k' →
      (E.silent o' ∧ ∀ x, Implements E impl (k' x) (.call o k)) ∨
        ∃ f, E.stands o o' f ∧ ∀ x, Implements E impl (k' x) (k (f x)) := by
    intro o b k hb heq
    cases b with
    | ret a => exact hb.elim
    | call o'' kb =>
      cases heq
      rcases hb with ⟨hsilent, hrest⟩ | ⟨f, hstands, hrest⟩
      · exact Or.inl ⟨hsilent, fun x => .before k (hrest x)⟩
      · exact Or.inr ⟨f, hstands, fun x => .after k (hrest x)⟩
  cases hi with
  | before k hb =>
    refine (hbefore k hb hl).imp id fun hrest => ?_
    obtain ⟨f, hstands, hrest⟩ := hrest
    exact ⟨_, k, f, rfl, hstands, hrest⟩
  | @after β b r k hb =>
    cases b with
    | call o'' kb =>
      cases hl
      exact Or.inl ⟨hb.1, fun x => .after k (hb.2 x)⟩
    | ret a =>
      have hr : a = r := hb
      subst hr
      change (k a).interp impl = _ at hl
      cases hk : k a with
      | ret c =>
        rw [hk] at hl
        cases hl
      | call o k₁ =>
        rw [hk] at hl
        refine (hbefore k₁ (hcommits o) hl).imp id fun hrest => ?_
        obtain ⟨f, hstands, hrest⟩ := hrest
        exact ⟨o, k₁, f, rfl, hstands, hrest⟩

/-- A thread that has passed its last operation has done so above. -/
theorem Implements.of_ret {l : Prog T Ctl} {h : Prog S Ctl} (hi : Implements E impl l h)
    (hcommits : ∀ o, (impl o).Commits E.silent (E.stands o)) {c : Ctl} (hl : l = .ret c) :
    h = .ret c := by
  cases hi with
  | @before o b k hb =>
    cases b with
    | ret a => exact hb.elim
    | call o' kb => cases hl
  | @after β b r k hb =>
    cases b with
    | call o' kb => cases hl
    | ret a =>
      have hr : a = r := hb
      subst hr
      change (k a).interp impl = _ at hl
      cases hk : k a with
      | ret c' =>
        rw [hk] at hl
        cases hl
        rfl
      | call o k₁ =>
        rw [hk, Prog.interp_call] at hl
        have ho := hcommits o
        cases himpl : impl o with
        | ret x =>
          rw [himpl] at ho
          exact ho.elim
        | call o' kb =>
          rw [himpl] at hl
          cases hl

/-- The threads of two pools, each at its place. -/
def Placed (E : Effects S T) (impl : (o : S.Op) → Prog T (S.Resp o)) (p : Pool T Tid Ctl τ)
    (q : Pool S Tid Ctl σ) : Prop :=
  ∀ t, Implements E impl (p.prog t) (q.prog t)

theorem Placed.update {p p' : Pool T Tid Ctl τ} {q q' : Pool S Tid Ctl σ} {t : Tid}
    {l : Prog T Ctl} {h : Prog S Ctl} (hp : Placed E impl p q)
    (hl : p'.prog = Function.update p.prog t l) (hh : q'.prog = Function.update q.prog t h)
    (ht : Implements E impl l h) : Placed E impl p' q' := by
  intro u
  rw [hl, hh]
  by_cases hu : u = t
  · subst hu
    rwa [update_self, update_self]
  · rw [update_of_ne hu, update_of_ne hu]
    exact hp u

/-- Each step below is a step above, or silent. -/
theorem Atomic.step (hat : Atomic low high E impl J) {p p' : Pool T Tid Ctl τ}
    {q : Pool S Tid Ctl σ} {l : Label Tid Ch Env} (hp : Placed E impl p q)
    (hJ : J p.shared q.shared) (hs : low.step p l = some p') :
    ∃ q', (q' = q ∨ high.step q l = some q') ∧ Placed E impl p' q' ∧ J p'.shared q'.shared := by
  cases l with
  | op t ch =>
    obtain ⟨o', k', r, w, hprog, he, rfl⟩ := step_op.1 hs
    rcases (hp t).of_call hat.commits hprog with ⟨hsilent, hrest⟩ | ⟨o, k, f, hq, hstands, hrest⟩
    · refine ⟨q, Or.inl rfl, ?_, hat.silent _ _ t o' ch r w hJ hsilent he⟩
      exact hp.update rfl (update_eq_self t q.prog).symm (hrest r)
    · obtain ⟨v, he', hJ'⟩ := hat.effect _ _ t o o' f ch r w hJ hstands he
      refine ⟨q.afterOp t o k (f r) v, Or.inr (step_op.2 ⟨o, k, _, v, hq, he', rfl⟩), ?_, hJ'⟩
      exact hp.update rfl rfl (hrest r)
  | jump t =>
    obtain ⟨c, hprog, rfl⟩ := step_jump.1 hs
    have hq := (hp t).of_ret hat.commits hprog
    refine ⟨q.withProg t (high.resume t c), Or.inr (step_jump.2 ⟨c, hq, rfl⟩), ?_, hJ⟩
    refine hp.update rfl rfl ?_
    rw [hat.resume]
    exact implements_interp hat.commits _
  | env e =>
    obtain ⟨w, start, he, rfl⟩ := step_env.1 hs
    obtain ⟨v, he', hJ'⟩ := hat.env _ _ e w start hJ he
    refine ⟨q.afterEnv v start, Or.inr (step_env.2 ⟨v, start, he', rfl⟩), ?_, ?_⟩
    · cases start with
      | none => exact hp
      | some x => exact hp.update rfl rfl (implements_interp hat.commits (.ret x.2))
    · rw [Pool.afterEnv_shared, Pool.afterEnv_shared]
      exact hJ'

/-- The rule: a run below is a run above, whose threads are at the same places. -/
theorem Atomic.steps (hat : Atomic low high E impl J) {s : τ} {s' : σ} {start : Tid → Ctl}
    {C : Pool T Tid Ctl τ → Label Tid Ch Env → Prop} {p : Pool T Tid Ctl τ}
    (h : (low.toLts s start).Reaches C p) (h0 : J s s') :
    ∃ q, (high.toLts s' start).Reaches Lts.Any q ∧ Placed E impl p q ∧ J p.shared q.shared := by
  refine h.invariant (I := fun p => ∃ q, (high.toLts s' start).Reaches Lts.Any q ∧
    Placed E impl p q ∧ J p.shared q.shared) ?_ ?_
  · exact ⟨_, .init, fun t => implements_interp hat.commits (.ret (start t)), h0⟩
  · intro p l p' _ hI _ hs
    obtain ⟨q, hq, hp, hJ⟩ := hI
    obtain ⟨q', hstep, hp', hJ'⟩ := hat.step hp hJ hs
    refine ⟨q', ?_, hp', hJ'⟩
    rcases hstep with rfl | hstep
    · exact hq
    · exact hq.tail trivial hstep

end Machine

end Conc
