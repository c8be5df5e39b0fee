import SimpleChat.Conc.Pool

/-!
# Critical sections

Some operations work on data that only the owner of a lock may touch.  Below, such a
guarded operation is a program: a critical section, between whose operations the other
threads run.  The other operations are single operations below as well.

What the threads outside the section may do in the meantime is the relation `rely`.  A
section is described by `Before` and `After`: it is on its way to the operation at which
it takes effect above, or it has taken effect and the memories are not the same yet.
Both are stable under `rely` by definition.

`Guarded.steps` is the rule.  Where the threads above touch the guarded data only as
owners of the lock, a run below is a run above.  The two memories are the same whenever
no thread is in its section, and the thread that is in its section owns the lock.
-/

namespace Conc

open Function

namespace Machine

variable {S T : Sig} {Tid Ctl σ τ Ch Env : Type}

/-- The lock and the two memories. -/
structure Guard (S : Sig) (Tid τ σ : Type) where
  /-- The operations that touch the guarded data. -/
  guarded : S.Op → Prop
  /-- The threads that perform such an operation. -/
  performs : Tid → S.Op → Prop
  owner : σ → Option Tid
  /-- The memories below and above are the same. -/
  same : τ → σ → Prop
  /-- They are the same but for the guarded data. -/
  agree : τ → σ → Prop
  /-- What others do to the two memories while a thread is in its section. -/
  rely : τ → σ → τ → σ → Prop

section Stages

variable (low : Machine T Tid Ctl τ Ch Env) (high : Machine S Tid Ctl σ Ch Env)
  (G : Guard S Tid τ σ)

/-- The section has taken effect, and will return `r` with the memories the same. -/
def After {α : Type} (t : Tid) (r : α) : Prog T α → τ → σ → Prop
  | .ret a, w, v => a = r ∧ G.same w v
  | .call o k, w, v => ∀ w₁ v₁, G.rely w v w₁ v₁ → G.agree w₁ v₁ → ∀ ch x w₂,
      low.exec t w₁ o ch = some (x, w₂) → G.agree w₂ v₁ ∧ After t r (k x) w₂ v₁

/-- The section has not taken effect yet.  Its next operation is silent or is the one at
which it does. -/
def Before (t : Tid) (o : S.Op) : Prog T (S.Resp o) → τ → σ → Prop
  | .ret _, _, _ => False
  | .call o' k, w, v => ∀ w₁ v₁, G.rely w v w₁ v₁ → G.agree w₁ v₁ → ∀ ch x w₂,
      low.exec t w₁ o' ch = some (x, w₂) →
        (G.agree w₂ v₁ ∧ Before t o (k x) w₂ v₁) ∨
          ∃ r v₂, high.exec t v₁ o ch = some (r, v₂) ∧ G.agree w₂ v₂ ∧
            After low G t r (k x) w₂ v₂

end Stages

/-- The premises of the rule. -/
structure Guarded (low : Machine T Tid Ctl τ Ch Env) (high : Machine S Tid Ctl σ Ch Env)
    (G : Guard S Tid τ σ) (impl : (o : S.Op) → Prog T (S.Resp o)) : Prop where
  resume : ∀ t c, low.resume t c = (high.resume t c).interp impl
  nonempty : ∀ o a, impl o ≠ .ret a
  agree_of_same : ∀ w v, G.same w v → G.agree w v
  rely_refl : ∀ w v, G.rely w v w v
  rely_trans : ∀ w v w₁ v₁ w₂ v₂, G.rely w v w₁ v₁ → G.rely w₁ v₁ w₂ v₂ → G.rely w v w₂ v₂
  rely_agree : ∀ w v w₁ v₁, G.agree w v → G.rely w v w₁ v₁ → G.agree w₁ v₁
  rely_same : ∀ w v w₁ v₁, G.same w v → G.rely w v w₁ v₁ → G.same w₁ v₁
  /-- A section that is entered will take effect. -/
  enter : ∀ t o w v, G.guarded o → G.performs t o → G.same w v →
    Before low high G t o (impl o) w v
  /-- An operation that is not guarded is one operation below, and others may rely on it. -/
  free : ∀ o, ¬ G.guarded o → ∃ (o' : T.Op) (f : T.Resp o' → S.Resp o),
    impl o = .call o' (fun x => .ret (f x)) ∧ ∀ t w v ch x w', G.agree w v →
      low.exec t w o' ch = some (x, w') →
        ∃ v', high.exec t v o ch = some (f x, v') ∧ G.rely w v w' v'
  env : ∀ e w v w' start, G.agree w v → low.env e w = some (w', start) →
    ∃ v', high.env e v = some (v', start) ∧ G.rely w v w' v'
  /-- A section does not release the lock. -/
  keeps : ∀ t o v ch r v', G.owner v = some t → G.guarded o →
    high.exec t v o ch = some (r, v') → G.owner v' = some t

/-- The threads above touch the guarded data as owners of the lock, and others do not
release it. -/
structure Disciplined (high : Machine S Tid Ctl σ Ch Env) (G : Guard S Tid τ σ)
    (q : Pool S Tid Ctl σ) : Prop where
  owns : ∀ t o k, q.prog t = .call o k → G.guarded o →
    G.performs t o ∧ G.owner q.shared = some t
  others : ∀ t u o k ch r v, G.owner q.shared = some t → u ≠ t → q.prog u = .call o k →
    high.exec u q.shared o ch = some (r, v) → G.owner v = some t
  env : ∀ t e v start, G.owner q.shared = some t → high.env e q.shared = some (v, start) →
    G.owner v = some t ∧ ∀ c, start ≠ some (t, c)

variable {low : Machine T Tid Ctl τ Ch Env} {high : Machine S Tid Ctl σ Ch Env}
  {G : Guard S Tid τ σ} {impl : (o : S.Op) → Prog T (S.Resp o)}

/-- Thread `t` is in a section whose next operation is `o'`. -/
inductive Inside (low : Machine T Tid Ctl τ Ch Env) (high : Machine S Tid Ctl σ Ch Env)
    (G : Guard S Tid τ σ) (impl : (o : S.Op) → Prog T (S.Resp o)) (t : Tid) (w : τ) (v : σ) :
    Prog T Ctl → Prog S Ctl → Prop where
  | before {o : S.Op} {o' : T.Op} {b : T.Resp o' → Prog T (S.Resp o)} (k : S.Resp o → Prog S Ctl)
      (ho : G.guarded o) (h : Before low high G t o (.call o' b) w v) :
      Inside low high G impl t w v (.call o' fun x => b x >>= fun r => (k r).interp impl)
        (.call o k)
  | after {α : Type} {o' : T.Op} {b : T.Resp o' → Prog T α} {r : α} (k : α → Prog S Ctl)
      (h : After low G t r (.call o' b) w v) :
      Inside low high G impl t w v (.call o' fun x => b x >>= fun r => (k r).interp impl) (k r)

/-- Thread `t` is between two operations. -/
def AtRest (impl : (o : S.Op) → Prog T (S.Resp o)) (p : Pool T Tid Ctl τ) (q : Pool S Tid Ctl σ)
    (t : Tid) : Prop :=
  p.prog t = (q.prog t).interp impl

/-- At most one thread is in a section.  It owns the lock, and the memories are the same if
there is none. -/
def Related (low : Machine T Tid Ctl τ Ch Env) (high : Machine S Tid Ctl σ Ch Env)
    (G : Guard S Tid τ σ) (impl : (o : S.Op) → Prog T (S.Resp o))
    (p : Pool T Tid Ctl τ) (q : Pool S Tid Ctl σ) : Prop :=
  G.agree p.shared q.shared ∧
    ((G.same p.shared q.shared ∧ ∀ t, AtRest impl p q t) ∨
      ∃ t, G.owner q.shared = some t ∧
        Inside low high G impl t p.shared q.shared (p.prog t) (q.prog t) ∧
        ∀ u, u ≠ t → AtRest impl p q u)

theorem After.stable (hg : Guarded low high G impl) {α : Type} {t : Tid} {r : α} {b : Prog T α}
    {w w' : τ} {v v' : σ} (h : After low G t r b w v) (hrely : G.rely w v w' v') :
    After low G t r b w' v' := by
  cases b with
  | ret a => exact ⟨h.1, hg.rely_same w v w' v' h.2 hrely⟩
  | call o k => exact fun w₁ v₁ hrely' => h w₁ v₁ (hg.rely_trans _ _ _ _ _ _ hrely hrely')

theorem Before.stable (hg : Guarded low high G impl) {t : Tid} {o : S.Op} {b : Prog T (S.Resp o)}
    {w w' : τ} {v v' : σ} (h : Before low high G t o b w v) (hrely : G.rely w v w' v') :
    Before low high G t o b w' v' := by
  cases b with
  | ret a => exact h
  | call o' k => exact fun w₁ v₁ hrely' => h w₁ v₁ (hg.rely_trans _ _ _ _ _ _ hrely hrely')

/-- What others do leaves a thread in its section. -/
theorem Inside.stable (hg : Guarded low high G impl) {t : Tid} {w w' : τ} {v v' : σ}
    {l : Prog T Ctl} {h : Prog S Ctl} (hi : Inside low high G impl t w v l h)
    (hrely : G.rely w v w' v') : Inside low high G impl t w' v' l h := by
  cases hi with
  | before k ho hb => exact .before k ho (hb.stable hg hrely)
  | after k ha => exact .after k (ha.stable hg hrely)

section Rest

variable {p : Pool T Tid Ctl τ} {q : Pool S Tid Ctl σ} {t : Tid}

/-- The next operation of a thread at rest. -/
theorem AtRest.of_call (h : AtRest impl p q t) {o' : T.Op} {k' : T.Resp o' → Prog T Ctl}
    (hcall : p.prog t = .call o' k') :
    ∃ o k, q.prog t = .call o k ∧ p.prog t = impl o >>= fun r => (k r).interp impl := by
  unfold AtRest at h
  cases hq : q.prog t with
  | ret c =>
    rw [h, hq] at hcall
    cases hcall
  | call o k =>
    rw [hq] at h
    exact ⟨o, k, rfl, h⟩

/-- A thread at rest that has passed its last operation. -/
theorem AtRest.of_ret (h : AtRest impl p q t) (hg : Guarded low high G impl) {c : Ctl}
    (hret : p.prog t = .ret c) : q.prog t = .ret c := by
  unfold AtRest at h
  cases hq : q.prog t with
  | ret c' =>
    rw [h, hq] at hret
    cases hret
    rfl
  | call o k =>
    rw [h, hq, Prog.interp_call] at hret
    cases himpl : impl o with
    | ret a => exact absurd himpl (hg.nonempty o a)
    | call o' b =>
      rw [himpl] at hret
      cases hret

/-- A section that has taken effect, at its end or not. -/
theorem related_of_after {α : Type} {b : Prog T α} {r : α} (k : α → Prog S Ctl)
    (hagree : G.agree p.shared q.shared) (howner : G.owner q.shared = some t)
    (hrest : ∀ u, u ≠ t → AtRest impl p q u) (hp : p.prog t = b >>= fun r => (k r).interp impl)
    (hq : q.prog t = k r) (h : After low G t r b p.shared q.shared) :
    Related low high G impl p q := by
  refine ⟨hagree, ?_⟩
  cases b with
  | ret a =>
    refine Or.inl ⟨h.2, fun u => ?_⟩
    by_cases hu : u = t
    · unfold AtRest
      rw [hu, hp, hq, ← h.1]
      rfl
    · exact hrest u hu
  | call o' b =>
    refine Or.inr ⟨t, howner, ?_, hrest⟩
    rw [hp, hq]
    exact .after k h

/-- A section that has not taken effect. -/
theorem related_of_before {o : S.Op} {b : Prog T (S.Resp o)} {k : S.Resp o → Prog S Ctl}
    (hagree : G.agree p.shared q.shared) (hguarded : G.guarded o)
    (howner : G.owner q.shared = some t) (hrest : ∀ u, u ≠ t → AtRest impl p q u)
    (hp : p.prog t = b >>= fun r => (k r).interp impl) (hq : q.prog t = .call o k)
    (h : Before low high G t o b p.shared q.shared) :
    Related low high G impl p q := by
  refine ⟨hagree, Or.inr ⟨t, howner, ?_, hrest⟩⟩
  cases b with
  | ret a => exact h.elim
  | call o' b =>
    rw [hp, hq]
    exact .before k hguarded h

variable {p' : Pool T Tid Ctl τ} {q' : Pool S Tid Ctl σ}

/-- A thread at rest that stays where it is, or goes on to a place at rest. -/
theorem AtRest.move {u : Tid} (h : AtRest impl p q u)
    (hprog : (p'.prog u = p.prog u ∧ q'.prog u = q.prog u) ∨ AtRest impl p' q' u) :
    AtRest impl p' q' u := by
  rcases hprog with ⟨hp, hq⟩ | hrest
  · unfold AtRest
    rw [hp, hq]
    exact h
  · exact hrest

/-- A step while no thread is in a section. -/
theorem related_outside (hg : Guarded low high G impl) (hsame : G.same p.shared q.shared)
    (hrest : ∀ u, AtRest impl p q u) (hrely : G.rely p.shared q.shared p'.shared q'.shared)
    (hprog : ∀ u, (p'.prog u = p.prog u ∧ q'.prog u = q.prog u) ∨ AtRest impl p' q' u) :
    Related low high G impl p' q' :=
  ⟨hg.rely_agree _ _ _ _ (hg.agree_of_same _ _ hsame) hrely,
    Or.inl ⟨hg.rely_same _ _ _ _ hsame hrely, fun u => (hrest u).move (hprog u)⟩⟩

/-- A step of others while thread `t` is in its section. -/
theorem related_inside (hg : Guarded low high G impl) (hagree : G.agree p.shared q.shared)
    (hi : Inside low high G impl t p.shared q.shared (p.prog t) (q.prog t))
    (hrest : ∀ u, u ≠ t → AtRest impl p q u)
    (hrely : G.rely p.shared q.shared p'.shared q'.shared)
    (hprog : ∀ u, (p'.prog u = p.prog u ∧ q'.prog u = q.prog u) ∨ AtRest impl p' q' u)
    (hp : p'.prog t = p.prog t) (hq : q'.prog t = q.prog t)
    (howner : G.owner q'.shared = some t) : Related low high G impl p' q' := by
  refine ⟨hg.rely_agree _ _ _ _ hagree hrely, Or.inr ⟨t, howner, ?_, ?_⟩⟩
  · rw [hp, hq]
    exact hi.stable hg hrely
  · exact fun u hu => (hrest u hu).move (hprog u)

/-- A free operation of thread `t`. -/
theorem Guarded.exec_free (hg : Guarded low high G impl) (hagree : G.agree p.shared q.shared)
    {o : S.Op} {k : S.Resp o → Prog S Ctl} (hfree : ¬ G.guarded o)
    (hp : p.prog t = impl o >>= fun r => (k r).interp impl) {o' : T.Op}
    {k' : T.Resp o' → Prog T Ctl} (hcall : p.prog t = .call o' k') {ch : Ch} {x : T.Resp o'}
    {w : τ} (he : low.exec t p.shared o' ch = some (x, w)) :
    ∃ r v, high.exec t q.shared o ch = some (r, v) ∧ G.rely p.shared q.shared w v ∧
      k' x = (k r).interp impl := by
  obtain ⟨o'', f, himpl, hexec⟩ := hg.free o hfree
  rw [himpl] at hp
  rw [hp] at hcall
  cases hcall
  obtain ⟨v, he', hrely⟩ := hexec t _ _ ch x w hagree he
  exact ⟨_, v, he', hrely, rfl⟩

variable [DecidableEq Tid] {l : Prog T Ctl} {h : Prog S Ctl}

/-- The threads other than `t` are where they were. -/
theorem AtRest.other {u : Tid} (hrest : AtRest impl p q u) (hu : u ≠ t)
    (hl : p'.prog = update p.prog t l) (hh : q'.prog = update q.prog t h) :
    AtRest impl p' q' u := by
  unfold AtRest
  rw [hl, hh, update_of_ne hu, update_of_ne hu]
  exact hrest

/-- Thread `t` goes on to a place at rest. -/
theorem rests_of_update (hl : p'.prog = update p.prog t l) (hh : q'.prog = update q.prog t h)
    (ht : l = h.interp impl) (u : Tid) :
    (p'.prog u = p.prog u ∧ q'.prog u = q.prog u) ∨ AtRest impl p' q' u := by
  by_cases hu : u = t
  · subst hu
    refine Or.inr ?_
    unfold AtRest
    rw [hl, hh, update_self, update_self]
    exact ht
  · rw [hl, hh, update_of_ne hu, update_of_ne hu]
    exact Or.inl ⟨rfl, rfl⟩

/-- One step of the section of thread `t` that has not taken effect. -/
theorem Guarded.step_before (hg : Guarded low high G impl) {o : S.Op} {b : Prog T (S.Resp o)}
    {k : S.Resp o → Prog S Ctl} (hagree : G.agree p.shared q.shared) (hguarded : G.guarded o)
    (howner : G.owner q.shared = some t) (hrest : ∀ u, u ≠ t → AtRest impl p q u)
    (hp : p.prog t = b >>= fun r => (k r).interp impl) (hq : q.prog t = .call o k)
    (h : Before low high G t o b p.shared q.shared) {o' : T.Op} {k' : T.Resp o' → Prog T Ctl}
    (hcall : p.prog t = .call o' k') {ch : Ch} {x : T.Resp o'} {w : τ}
    (he : low.exec t p.shared o' ch = some (x, w)) :
    ∃ q', (q' = q ∨ high.step q (.op t ch) = some q') ∧
      Related low high G impl (p.afterOp t o' k' x w) q' := by
  cases b with
  | ret a => exact h.elim
  | call o'' b =>
    rw [hp] at hcall
    cases hcall
    rcases h _ _ (hg.rely_refl _ _) hagree ch x w he with ⟨hagree', hb⟩ | ⟨r, v, he', hagree', ha⟩
    · refine ⟨q, Or.inl rfl, ?_⟩
      refine related_of_before hagree' hguarded howner ?_ (update_self t _ p.prog) hq hb
      exact fun u hu => (hrest u hu).other hu rfl (update_eq_self t q.prog).symm
    · refine ⟨q.afterOp t o k r v, Or.inr (step_op.2 ⟨o, k, r, v, hq, he', rfl⟩), ?_⟩
      refine related_of_after k hagree' (hg.keeps _ _ _ _ _ _ howner hguarded he') ?_
        (update_self t _ p.prog) (update_self t _ q.prog) ha
      exact fun u hu => (hrest u hu).other hu rfl rfl

/-- One step of the section of thread `t` that has taken effect. -/
theorem Guarded.step_after (hg : Guarded low high G impl) {α : Type} {r : α}
    {k : α → Prog S Ctl} {o' : T.Op} {b : T.Resp o' → Prog T α}
    (hagree : G.agree p.shared q.shared) (howner : G.owner q.shared = some t)
    (hrest : ∀ u, u ≠ t → AtRest impl p q u) (hq : q.prog t = k r)
    (h : After low G t r (.call o' b) p.shared q.shared) {ch : Ch} {x : T.Resp o'} {w : τ}
    (he : low.exec t p.shared o' ch = some (x, w)) :
    Related low high G impl
      (p.afterOp t o' (fun x => b x >>= fun r => (k r).interp impl) x w) q := by
  obtain ⟨hagree', ha⟩ := h _ _ (hg.rely_refl _ _) hagree ch x w he
  refine related_of_after k hagree' howner ?_ (update_self t _ p.prog) hq ha
  exact fun u hu => (hrest u hu).other hu rfl (update_eq_self t q.prog).symm

end Rest

variable [DecidableEq Tid]

/-- An operation below is an operation above, or none. -/
theorem Guarded.step_op (hg : Guarded low high G impl) {p : Pool T Tid Ctl τ}
    {q : Pool S Tid Ctl σ} {t : Tid} {ch : Ch} (hd : Disciplined high G q)
    (h : Related low high G impl p q) {o' : T.Op} {k' : T.Resp o' → Prog T Ctl} {x : T.Resp o'}
    {w : τ} (hcall : p.prog t = .call o' k') (he : low.exec t p.shared o' ch = some (x, w)) :
    ∃ q', (q' = q ∨ high.step q (.op t ch) = some q') ∧
      Related low high G impl (p.afterOp t o' k' x w) q' := by
  obtain ⟨hagree, ⟨hsame, hrest⟩ | ⟨u, howner, hi, hrest⟩⟩ := h
  · -- Nobody is in a section: the thread enters one, or performs a free operation.
    obtain ⟨o, k, hq, hp⟩ := (hrest t).of_call hcall
    by_cases hguarded : G.guarded o
    · obtain ⟨hperforms, howner⟩ := hd.owns t o k hq hguarded
      exact hg.step_before hagree hguarded howner (fun u _ => hrest u) hp hq
        (hg.enter t o _ _ hguarded hperforms hsame) hcall he
    · obtain ⟨r, v, he', hrely, hk⟩ := hg.exec_free hagree hguarded hp hcall he
      refine ⟨q.afterOp t o k r v, Or.inr (Machine.step_op.2 ⟨o, k, r, v, hq, he', rfl⟩), ?_⟩
      exact related_outside hg hsame hrest hrely (rests_of_update rfl rfl hk)
  · by_cases ht : u = t
    · subst ht
      generalize hp : p.prog u = l at hi
      generalize hq : q.prog u = l' at hi
      cases hi with
      | before k ho hb => exact hg.step_before hagree ho howner hrest hp hq hb hcall he
      | after k ha =>
        rw [hp] at hcall
        cases hcall
        exact ⟨q, Or.inl rfl, hg.step_after hagree howner hrest hq ha he⟩
    · -- Another thread is in its section, so the operation is free.
      obtain ⟨o, k, hq, hp⟩ := (hrest t (Ne.symm ht)).of_call hcall
      have hfree : ¬ G.guarded o := fun hguarded =>
        ht (Option.some.inj (howner.symm.trans (hd.owns t o k hq hguarded).2))
      obtain ⟨r, v, he', hrely, hk⟩ := hg.exec_free hagree hfree hp hcall he
      refine ⟨q.afterOp t o k r v, Or.inr (Machine.step_op.2 ⟨o, k, r, v, hq, he', rfl⟩), ?_⟩
      exact related_inside hg hagree hi hrest hrely (rests_of_update rfl rfl hk)
        (update_of_ne ht _ _) (update_of_ne ht _ _)
        (hd.others u t o k ch r v howner (Ne.symm ht) hq he')

/-- Each step below is a step above, or none. -/
theorem Guarded.step (hg : Guarded low high G impl) {p p' : Pool T Tid Ctl τ}
    {q : Pool S Tid Ctl σ} {l : Label Tid Ch Env} (hd : Disciplined high G q)
    (h : Related low high G impl p q) (hs : low.step p l = some p') :
    ∃ q', (q' = q ∨ high.step q l = some q') ∧ Related low high G impl p' q' := by
  cases l with
  | op t ch =>
    obtain ⟨o', k', x, w, hcall, he, rfl⟩ := Machine.step_op.1 hs
    exact hg.step_op hd h hcall he
  | jump t =>
    obtain ⟨c, hret, rfl⟩ := step_jump.1 hs
    obtain ⟨hagree, ⟨hsame, hrest⟩ | ⟨u, howner, hi, hrest⟩⟩ := h
    · have hq := (hrest t).of_ret hg hret
      refine ⟨q.withProg t (high.resume t c), Or.inr (step_jump.2 ⟨c, hq, rfl⟩), ?_⟩
      exact related_outside hg hsame hrest (hg.rely_refl _ _)
        (rests_of_update rfl rfl (hg.resume t c))
    · have ht : u ≠ t := by
        rintro rfl
        rw [hret] at hi
        cases hi
      have hq := (hrest t (Ne.symm ht)).of_ret hg hret
      refine ⟨q.withProg t (high.resume t c), Or.inr (step_jump.2 ⟨c, hq, rfl⟩), ?_⟩
      exact related_inside hg hagree hi hrest (hg.rely_refl _ _)
        (rests_of_update rfl rfl (hg.resume t c)) (update_of_ne ht _ _) (update_of_ne ht _ _) howner
  | env e =>
    obtain ⟨w, start, he, rfl⟩ := step_env.1 hs
    obtain ⟨v, he', hrely⟩ := hg.env e _ _ w start h.1 he
    refine ⟨q.afterEnv v start, Or.inr (step_env.2 ⟨v, start, he', rfl⟩), ?_⟩
    have hprog : ∀ u, ((p.afterEnv w start).prog u = p.prog u ∧
        (q.afterEnv v start).prog u = q.prog u) ∨
        AtRest impl (p.afterEnv w start) (q.afterEnv v start) u := by
      cases start with
      | none => exact fun u => Or.inl ⟨rfl, rfl⟩
      | some x => exact rests_of_update rfl rfl rfl
    obtain ⟨hagree, ⟨hsame, hrest⟩ | ⟨u, howner, hi, hrest⟩⟩ := h
    · exact related_outside hg hsame hrest (by simpa using hrely) hprog
    · obtain ⟨howner', hstart⟩ := hd.env u e v start howner he'
      refine related_inside hg hagree hi hrest (by simpa using hrely) hprog ?_ ?_ ?_
      · cases start with
        | none => rfl
        | some x => exact update_of_ne (fun hu => hstart x.2 (by rw [hu])) _ _
      · cases start with
        | none => rfl
        | some x => exact update_of_ne (fun hu => hstart x.2 (by rw [hu])) _ _
      · simpa using howner'

/-- The rule: a run below is a run above. -/
theorem Guarded.steps (hg : Guarded low high G impl) {s : τ} {s' : σ} {start : Tid → Ctl}
    (hd : ∀ q, (high.toLts s' start).Reaches Lts.Any q → Disciplined high G q)
    {C : Pool T Tid Ctl τ → Label Tid Ch Env → Prop} {p : Pool T Tid Ctl τ}
    (h : (low.toLts s start).Reaches C p) (h0 : G.same s s') :
    ∃ q, (high.toLts s' start).Reaches Lts.Any q ∧ Related low high G impl p q := by
  refine h.invariant (I := fun p => ∃ q, (high.toLts s' start).Reaches Lts.Any q ∧
    Related low high G impl p q) ?_ ?_
  · exact ⟨_, .init, hg.agree_of_same _ _ h0, Or.inl ⟨h0, fun _ => rfl⟩⟩
  · intro p l p' _ hI _ hs
    obtain ⟨q, hq, hr⟩ := hI
    obtain ⟨q', hstep, hr'⟩ := hg.step (hd q hq) hr hs
    refine ⟨q', ?_, hr'⟩
    rcases hstep with rfl | hstep
    · exact hq
    · exact hq.tail trivial hstep

end Machine

end Conc
