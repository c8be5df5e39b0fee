import SimpleChat.Conc.Pool

/-!
# Pools at two levels of atomicity

A lowering replaces every operation of a signature by several operations of a
lower one.  The first has the effect of the operation and decides its response,
and the tail that follows does the rest.  Between two operations of a tail the
other threads may run.

A thread below is in the middle of a tail, or between two operations.
`Simulates.steps` is the rule for such a pair of machines: it is enough to look
at the first operation, at one operation of a tail, and at one step of the
environment.  Each thread has a monitor that reads its tails, and the rule keeps
an invariant of both memories and of the monitor states.
-/

namespace Conc

open Function

/-- How the operations of `S` are performed by operations of `T`. -/
structure Lowering (S T : Sig) extends Prog.Embedding S T where
  tail : (o : S.Op) → T.Resp (op o) → Prog T Unit

namespace Prog

variable {S T : Sig} {α β : Type} (φ : Lowering S T)

/-- The program over `T` that performs the operations of `p` one by one. -/
def lower : Prog S α → Prog T α
  | .ret a => .ret a
  | .call o k => .call (φ.op o) fun r => φ.tail o r >>= fun _ => (k (φ.resp o r)).lower

@[simp] theorem lower_ret (a : α) : (Prog.ret a : Prog S α).lower φ = .ret a := rfl

@[simp] theorem lower_call (o : S.Op) (k : S.Resp o → Prog S α) :
    (Prog.call o k).lower φ =
      .call (φ.op o) fun r => φ.tail o r >>= fun _ => (k (φ.resp o r)).lower φ := rfl

/-! ## Handles of a lowered program -/

variable {φ} {H : Type} {U : Handles S H} {V : Handles T H} {x : H}

theorem Holds.bind_left {p : Prog T α} (h : p.Holds V x) (f : α → Prog T β) :
    (p >>= f).Holds V x := by
  induction h with
  | here huse => exact .here huse
  | later r hg _ ih => exact .later r hg ih

/-- A program is passed on a branch that does not hand the handle out. -/
theorem Holds.bind_right {p : Prog T α} {f : α → Prog T β}
    (hp : p.Only fun o => ∃ r, ¬ V.gives o r x) (hf : ∀ a, (f a).Holds V x) :
    (p >>= f).Holds V x := by
  induction p with
  | ret a => exact hf a
  | call o k ih =>
    have ⟨r, hr⟩ := hp.1
    exact .later r hr (ih r (hp.2 r))

/-- What the program holds above, the lowered program holds below. -/
theorem Holds.lower {p : Prog S α} (h : p.Holds U x)
    (huses : ∀ o, U.uses o x → V.uses (φ.op o) x)
    (hgives : ∀ o r, ¬ U.gives o r x → ∃ r', φ.resp o r' = r ∧ ¬ V.gives (φ.op o) r' x)
    (htail : ∀ o r, (φ.tail o r).Only fun o' => ∃ r', ¬ V.gives o' r' x) :
    (p.lower φ).Holds V x := by
  induction h with
  | here huse => exact .here (huses _ huse)
  | @later o k r hg _ ih =>
    have ⟨r', hr', hg'⟩ := hgives o r hg
    subst hr'
    exact .later r' hg' (.bind_right (htail o r') fun _ => ih)

/-- A program holds a handle that its monitor wants it to use before it
returns. -/
theorem Holds.of_obeys {Q : Type} {M : Monitor T Q} {post : α → Q → Prop} {q : Q} {p : Prog T α}
    {P : Q → Prop} (h : p.Obeys M post q) (hP : P q)
    (hstep : ∀ q o, P q → M.guard q o → V.uses o x ∨
      ∃ r, ¬ V.gives o r x ∧ ∀ q', M.next q o r q' → P q')
    (hpost : ∀ a q, post a q → ¬ P q) : p.Holds V x := by
  induction p generalizing q with
  | ret a => exact absurd hP (hpost a q h)
  | call o k ih =>
    rcases hstep q o hP h.1 with huse | ⟨r, hg, hnext⟩
    · exact .here huse
    · have ⟨q', hq', hk⟩ := h.2 r
      exact .later r hg (ih r hk (hnext q' hq'))

end Prog

namespace Machine

variable {S T : Sig} {Tid Ctl σ τ Ch Env Q : Type} [DecidableEq Tid]

/-- The thread is in a tail that its monitor accepts from the state `a`, after
which it goes on with the lowered program. -/
def InTail (φ : Lowering S T) (M : Prog.Monitor T Q) (idle : Q → Prop) (low : Prog T Ctl)
    (high : Prog S Ctl) (a : Q) : Prop :=
  ∃ tail : Prog T Unit, tail.Obeys M (fun _ q => idle q) a ∧
    low = tail >>= fun _ => high.lower φ

/-- Every thread of the pool below is in a tail of its operation above. -/
def Lowered (φ : Lowering S T) (M : Tid → Prog.Monitor T Q) (idle : Q → Prop)
    (p : Pool T Tid Ctl τ) (q : Pool S Tid Ctl σ) (as : Tid → Q) : Prop :=
  ∀ t, InTail φ (M t) idle (p.prog t) (q.prog t) (as t)

/-- The premises of the rule: the machine `low` simulates `high` under the
condition `C` on its steps, the steps of `high` meet `D`, and `J` relates the
two memories and the monitor states. -/
structure Simulates (low : Machine T Tid Ctl τ Ch Env) (high : Machine S Tid Ctl σ Ch Env)
    (φ : Lowering S T) (M : Tid → Prog.Monitor T Q) (idle : Q → Prop)
    (J : τ → σ → (Tid → Q) → Prop) (C : Pool T Tid Ctl τ → Label Tid Ch Env → Prop)
    (D : Pool S Tid Ctl σ → Label Tid Ch Env → Prop) (H : Pool S Tid Ctl σ → Prop) : Prop where
  resume : ∀ t c, low.resume t c = (high.resume t c).lower φ
  jump : ∀ q t, D q (.jump t)
  /-- The first operation has the effect of the operation above. -/
  op : ∀ (p : Pool T Tid Ctl τ) (q : Pool S Tid Ctl σ) as t ch o k r w, H q → Lowered φ M idle p q as → J p.shared q.shared as →
    C p (.op t ch) → idle (as t) → p.prog t = (Prog.call o k).lower φ → q.prog t = .call o k →
    low.exec t p.shared (φ.op o) ch = some (r, w) →
    D q (.op t ch) ∧ ∃ w' a, high.exec t q.shared o ch = some (φ.resp o r, w') ∧
      (φ.tail o r).Obeys (M t) (fun _ b => idle b) a ∧ J w w' (update as t a)
  /-- An operation of a tail has no effect above. -/
  tail : ∀ s (q : Pool S Tid Ctl σ) as t ch o r w a, H q → J s q.shared as →
    (M t).guard (as t) o → (M t).next (as t) o r a → low.exec t s o ch = some (r, w) →
    J w q.shared (update as t a)
  env : ∀ (p : Pool T Tid Ctl τ) (q : Pool S Tid Ctl σ) as e w start, H q → Lowered φ M idle p q as → J p.shared q.shared as →
    C p (.env e) → low.env e p.shared = some (w, start) →
    D q (.env e) ∧ ∃ w' as', high.env e q.shared = some (w', start) ∧
      (∀ t, (∀ c, start ≠ some (t, c)) → as' t = as t) ∧
      (∀ t c, start = some (t, c) → idle (as' t)) ∧ J w w' as'

variable {low : Machine T Tid Ctl τ Ch Env} {high : Machine S Tid Ctl σ Ch Env}
  {φ : Lowering S T} {M : Tid → Prog.Monitor T Q} {idle : Q → Prop} {J : τ → σ → (Tid → Q) → Prop}
  {C : Pool T Tid Ctl τ → Label Tid Ch Env → Prop}
  {D : Pool S Tid Ctl σ → Label Tid Ch Env → Prop} {H : Pool S Tid Ctl σ → Prop}

/-- A thread that has passed its tail is idle. -/
theorem InTail.of_ret {N : Prog.Monitor T Q} {h : Prog S Ctl} {a : Q} {c : Ctl}
    (ht : InTail φ N idle (.ret c) h a) : idle a ∧ h = .ret c := by
  have ⟨tail, hobeys, heq⟩ := ht
  cases tail with
  | call o k => cases heq
  | ret u =>
    cases h with
    | call o k => cases heq
    | ret c' =>
      cases heq
      exact ⟨hobeys, rfl⟩

theorem inTail_ret {N : Prog.Monitor T Q} {a : Q} (ha : idle a) (h : Prog S Ctl) :
    InTail φ N idle (h.lower φ) h a :=
  ⟨.ret (), ha, rfl⟩

theorem Lowered.update {p : Pool T Tid Ctl τ} {q : Pool S Tid Ctl σ} {as : Tid → Q} {t : Tid}
    {l : Prog T Ctl} {h : Prog S Ctl} {a : Q} {p' : Pool T Tid Ctl τ} {q' : Pool S Tid Ctl σ}
    (hl : Lowered φ M idle p q as) (hp : p'.prog = Function.update p.prog t l)
    (hq : q'.prog = Function.update q.prog t h) (ht : InTail φ (M t) idle l h a) :
    Lowered φ M idle p' q' (Function.update as t a) := by
  intro u
  rw [hp, hq]
  by_cases hu : u = t
  · subst hu
    simpa using ht
  · simpa [hu] using hl u

/-- Each step below is a step above, or an operation of a tail. -/
theorem Simulates.step (hsim : Simulates low high φ M idle J C D H) {p p' : Pool T Tid Ctl τ}
    {q : Pool S Tid Ctl σ} {as : Tid → Q} {l : Label Tid Ch Env} (hH : H q)
    (hl : Lowered φ M idle p q as) (hJ : J p.shared q.shared as) (hC : C p l)
    (hs : low.step p l = some p') :
    ∃ q' as', (q' = q ∨ D q l ∧ high.step q l = some q') ∧ Lowered φ M idle p' q' as' ∧
      J p'.shared q'.shared as' := by
  cases l with
  | op t ch =>
    have ⟨o', k', r, w, hprog, he, hp'⟩ := step_op.1 hs
    subst hp'
    have ⟨tail, hobeys, heq⟩ := hl t
    rw [hprog] at heq
    cases tail with
    | call o k =>
      cases heq
      have ⟨a, hnext, hk⟩ := hobeys.2 r
      refine ⟨q, update as t a, Or.inl rfl, ?_, hsim.tail _ q as t ch o' r w a hH hJ hobeys.1 hnext he⟩
      exact hl.update rfl (update_eq_self t q.prog).symm ⟨k r, hk, rfl⟩
    | ret u =>
      -- The thread is between two operations.
      cases hq : q.prog t with
      | ret c =>
        rw [hq] at heq
        cases heq
      | call o k =>
        rw [hq] at heq
        cases heq
        have ⟨hD, w', a, he', htail, hJ'⟩ := hsim.op p q as t ch o k r w hH hl hJ hC hobeys hprog hq he
        exact ⟨q.afterOp t o k (φ.resp o r) w', update as t a,
          Or.inr ⟨hD, step_op.2 ⟨o, k, _, w', hq, he', rfl⟩⟩,
          hl.update rfl rfl ⟨φ.tail o r, htail, rfl⟩, hJ'⟩
  | jump t =>
    have ⟨c, hprog, hp'⟩ := step_jump.1 hs
    subst hp'
    have ht := hl t
    rw [hprog] at ht
    have ⟨hidle, hq⟩ := ht.of_ret
    refine ⟨q.withProg t (high.resume t c), as,
      Or.inr ⟨hsim.jump q t, step_jump.2 ⟨c, hq, rfl⟩⟩, ?_, hJ⟩
    rw [← update_eq_self t as]
    refine hl.update rfl rfl ?_
    rw [hsim.resume]
    exact inTail_ret hidle _
  | env e =>
    have ⟨w, start, he, hp'⟩ := step_env.1 hs
    subst hp'
    have ⟨hD, w', as', he', hsame, hstart, hJ'⟩ := hsim.env p q as e w start hH hl hJ hC he
    refine ⟨q.afterEnv w' start, as', Or.inr ⟨hD, step_env.2 ⟨w', start, he', rfl⟩⟩, fun u => ?_, ?_⟩
    · rcases start with _ | ⟨t, c⟩
      · rw [hsame u (by simp)]
        exact hl u
      · rw [Pool.afterEnv_some_prog, Pool.afterEnv_some_prog]
        by_cases hu : u = t
        · subst hu
          rw [update_self, update_self]
          exact inTail_ret (hstart u c rfl) (.ret c)
        · rw [update_of_ne hu, update_of_ne hu, hsame u]
          · exact hl u
          · intro c' heq
            rw [Option.some.injEq, Prod.mk.injEq] at heq
            exact hu heq.1.symm
    · rw [Pool.afterEnv_shared, Pool.afterEnv_shared]
      exact hJ'

/-- The simulation rule: a run below stays related to a run above. -/
theorem Simulates.steps {s : τ} {s' : σ} {start : Tid → Ctl} {as : Tid → Q}
    (hsim : Simulates low high φ M idle J C D fun q => (high.toLts s' start).Reaches D q)
    {p : Pool T Tid Ctl τ} (h : (low.toLts s start).Reaches C p) (hidle : ∀ t, idle (as t))
    (h0 : J s s' as) :
    ∃ q as', (high.toLts s' start).Reaches D q ∧ Lowered φ M idle p q as' ∧
      J p.shared q.shared as' := by
  refine h.invariant (I := fun p => ∃ q as', (high.toLts s' start).Reaches D q ∧
    Lowered φ M idle p q as' ∧ J p.shared q.shared as') ?_ ?_
  · exact ⟨_, as, .init, fun t => inTail_ret (hidle t) (.ret (start t)), h0⟩
  · intro p l p' _ ⟨q, as, hq, hl, hJ⟩ hC hs
    have ⟨q', as', hstep, hl', hJ'⟩ := hsim.step hq hl hJ hC hs
    refine ⟨q', as', ?_, hl', hJ'⟩
    rcases hstep with heq | ⟨hD, hstep⟩
    · rw [heq]
      exact hq
    · exact hq.tail hD hstep

end Machine

end Conc
