import SimpleChat.Conc.Pool

/-!
# Pools a turn at a time

A turn of a thread is everything that it does from one control point to the
next.  `Machine.toTurns` is the transition system in which a thread does this in
one step, so that nobody else interferes.  Its runs are runs of the machine
(`Reaches.fine`), and between two of its steps every thread is at a control
point (`atControl`).

`Runs` is the meaning of one turn: the operations that a program performs alone,
the memory that they leave, and the value that the program ends with.  The
inversion lemmas take a turn apart along its program.
-/

namespace Conc

open Function

/-- What happens next: a thread takes a turn with the given choices, or the
environment acts. -/
inductive TurnLabel (Tid Ch Env : Type) where
  | turn (t : Tid) (chs : List Ch)
  | env (e : Env)

namespace Machine

variable {S : Sig} {Tid Ctl σ Ch Env : Type}

/-! ## One program alone -/

/-- Thread `t` runs the program alone from the first memory: it performs the
operations, ends with the value, and leaves the second memory. -/
inductive Runs (m : Machine S Tid Ctl σ Ch Env) (t : Tid) {α : Type} :
    Prog S α → σ → List (Prog.Act S) → α → σ → Prop
  | ret (a : α) (s : σ) : Runs m t (.ret a) s [] a s
  | call {o : S.Op} {k : S.Resp o → Prog S α} {s s' s'' : σ} {r : S.Resp o}
      {l : List (Prog.Act S)} {a : α} (ch : Ch) (he : m.exec t s o ch = some (r, s'))
      (hk : Runs m t (k r) s' l a s'') : Runs m t (.call o k) s (⟨o, r⟩ :: l) a s''

/-- The operations, the value and the memory, if the program ends just with the
last choice. -/
def runAlone (m : Machine S Tid Ctl σ Ch Env) (t : Tid) {α : Type} :
    List Ch → Prog S α → σ → Option (List (Prog.Act S) × α × σ)
  | [], .ret a, s => some ([], a, s)
  | ch :: chs, .call o k, s =>
    (m.exec t s o ch).bind fun x =>
      (m.runAlone t chs (k x.1) x.2).map fun y => (⟨o, x.1⟩ :: y.1, y.2)
  | _, _, _ => none

section Runs

variable {m : Machine S Tid Ctl σ Ch Env} {t : Tid} {α β : Type} {s s' : σ}
  {l : List (Prog.Act S)}

theorem runAlone_runs {chs : List Ch} {p : Prog S α} {a : α}
    (h : m.runAlone t chs p s = some (l, a, s')) : m.Runs t p s l a s' := by
  induction chs generalizing p s l with
  | nil =>
    cases p with
    | ret b =>
      cases h
      exact .ret _ _
    | call o k => cases h
  | cons ch chs ih =>
    cases p with
    | ret b => cases h
    | call o k =>
      rw [runAlone, Option.bind_eq_some_iff] at h
      have ⟨x, hx, hrest⟩ := h
      have ⟨⟨l', b, t'⟩, hy, heq⟩ := Option.map_eq_some_iff.1 hrest
      cases heq
      exact .call ch hx (ih hy)

/-- A program that has returned does nothing. -/
theorem Runs.of_ret {a b : α} (h : m.Runs t (.ret a) s l b s') : l = [] ∧ b = a ∧ s' = s := by
  cases h
  exact ⟨rfl, rfl, rfl⟩

/-- A program performs its first operation first. -/
theorem Runs.of_call {o : S.Op} {k : S.Resp o → Prog S α} {a : α}
    (h : m.Runs t (.call o k) s l a s') :
    ∃ ch r s₁ l', m.exec t s o ch = some (r, s₁) ∧ l = ⟨o, r⟩ :: l' ∧ m.Runs t (k r) s₁ l' a s' := by
  cases h with
  | call ch he hk => exact ⟨ch, _, _, _, he, rfl, hk⟩

/-- A sequence runs its first part and then its second. -/
theorem Runs.of_bind {p : Prog S α} {f : α → Prog S β} {b : β} (h : m.Runs t (p >>= f) s l b s') :
    ∃ a s₁ l₁ l₂, l = l₁ ++ l₂ ∧ m.Runs t p s l₁ a s₁ ∧ m.Runs t (f a) s₁ l₂ b s' := by
  induction p generalizing s l with
  | ret a => exact ⟨a, s, [], l, rfl, .ret a s, h⟩
  | call o k ih =>
    rw [Prog.call_bind] at h
    have ⟨ch, r, s₁, l', he, hl, hk⟩ := h.of_call
    have ⟨a, s₂, l₁, l₂, hl', hp, hf⟩ := ih r hk
    exact ⟨a, s₂, ⟨o, r⟩ :: l₁, l₂, by rw [hl, hl', List.cons_append], .call ch he hp, hf⟩

/-- What a monitor says of a program, and what each operation that it allows
preserves, holds at the end of a run. -/
theorem Runs.obeys {Q : Type} {M : Prog.Monitor S Q} {post : α → Q → Prop} {R : Q → σ → Prop}
    (hstep : ∀ q s o ch r s' q', R q s → M.guard q o → m.exec t s o ch = some (r, s') →
      M.next q o r q' → R q' s')
    {p : Prog S α} {q : Q} {a : α} (h : m.Runs t p s l a s') (hp : p.Obeys M post q) (hR : R q s) :
    ∃ q', post a q' ∧ R q' s' := by
  induction h generalizing q with
  | ret a s => exact ⟨q, hp, hR⟩
  | @call o k s s₁ s' r l a ch he _ ih =>
    have ⟨q', hnext, hk⟩ := hp.2 r
    exact ih hk (hstep q s o ch r s₁ q' hR hp.1 he hnext)

/-- The operations of a program are those that it may perform. -/
theorem Runs.only {P : S.Op → Prop} {p : Prog S α} {a : α} (h : m.Runs t p s l a s')
    (hp : p.Only P) : ∀ x ∈ l, P x.1 := by
  induction h with
  | ret a s => exact fun x hx => (nomatch hx)
  | call ch he hk ih =>
    intro x hx
    rcases List.mem_cons.1 hx with heq | hx
    · rw [heq]
      exact hp.1
    · exact ih (hp.2 _) x hx

end Runs

/-! ## The transition system -/

variable [DecidableEq Tid]

/-- Thread `t` performs one operation after the other until it returns. -/
def finishTurn (m : Machine S Tid Ctl σ Ch Env) (t : Tid) : List Ch → Pool S Tid Ctl σ → Option (Pool S Tid Ctl σ)
  | [], p => if (p.prog t).returned.isSome then some p else none
  | ch :: chs, p => (m.step p (.op t ch)).bind (m.finishTurn t chs)

def turnStep (m : Machine S Tid Ctl σ Ch Env) (p : Pool S Tid Ctl σ) : TurnLabel Tid Ch Env → Option (Pool S Tid Ctl σ)
  | .turn t chs => (m.step p (.jump t)).bind (m.finishTurn t chs)
  | .env e => m.step p (.env e)

/-- The transition system of a machine whose threads take their turns in one
step. -/
def toTurns (m : Machine S Tid Ctl σ Ch Env) (s : σ) (start : Tid → Ctl) :
    Lts (Pool S Tid Ctl σ) (TurnLabel Tid Ch Env) where
  init := ⟨s, fun t => .ret (start t), []⟩
  step := m.turnStep

variable {m : Machine S Tid Ctl σ Ch Env} {p p' : Pool S Tid Ctl σ} {s : σ} {start : Tid → Ctl}

/-- A turn that a thread finishes is a run of what is left of its program. -/
theorem finishTurn_runs {t : Tid} {chs : List Ch} (h : m.finishTurn t chs p = some p') :
    ∃ l c, m.Runs t (p.prog t) p.shared l c p'.shared ∧
      p'.prog = update p.prog t (.ret c) ∧ p'.log = p.log ++ l.map fun a => ⟨t, a.1, a.2⟩ := by
  induction chs generalizing p with
  | nil =>
    rw [finishTurn] at h
    split at h
    · rename_i hret
      cases h
      have ⟨c, hc⟩ := Option.isSome_iff_exists.1 hret
      rw [Prog.returned_eq_some] at hc
      refine ⟨[], c, ?_, ?_, (List.append_nil _).symm⟩
      · rw [hc]
        exact .ret c _
      · rw [← hc, update_eq_self]
    · cases h
  | cons ch chs ih =>
    rw [finishTurn, Option.bind_eq_some_iff] at h
    have ⟨q, hq, hrest⟩ := h
    have ⟨o, k, r, s₁, hprog, he, heq⟩ := step_op.1 hq
    have ⟨l, c, hruns, hp', hlog⟩ := ih hrest
    rw [heq, Pool.afterOp_prog, update_self] at hruns
    refine ⟨⟨o, r⟩ :: l, c, ?_, ?_, ?_⟩
    · rw [hprog]
      exact .call ch he hruns
    · rw [hp', heq, Pool.afterOp_prog, update_idem]
    · rw [hlog, heq, Pool.afterOp_log, List.append_assoc]
      rfl

/-- Everything a turn can do. -/
theorem turnStep_turn {t : Tid} {chs : List Ch} (h : m.turnStep p (.turn t chs) = some p') :
    ∃ c l c', p.prog t = .ret c ∧ m.Runs t (m.resume t c) p.shared l c' p'.shared ∧
      p'.prog = update p.prog t (.ret c') ∧ p'.log = p.log ++ l.map fun a => ⟨t, a.1, a.2⟩ := by
  rw [turnStep, Option.bind_eq_some_iff] at h
  have ⟨q, hq, hrest⟩ := h
  have ⟨c, hc, heq⟩ := step_jump.1 hq
  have ⟨l, c', hruns, hp', hlog⟩ := finishTurn_runs hrest
  rw [heq, Pool.withProg_prog, update_self] at hruns
  refine ⟨c, l, c', hc, hruns, ?_, ?_⟩
  · rw [hp', heq, Pool.withProg_prog, update_idem]
  · rw [hlog, heq]
    rfl

theorem finishTurn_steps {t : Tid} {chs : List Ch} (h : m.finishTurn t chs p = some p') :
    (m.toLts s start).Steps Lts.Any p p' := by
  induction chs generalizing p with
  | nil =>
    rw [finishTurn] at h
    split at h
    · cases h
      exact .refl _
    · cases h
  | cons ch chs ih =>
    rw [finishTurn, Option.bind_eq_some_iff] at h
    have ⟨q, hq, hrest⟩ := h
    have hop : (m.toLts s start).step p (.op t ch) = some q := hq
    exact (Lts.Steps.single trivial hop).trans (ih hrest)

/-- A step of this system is a run of the machine. -/
theorem turnStep_steps {l : TurnLabel Tid Ch Env} (h : m.turnStep p l = some p') :
    (m.toLts s start).Steps Lts.Any p p' := by
  cases l with
  | turn t chs =>
    rw [turnStep, Option.bind_eq_some_iff] at h
    have ⟨q, hq, hrest⟩ := h
    have hjump : (m.toLts s start).step p (.jump t) = some q := hq
    exact (Lts.Steps.single trivial hjump).trans (finishTurn_steps hrest)
  | env e =>
    have henv : (m.toLts s start).step p (.env e) = some p' := h
    exact .single trivial henv

variable {C : Pool S Tid Ctl σ → TurnLabel Tid Ch Env → Prop}

theorem steps_of_turns (h : (m.toTurns s start).Steps C p p') :
    (m.toLts s start).Steps Lts.Any p p' := by
  induction h with
  | refl => exact .refl _
  | tail _ _ hs ih => exact ih.trans (turnStep_steps hs)

/-- A state that is reached a turn at a time is reached. -/
theorem reaches_of_turns (h : (m.toTurns s start).Reaches C p) :
    (m.toLts s start).Reaches Lts.Any p := steps_of_turns h

/-- Between two turns every thread is at a control point. -/
theorem atControl (h : (m.toTurns s start).Reaches C p) (t : Tid) : ∃ c, p.prog t = .ret c := by
  refine h.invariant (I := fun p => ∀ t, ∃ c, p.prog t = .ret c) (fun t => ⟨start t, rfl⟩) ?_ t
  intro p l p' _ hI _ hs u
  cases l with
  | turn t chs =>
    have ⟨_, _, c', _, _, hprog, _⟩ := turnStep_turn hs
    rw [hprog]
    by_cases hu : u = t
    · subst hu
      exact ⟨c', update_self _ _ _⟩
    · rw [update_of_ne hu]
      exact hI u
  | env e =>
    have ⟨w, st, _, hp'⟩ := step_env.1 hs
    subst hp'
    rcases st with _ | ⟨t, c⟩
    · exact hI u
    · rw [Pool.afterEnv_some_prog]
      by_cases hu : u = t
      · subst hu
        exact ⟨c, update_self _ _ _⟩
      · rw [update_of_ne hu]
        exact hI u

end Machine

end Conc
