import Mathlib.Logic.Function.Basic
import Mathlib.Tactic.SplitIfs
import SimpleChat.Conc.Prog
import SimpleChat.Conc.Lts

/-!
# Pools of threads

A machine interprets the operations of a signature on a shared memory and says
which program a thread runs from each of its control points.  A pool is the
memory, the program that is left of every thread, and the history of the
operations performed so far.  One step of a pool is one operation of one
thread, a thread that passes a control point, or a step of the environment,
which may start a thread.

`Steps.monitor` is the rule that the invariant proofs use.  Every thread is
given a monitor that its programs obey; what has to be shown is that each
operation that the monitor allows keeps the invariant.
-/

namespace Conc

open Function

/-- How threads `Tid` with control points `Ctl` run over the memory `σ`.  A
choice `Ch` settles what the operation leaves open. -/
structure Machine (S : Sig) (Tid Ctl σ Ch Env : Type) where
  exec : Tid → σ → (o : S.Op) → Ch → Option (S.Resp o × σ)
  resume : Tid → Ctl → Prog S Ctl
  env : Env → σ → Option (σ × Option (Tid × Ctl))

/-- An operation that a thread performed, with its response. -/
structure Event (S : Sig) (Tid : Type) where
  tid : Tid
  op : S.Op
  resp : S.Resp op

/-- The memory, what is left of each thread, and the history, oldest first. -/
structure Pool (S : Sig) (Tid Ctl σ : Type) where
  shared : σ
  prog : Tid → Prog S Ctl
  log : List (Event S Tid)

/-- What happens next. -/
inductive Label (Tid Ch Env : Type) where
  | op (t : Tid) (ch : Ch)
  | jump (t : Tid)
  | env (e : Env)

namespace Pool

variable {S : Sig} {Tid Ctl σ : Type} [DecidableEq Tid]

/-- The pool after thread `t` performed `o`. -/
def afterOp (p : Pool S Tid Ctl σ) (t : Tid) (o : S.Op) (k : S.Resp o → Prog S Ctl)
    (r : S.Resp o) (s : σ) : Pool S Tid Ctl σ where
  shared := s
  prog := update p.prog t (k r)
  log := p.log ++ [⟨t, o, r⟩]

/-- The pool after thread `t` went on with the program `q`. -/
def withProg (p : Pool S Tid Ctl σ) (t : Tid) (q : Prog S Ctl) : Pool S Tid Ctl σ :=
  { p with prog := update p.prog t q }

/-- The pool after an environment step, which may start a thread. -/
def afterEnv (p : Pool S Tid Ctl σ) (s : σ) (start : Option (Tid × Ctl)) :
    Pool S Tid Ctl σ :=
  match start with
  | none => { p with shared := s }
  | some (t, c) => { p with shared := s, prog := update p.prog t (.ret c) }

/-- The next operation of a thread. -/
def next (p : Pool S Tid Ctl σ) (t : Tid) : Option S.Op :=
  match p.prog t with
  | .ret _ => none
  | .call o _ => some o

omit [DecidableEq Tid] in
theorem next_of_call {p : Pool S Tid Ctl σ} {t : Tid} {o : S.Op} {k : S.Resp o → Prog S Ctl}
    (h : p.prog t = .call o k) : p.next t = some o := by
  rw [next, h]

omit [DecidableEq Tid] in
theorem call_of_next {p : Pool S Tid Ctl σ} {t : Tid} {o : S.Op} (h : p.next t = some o) :
    ∃ k, p.prog t = .call o k := by
  rw [next] at h
  split at h
  · cases h
  · rename_i k hk
    cases h
    exact ⟨k, hk⟩

section Simp

variable (p : Pool S Tid Ctl σ) (t : Tid) (o : S.Op) (k : S.Resp o → Prog S Ctl)
  (r : S.Resp o) (s : σ) (q : Prog S Ctl) (start : Option (Tid × Ctl))

@[simp] theorem afterOp_shared : (p.afterOp t o k r s).shared = s := rfl

@[simp] theorem afterOp_prog : (p.afterOp t o k r s).prog = update p.prog t (k r) := rfl

@[simp] theorem afterOp_log : (p.afterOp t o k r s).log = p.log ++ [⟨t, o, r⟩] := rfl

@[simp] theorem withProg_shared : (p.withProg t q).shared = p.shared := rfl

@[simp] theorem withProg_prog : (p.withProg t q).prog = update p.prog t q := rfl

@[simp] theorem withProg_log : (p.withProg t q).log = p.log := rfl

@[simp] theorem afterEnv_shared : (p.afterEnv s start).shared = s := by
  cases start <;> rfl

@[simp] theorem afterEnv_log : (p.afterEnv s start).log = p.log := by
  cases start <;> rfl

@[simp] theorem afterEnv_none_prog : (p.afterEnv s none).prog = p.prog := rfl

@[simp] theorem afterEnv_some_prog (c : Ctl) :
    (p.afterEnv s (some (t, c))).prog = update p.prog t (.ret c) := rfl

end Simp

end Pool

namespace Machine

variable {S : Sig} {Tid Ctl σ Ch Env : Type} [DecidableEq Tid]
  (m : Machine S Tid Ctl σ Ch Env)

/-- One step of a pool. -/
def step (p : Pool S Tid Ctl σ) : Label Tid Ch Env → Option (Pool S Tid Ctl σ)
  | .op t ch =>
    match p.prog t with
    | .ret _ => none
    | .call o k => (m.exec t p.shared o ch).map fun x => p.afterOp t o k x.1 x.2
  | .jump t =>
    match p.prog t with
    | .ret c => some (p.withProg t (m.resume t c))
    | .call _ _ => none
  | .env e => (m.env e p.shared).map fun x => p.afterEnv x.1 x.2

/-- The transition system of a machine whose threads start at the control
points `start`. -/
def toLts (s : σ) (start : Tid → Ctl) : Lts (Pool S Tid Ctl σ) (Label Tid Ch Env) where
  init := ⟨s, fun t => .ret (start t), []⟩
  step := m.step

variable {m} {p p' : Pool S Tid Ctl σ}

/-- Everything an operation of a thread can do. -/
theorem step_op {t : Tid} {ch : Ch} :
    m.step p (.op t ch) = some p' ↔
      ∃ o k r s, p.prog t = .call o k ∧ m.exec t p.shared o ch = some (r, s) ∧
        p' = p.afterOp t o k r s := by
  constructor
  · intro h
    rw [step] at h
    split at h
    · cases h
    · rename_i o k hk
      rw [Option.map_eq_some_iff] at h
      obtain ⟨⟨r, s⟩, he, rfl⟩ := h
      exact ⟨o, k, r, s, hk, he, rfl⟩
  · rintro ⟨o, k, r, s, hk, he, rfl⟩
    simp [step, hk, he]

theorem step_jump {t : Tid} :
    m.step p (.jump t) = some p' ↔
      ∃ c, p.prog t = .ret c ∧ p' = p.withProg t (m.resume t c) := by
  constructor
  · intro h
    rw [step] at h
    split at h
    · rename_i c hc
      exact ⟨c, hc, (Option.some.inj h).symm⟩
    · cases h
  · rintro ⟨c, hc, rfl⟩
    simp [step, hc]

theorem step_env {e : Env} :
    m.step p (.env e) = some p' ↔
      ∃ s start, m.env e p.shared = some (s, start) ∧ p' = p.afterEnv s start := by
  rw [step, Option.map_eq_some_iff]
  constructor
  · rintro ⟨⟨s, start⟩, he, rfl⟩
    exact ⟨s, start, he, rfl⟩
  · rintro ⟨s, start, he, rfl⟩
    exact ⟨(s, start), he, rfl⟩

/-- The operations of one thread in a history. -/
def ownActs (t : Tid) (log : List (Event S Tid)) : List (Prog.Act S) :=
  log.filterMap fun e => if e.tid = t then some ⟨e.op, e.resp⟩ else none

@[simp] theorem ownActs_nil (t : Tid) : ownActs t ([] : List (Event S Tid)) = [] := rfl

@[simp] theorem ownActs_append (t : Tid) (L R : List (Event S Tid)) :
    ownActs t (L ++ R) = ownActs t L ++ ownActs t R := List.filterMap_append

theorem ownActs_cons (t : Tid) (e : Event S Tid) (log : List (Event S Tid)) :
    ownActs t (e :: log) = if e.tid = t then ⟨e.op, e.resp⟩ :: ownActs t log else ownActs t log := by
  rw [ownActs, List.filterMap_cons]
  split <;> split_ifs at * <;> simp_all [ownActs]

/-- The first operation of a thread in a history. -/
theorem ownActs_eq_cons {t : Tid} {log : List (Event S Tid)} {o : S.Op} {r : S.Resp o}
    {l : List (Prog.Act S)} (h : ownActs t log = ⟨o, r⟩ :: l) :
    ∃ A B, log = A ++ ⟨t, o, r⟩ :: B ∧ ownActs t A = [] ∧ ownActs t B = l := by
  induction log with
  | nil => cases h
  | cons e log ih =>
    rw [ownActs_cons] at h
    split at h
    · rename_i ht
      obtain ⟨u, o', r'⟩ := e
      cases h
      cases ht
      exact ⟨[], log, rfl, rfl, rfl⟩
    · rename_i ht
      obtain ⟨A, B, rfl, hA, hB⟩ := ih h
      exact ⟨e :: A, B, rfl, by rw [ownActs_cons, if_neg ht, hA], hB⟩

/-- A history splits where the operations of a thread do. -/
theorem ownActs_eq_append {t : Tid} {log : List (Event S Tid)} {l l' : List (Prog.Act S)}
    (h : ownActs t log = l ++ l') :
    ∃ A B, log = A ++ B ∧ ownActs t A = l ∧ ownActs t B = l' := by
  induction l generalizing log with
  | nil => exact ⟨[], log, rfl, rfl, h⟩
  | cons x l ih =>
    obtain ⟨A, B, rfl, hA, hB⟩ := ownActs_eq_cons h
    obtain ⟨A', B', rfl, hA', hB'⟩ := ih hB
    refine ⟨A ++ ⟨t, x.1, x.2⟩ :: A', B', by rw [List.append_assoc, List.cons_append], ?_, hB'⟩
    rw [ownActs_append, hA, ownActs_cons, if_pos rfl, hA', List.nil_append]

theorem mem_ownActs {t : Tid} {log : List (Event S Tid)} {o : S.Op} {r : S.Resp o}
    (h : (⟨t, o, r⟩ : Event S Tid) ∈ log) : (⟨o, r⟩ : Prog.Act S) ∈ ownActs t log :=
  List.mem_filterMap.2 ⟨_, h, if_pos rfl⟩

/-- While a thread passes no control point and is not started anew, the
operations of its program are its events in the history. -/
theorem trace_of_steps {s : σ} {start : Tid → Ctl}
    {C : Pool S Tid Ctl σ → Label Tid Ch Env → Prop} {t : Tid}
    (h : (m.toLts s start).Steps C p p') (hjump : ∀ q, ¬ C q (.jump t))
    (hstart : ∀ q e s' c, C q (.env e) → m.env e q.shared ≠ some (s', some (t, c))) :
    ∃ R, p'.log = p.log ++ R ∧ (p.prog t).Trace (ownActs t R) (p'.prog t) := by
  induction h with
  | refl => exact ⟨[], (List.append_nil _).symm, .nil _⟩
  | @tail q q' l hr hC hs ih =>
    obtain ⟨R, hlog, htrace⟩ := ih
    cases l with
    | op u ch =>
      obtain ⟨o, k, r, s', hprog, -, rfl⟩ := step_op.1 hs
      refine ⟨R ++ [⟨u, o, r⟩], by rw [Pool.afterOp_log, hlog, List.append_assoc], ?_⟩
      rw [ownActs_append, ownActs_cons, Pool.afterOp_prog]
      by_cases hu : u = t
      · subst hu
        rw [if_pos rfl, update_self]
        rw [hprog] at htrace
        exact htrace.append (.cons (.nil _))
      · rw [if_neg hu, update_of_ne (Ne.symm hu)]
        exact htrace.append (.nil _)
    | jump u =>
      obtain ⟨c, -, rfl⟩ := step_jump.1 hs
      have hu : t ≠ u := by
        rintro rfl
        exact hjump _ hC
      exact ⟨R, hlog, by rwa [Pool.withProg_prog, update_of_ne hu]⟩
    | env e =>
      obtain ⟨s', start', he, rfl⟩ := step_env.1 hs
      refine ⟨R, by rw [Pool.afterEnv_log, hlog], ?_⟩
      rcases start' with _ | ⟨u, c⟩
      · exact htrace
      · have hu : t ≠ u := by
          rintro rfl
          exact hstart _ _ _ _ hC he
        rwa [Pool.afterEnv_some_prog, update_of_ne hu]

/-- An event of the history goes back to the step that performed it. -/
theorem log_split {s : σ} {start : Tid → Ctl} {C : Pool S Tid Ctl σ → Label Tid Ch Env → Prop}
    {L R : List (Event S Tid)} {e : Event S Tid} (h : (m.toLts s start).Reaches C p)
    (hlog : p.log = L ++ e :: R) :
    ∃ q k ch s', (m.toLts s start).Reaches C q ∧ q.log = L ∧ C q (.op e.tid ch) ∧
      q.prog e.tid = .call e.op k ∧ m.exec e.tid q.shared e.op ch = some (e.resp, s') ∧
      (m.toLts s start).Steps C (q.afterOp e.tid e.op k e.resp s') p := by
  induction h generalizing R with
  | refl =>
    have hnil : ([] : List (Event S Tid)) = L ++ e :: R := hlog
    simp at hnil
  | @tail t' t'' l hr hC hs ih =>
    have hold : ∀ R', t'.log = L ++ e :: R' →
        ∃ q k ch s', (m.toLts s start).Reaches C q ∧ q.log = L ∧ C q (.op e.tid ch) ∧
          q.prog e.tid = .call e.op k ∧ m.exec e.tid q.shared e.op ch = some (e.resp, s') ∧
          (m.toLts s start).Steps C (q.afterOp e.tid e.op k e.resp s') t'' := by
      intro R' hR'
      obtain ⟨q, k, ch, s', h1, h2, h3, h4, h5, h6⟩ := ih hR'
      exact ⟨q, k, ch, s', h1, h2, h3, h4, h5, .tail h6 hC hs⟩
    cases l with
    | op u ch =>
      obtain ⟨o, k, r, s', hprog, hexec, rfl⟩ := step_op.1 hs
      rw [Pool.afterOp_log] at hlog
      rcases List.eq_nil_or_concat R with rfl | ⟨R', e', rfl⟩
      · -- The event is the one that this step performed.
        obtain ⟨rfl, he⟩ := List.append_inj' hlog rfl
        obtain rfl := List.singleton_inj.1 he
        exact ⟨t', k, ch, s', hr, rfl, hC, hprog, hexec, .refl _⟩
      · rw [List.concat_eq_append, ← List.cons_append, ← List.append_assoc] at hlog
        exact hold R' (List.append_inj' hlog rfl).1
    | jump u =>
      obtain ⟨c, -, rfl⟩ := step_jump.1 hs
      exact hold R hlog
    | env e' =>
      obtain ⟨s', start', -, rfl⟩ := step_env.1 hs
      rw [Pool.afterEnv_log] at hlog
      exact hold R hlog

/-- The operations `l`, performed one after the other by thread `t` alone. -/
inductive Execs (m : Machine S Tid Ctl σ Ch Env) (t : Tid) : σ → List (Prog.Act S) → σ → Prop
  | nil (s : σ) : Execs m t s [] s
  | cons {s s' s'' : σ} {o : S.Op} {r : S.Resp o} {l : List (Prog.Act S)} (ch : Ch)
      (h : m.exec t s o ch = some (r, s')) (hl : Execs m t s' l s'') :
      Execs m t s (⟨o, r⟩ :: l) s''

omit [DecidableEq Tid] in
theorem Execs.append {t : Tid} {s s' s'' : σ} {l l' : List (Prog.Act S)} (h : Execs m t s l s')
    (h' : Execs m t s' l' s'') : Execs m t s (l ++ l') s'' := by
  induction h with
  | nil => exact h'
  | cons ch h _ ih => exact .cons ch h (ih h')

/-- A thread may perform the operations of its program without being
interrupted. -/
theorem steps_of_execs {s : σ} {start : Tid → Ctl} {t : Tid} {q q' : Prog S Ctl}
    {l : List (Prog.Act S)} {s' : σ} (htrace : q.Trace l q') (hq : p.prog t = q)
    (hexecs : Execs m t p.shared l s') :
    ∃ p', (m.toLts s start).Steps Lts.Any p p' ∧ p'.prog t = q' ∧ p'.shared = s' ∧
      p'.log = p.log ++ l.map fun a => ⟨t, a.1, a.2⟩ := by
  induction htrace generalizing p with
  | nil q =>
    cases hexecs
    exact ⟨p, .refl p, hq, rfl, (List.append_nil _).symm⟩
  | @cons o k r l q' _ ih =>
    cases hexecs with
    | cons ch h hl =>
      have hstep : (m.toLts s start).step p (.op t ch) = some (p.afterOp t o k r _) :=
        step_op.2 ⟨o, k, r, _, hq, h, rfl⟩
      have ⟨p', hsteps, hprog, hshared, hlog⟩ := ih (p := p.afterOp t o k r _)
        (update_self _ _ _) hl
      refine ⟨p', (Lts.Steps.single trivial hstep).trans hsteps, hprog, hshared, ?_⟩
      rw [hlog, Pool.afterOp_log, List.append_assoc]
      rfl

/-! ## The invariant rule for pools -/

section Monitor

variable {Q : Type} {M : Tid → Prog.Monitor S Q} {post : Tid → Ctl → Q → Prop}
  {J : Pool S Tid Ctl σ → (Tid → Q) → Prop}
  {C : Pool S Tid Ctl σ → Label Tid Ch Env → Prop}

/-- The pool `p` with monitor states `qs`: what is left of every thread obeys
its monitor, and the invariant holds. -/
def Monitored (M : Tid → Prog.Monitor S Q) (post : Tid → Ctl → Q → Prop)
    (J : Pool S Tid Ctl σ → (Tid → Q) → Prop) (p : Pool S Tid Ctl σ) (qs : Tid → Q) : Prop :=
  (∀ t, (p.prog t).Obeys (M t) (post t) (qs t)) ∧ J p qs

/-- The premises of the rule.  `C` is a condition on the steps of the run. -/
structure Keeps (m : Machine S Tid Ctl σ Ch Env) (M : Tid → Prog.Monitor S Q)
    (post : Tid → Ctl → Q → Prop) (J : Pool S Tid Ctl σ → (Tid → Q) → Prop)
    (C : Pool S Tid Ctl σ → Label Tid Ch Env → Prop) : Prop where
  /-- An operation that the monitor allows keeps the invariant. -/
  op : ∀ p qs t ch o k r s q', J p qs → C p (.op t ch) → p.prog t = .call o k →
    m.exec t p.shared o ch = some (r, s) → (M t).guard (qs t) o →
    (M t).next (qs t) o r q' → J (p.afterOp t o k r s) (update qs t q')
  /-- The program of a control point obeys the monitor again. -/
  jump : ∀ p qs t c, J p qs → C p (.jump t) → p.prog t = .ret c → post t c (qs t) →
    ∃ q', (m.resume t c).Obeys (M t) (post t) q' ∧
      J (p.withProg t (m.resume t c)) (update qs t q')
  /-- An environment step keeps the invariant, and starts a thread with a
  monitor state that fits its control point. -/
  env : ∀ p qs e s start, J p qs → C p (.env e) → m.env e p.shared = some (s, start) →
    ∃ qs', (∀ t, (∀ c, start ≠ some (t, c)) → qs' t = qs t) ∧
      (∀ t c, start = some (t, c) → post t c (qs' t)) ∧ J (p.afterEnv s start) qs'

theorem Keeps.step {qs : Tid → Q} {l : Label Tid Ch Env} (hk : Keeps m M post J C)
    (h : Monitored M post J p qs) (hC : C p l) (hs : m.step p l = some p') :
    ∃ qs', Monitored M post J p' qs' := by
  obtain ⟨hobeys, hJ⟩ := h
  cases l with
  | op t ch =>
    obtain ⟨o, k, r, s, hprog, hexec, rfl⟩ := step_op.1 hs
    have ht := hobeys t
    rw [hprog] at ht
    obtain ⟨q', hnext, hcont⟩ := ht.2 r
    refine ⟨update qs t q', fun u => ?_, hk.op _ _ _ _ _ _ _ _ _ hJ hC hprog hexec ht.1 hnext⟩
    by_cases hu : u = t
    · subst hu
      simpa using hcont
    · simpa [hu] using hobeys u
  | jump t =>
    obtain ⟨c, hprog, rfl⟩ := step_jump.1 hs
    have ht := hobeys t
    rw [hprog] at ht
    obtain ⟨q', hres, hJ'⟩ := hk.jump _ _ _ _ hJ hC hprog ht
    refine ⟨update qs t q', fun u => ?_, hJ'⟩
    by_cases hu : u = t
    · subst hu
      simpa using hres
    · simpa [hu] using hobeys u
  | env e =>
    obtain ⟨s, start, henv, rfl⟩ := step_env.1 hs
    obtain ⟨qs', hsame, hstart, hJ'⟩ := hk.env _ _ _ _ _ hJ hC henv
    refine ⟨qs', fun u => ?_, hJ'⟩
    rcases start with _ | ⟨t, c⟩
    · rw [hsame u (by simp)]
      exact hobeys u
    · by_cases hu : u = t
      · subst hu
        simpa using hstart u c rfl
      · have hne : ∀ c', some (t, c) ≠ some (u, c') := by
          intro c' heq
          rw [Option.some.injEq, Prod.mk.injEq] at heq
          exact hu heq.1.symm
        rw [hsame u hne]
        simpa [hu] using hobeys u

/-- The invariant rule: if each operation that the monitors allow keeps the
invariant, then every run does. -/
theorem Keeps.steps {s : σ} {start : Tid → Ctl} {qs : Tid → Q} (hk : Keeps m M post J C)
    (h : (m.toLts s start).Steps C p p') (h0 : Monitored M post J p qs) :
    ∃ qs', Monitored M post J p' qs' := by
  refine h.invariant (I := fun p => ∃ qs', Monitored M post J p qs') ⟨qs, h0⟩ ?_
  rintro t l t' - ⟨qs', hI⟩ hC hs
  exact hk.step hI hC hs

end Monitor

end Machine

end Conc
