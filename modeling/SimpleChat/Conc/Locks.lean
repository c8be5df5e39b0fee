import Mathlib.Data.List.Nodup
import Mathlib.Logic.Relation
import SimpleChat.Conc.Pool

/-!
# Mutexes taken in order

Some operations of a signature acquire or release a mutex.  Each mutex has a
rank, and the discipline is that of nested scopes: a thread acquires a mutex only
below the ranks of those that it holds, and releases the one that it acquired
last.

There are three groups.

* `Locks.monitor` is the discipline as a monitor of programs.
* `Locks.Respected` says that a machine gives a mutex to one thread at a time, and
  `Locks.reachable_held` that then the mutexes of a thread are those its monitor
  says, in every reachable state.
* `Locks.Ordered` is what this means for the threads that request mutexes.
  Nobody waits for himself, directly or through others (`Ordered.no_cycle`), and
  where a thread waits, some owner of a mutex does not (`Ordered.exists_running`).
-/

namespace Conc

open Function

/-- What an operation does to the mutexes. -/
inductive LockAction (L : Type) where
  | none
  | acquire (l : L)
  | release (l : L)
  deriving DecidableEq

/-- The mutexes `L` of a signature, with their ranks. -/
structure Locks (S : Sig) (L : Type) where
  action : S.Op → LockAction L
  rank : L → Nat

namespace Locks

variable {S : Sig} {L : Type} (K : Locks S L)

/-! ## The discipline of a program -/

/-- What a thread that holds some mutexes, the last one first, may do. -/
def Allows (held : List L) (o : S.Op) : Prop :=
  match K.action o with
  | .none => True
  | .acquire l => ∀ l' ∈ held, K.rank l < K.rank l'
  | .release l => held.head? = some l

/-- The mutexes of the thread after an operation. -/
def after (held : List L) (o : S.Op) : List L :=
  match K.action o with
  | .none => held
  | .acquire l => l :: held
  | .release _ => held.tail

def monitor : Prog.Monitor S (List L) := .det K.Allows fun held o _ => K.after held o

variable {K}

/-- The rule for one operation. -/
theorem obeys_call {α : Type} {o : S.Op} {k : S.Resp o → Prog S α} {held : List L}
    {post : α → List L → Prop} :
    (Prog.call o k).Obeys K.monitor post held ↔
      K.Allows held o ∧ ∀ r, (k r).Obeys K.monitor post (K.after held o) :=
  Prog.obeys_det_call

/-- The mutexes of a thread have different ranks. -/
abbrev Sorted (K : Locks S L) (held : List L) : Prop :=
  held.Pairwise fun l l' => K.rank l < K.rank l'

theorem Sorted.after {held : List L} (h : K.Sorted held) {o : S.Op} (ho : K.Allows held o) :
    K.Sorted (K.after held o) := by
  unfold Locks.after
  unfold Allows at ho
  split
  · exact h
  · rename_i l hl
    rw [hl] at ho
    exact List.pairwise_cons.2 ⟨ho, h⟩
  · exact h.tail

theorem Sorted.nodup {held : List L} (h : K.Sorted held) : held.Nodup := by
  refine h.imp fun {l l'} hlt heq => ?_
  rw [heq] at hlt
  exact Nat.lt_irrefl _ hlt

theorem Sorted.eq_of_rank {held : List L} (h : K.Sorted held) {l l' : L} (hl : l ∈ held)
    (hl' : l' ∈ held) (hrank : K.rank l = K.rank l') : l = l' := by
  have hranks : (held.map K.rank).Nodup :=
    List.Pairwise.imp Nat.ne_of_lt (List.pairwise_map.2 h)
  exact List.inj_on_of_nodup_map hranks hl hl' hrank

/-! ## The owners of the mutexes -/

variable {Tid Ctl σ Ch Env : Type}

section Reach

variable [DecidableEq Tid] [DecidableEq L]

/-- The machine gives a mutex to one thread at a time.  `fresh` are the threads
that have not started, which the environment may start. -/
structure Respected (K : Locks S L) (m : Machine S Tid Ctl σ Ch Env) (owner : σ → L → Option Tid)
    (fresh : σ → Tid → Prop) : Prop where
  none : ∀ t s o ch r s', m.exec t s o ch = some (r, s') → K.action o = .none → owner s' = owner s
  acquire : ∀ t s o ch r s' l, m.exec t s o ch = some (r, s') → K.action o = .acquire l →
    owner s l = Option.none ∧ owner s' = update (owner s) l (some t)
  release : ∀ t s o ch r s' l, m.exec t s o ch = some (r, s') → K.action o = .release l →
    owner s' = update (owner s) l Option.none
  exec_fresh : ∀ t s o ch r s' u, m.exec t s o ch = some (r, s') → fresh s' u → fresh s u
  env : ∀ s e s' start, m.env e s = some (s', start) → owner s' = owner s
  env_fresh : ∀ s e s' start u, m.env e s = some (s', start) → fresh s' u → fresh s u
  starts : ∀ s e s' t c, m.env e s = some (s', some (t, c)) → fresh s t ∧ ¬ fresh s' t

variable {m : Machine S Tid Ctl σ Ch Env} {owner : σ → L → Option Tid} {fresh : σ → Tid → Prop}

/-- The mutexes are owned by the threads that hold them, and a thread that has
not started has nothing to do. -/
structure Held (K : Locks S L) (m : Machine S Tid Ctl σ Ch Env) (owner : σ → L → Option Tid)
    (fresh : σ → Tid → Prop) (p : Pool S Tid Ctl σ) (held : Tid → List L) : Prop where
  owns : ∀ t l, owner p.shared l = some t ↔ l ∈ held t
  sorted : ∀ t, K.Sorted (held t)
  rests : ∀ t, fresh p.shared t →
    held t = [] ∧ ∃ c, p.prog t = .ret c ∧ m.resume t c = .ret c

/-- The owners after an operation that the discipline allows. -/
theorem Held.owns_after (hK : K.Respected m owner fresh) {p : Pool S Tid Ctl σ}
    {held : Tid → List L} (h : K.Held m owner fresh p held) {t : Tid} {ch : Ch} {o : S.Op}
    {r : S.Resp o} {s : σ} (he : m.exec t p.shared o ch = some (r, s)) (ho : K.Allows (held t) o)
    (u : Tid) (l : L) :
    owner s l = some u ↔ l ∈ update held t (K.after (held t) o) u := by
  unfold after
  unfold Allows at ho
  split
  · rename_i ha
    rw [hK.none _ _ _ _ _ _ he ha, update_eq_self]
    exact h.owns u l
  · rename_i l₀ ha
    have ⟨hfree, howner⟩ := hK.acquire _ _ _ _ _ _ _ he ha
    rw [howner]
    by_cases hl : l = l₀
    · subst hl
      rw [update_self]
      by_cases hu : u = t
      · subst hu
        simp
      · rw [update_of_ne hu, ← h.owns, hfree]
        simp [Ne.symm hu]
    · rw [update_of_ne hl, h.owns]
      by_cases hu : u = t
      · subst hu
        simp [hl]
      · rw [update_of_ne hu]
  · rename_i l₀ ha
    rw [ha] at ho
    rw [hK.release _ _ _ _ _ _ _ he ha]
    have ⟨rest, hheld⟩ := List.head?_eq_some_iff.1 ho
    have hnodup := (h.sorted t).nodup
    rw [hheld] at hnodup
    by_cases hl : l = l₀
    · subst hl
      rw [update_self]
      by_cases hu : u = t
      · subst hu
        rw [update_self, hheld]
        simpa using (List.nodup_cons.1 hnodup).1
      · have hown : owner p.shared l = some t := (h.owns t l).2 (by rw [hheld]; exact List.mem_cons_self)
        rw [update_of_ne hu, ← h.owns, hown]
        simp [Ne.symm hu]
    · rw [update_of_ne hl, h.owns]
      by_cases hu : u = t
      · subst hu
        rw [update_self, hheld]
        simp [hl]
      · rw [update_of_ne hu]

/-- An operation that the discipline allows keeps the owners. -/
theorem Held.op (hK : K.Respected m owner fresh) {p : Pool S Tid Ctl σ} {held : Tid → List L}
    (h : K.Held m owner fresh p held) {t : Tid} {ch : Ch} {o : S.Op} {k : S.Resp o → Prog S Ctl}
    {r : S.Resp o} {s : σ} (hprog : p.prog t = .call o k)
    (he : m.exec t p.shared o ch = some (r, s)) (ho : K.Allows (held t) o) :
    K.Held m owner fresh (p.afterOp t o k r s) (update held t (K.after (held t) o)) := by
  refine ⟨fun u l => ?_, fun u => ?_, fun u hu => ?_⟩
  · exact h.owns_after hK he ho u l
  · by_cases hu : u = t
    · rw [hu, update_self]
      exact (h.sorted t).after ho
    · rw [update_of_ne hu]
      exact h.sorted u
  · have hold := h.rests u (hK.exec_fresh _ _ _ _ _ _ u he hu)
    have hne : u ≠ t := by
      intro heq
      have ⟨_, c, hc, _⟩ := hold
      rw [heq, hprog] at hc
      cases hc
    rw [update_of_ne hne, Pool.afterOp_prog, update_of_ne hne]
    exact hold

/-- In every reachable state the mutexes of a thread are those that its monitor
says. -/
theorem reachable_held (hK : K.Respected m owner fresh)
    (hprog : ∀ t c, (m.resume t c).Obeys K.monitor (fun _ held => held = []) [])
    {s : σ} {start : Tid → Ctl} (hs : ∀ l, owner s l = Option.none)
    (hstart : ∀ t, fresh s t → m.resume t (start t) = .ret (start t))
    {C : Pool S Tid Ctl σ → Label Tid Ch Env → Prop} {p : Pool S Tid Ctl σ}
    (h : (m.toLts s start).Reaches C p) :
    ∃ held, Machine.Monitored (fun _ => K.monitor) (fun _ _ held => held = [])
      (K.Held m owner fresh) p held := by
  have hkeeps : Machine.Keeps m (fun _ => K.monitor) (fun _ _ held => held = [])
      (K.Held m owner fresh) C := by
    refine ⟨?_, ?_, ?_⟩
    · intro p held t ch o k r s held' hJ _ hcall he hguard hnext
      rw [show held' = K.after (held t) o from hnext]
      exact hJ.op hK hcall he hguard
    · intro p held t c hJ _ hret hpost
      refine ⟨held t, ?_, ?_⟩
      · rw [hpost]
        exact hprog t c
      · rw [update_eq_self]
        refine ⟨hJ.owns, hJ.sorted, fun u hu => ?_⟩
        have ⟨hnil, c', hc', hstay⟩ := hJ.rests u hu
        refine ⟨hnil, c', ?_, hstay⟩
        by_cases hut : u = t
        · subst hut
          cases hret.symm.trans hc'
          rw [Pool.withProg_prog, update_self, hstay]
        · rw [Pool.withProg_prog, update_of_ne hut]
          exact hc'
    · intro p held e s start hJ _ he
      refine ⟨held, fun _ _ => rfl, ?_, ?_⟩
      · intro t c hstart
        rw [hstart] at he
        exact (hJ.rests t (hK.starts _ _ _ _ _ he).1).1
      · refine ⟨fun t l => ?_, hJ.sorted, fun u hu => ?_⟩
        · rw [Pool.afterEnv_shared, hK.env _ _ _ _ he]
          exact hJ.owns t l
        · rw [Pool.afterEnv_shared] at hu
          have ⟨hnil, c, hc, hstay⟩ := hJ.rests u (hK.env_fresh _ _ _ _ u he hu)
          refine ⟨hnil, c, ?_, hstay⟩
          rcases start with _ | ⟨t, ctl⟩
          · exact hc
          · have hne : u ≠ t := by
              intro heq
              rw [heq] at hu
              exact (hK.starts _ _ _ _ _ he).2 hu
            rw [Pool.afterEnv_some_prog, update_of_ne hne]
            exact hc
  have hinit : K.Held m owner fresh (m.toLts s start).init fun _ => [] := by
    refine ⟨fun t l => ?_, fun _ => .nil, fun t ht => ⟨rfl, start t, rfl, hstart t ht⟩⟩
    change owner s l = some t ↔ _
    rw [hs]
    simp
  exact hkeeps.steps h ⟨fun t => rfl, hinit⟩

end Reach

/-! ## Waiting -/

/-- The next operation of the thread acquires the mutex. -/
def Requests (K : Locks S L) (p : Pool S Tid Ctl σ) (t : Tid) (l : L) : Prop :=
  ∃ o k, p.prog t = .call o k ∧ K.action o = .acquire l

/-- The thread requests a mutex that a thread owns. -/
def Waits (K : Locks S L) (owner : σ → L → Option Tid) (p : Pool S Tid Ctl σ) (t : Tid) : Prop :=
  ∃ l, K.Requests p t l ∧ owner p.shared l ≠ Option.none

/-- The thread `t` requests a mutex that `u` owns. -/
def WaitsFor (K : Locks S L) (owner : σ → L → Option Tid) (p : Pool S Tid Ctl σ) (t u : Tid) :
    Prop := ∃ l, K.Requests p t l ∧ owner p.shared l = some u

/-- Threads request mutexes in the order of their ranks, and own one of each rank
at most. -/
structure Ordered (K : Locks S L) (owner : σ → L → Option Tid) (p : Pool S Tid Ctl σ) : Prop where
  below : ∀ t l l', K.Requests p t l → owner p.shared l' = some t → K.rank l < K.rank l'
  distinct : ∀ t l l', owner p.shared l = some t → owner p.shared l' = some t →
    K.rank l = K.rank l' → l = l'

section Wait

variable {m : Machine S Tid Ctl σ Ch Env} {owner : σ → L → Option Tid} {fresh : σ → Tid → Prop}
  {p : Pool S Tid Ctl σ}

theorem ordered_of_held {held : Tid → List L}
    (h : Machine.Monitored (fun _ => K.monitor) (fun _ _ held => held = [])
      (K.Held m owner fresh) p held) : K.Ordered owner p := by
  have ⟨hobeys, hheld⟩ := h
  refine ⟨?_, ?_⟩
  · intro t l l' ⟨o, k, hprog, hacquire⟩ hown
    have ht := hobeys t
    rw [hprog] at ht
    have hallows := ht.1
    change K.Allows (held t) o at hallows
    unfold Allows at hallows
    rw [hacquire] at hallows
    exact hallows l' ((hheld.owns t l').1 hown)
  · intro t l l' hl hl' hrank
    exact (hheld.sorted t).eq_of_rank ((hheld.owns t l).1 hl) ((hheld.owns t l').1 hl') hrank

theorem Requests.unique {t : Tid} {l l' : L} (h : K.Requests p t l) (h' : K.Requests p t l') :
    l = l' := by
  have ⟨o, k, hprog, ha⟩ := h
  have ⟨o', k', hprog', ha'⟩ := h'
  cases hprog.symm.trans hprog'
  cases ha.symm.trans ha'
  rfl

/-- A thread does not request a mutex that it owns. -/
theorem Ordered.not_own (h : K.Ordered owner p) {t : Tid} {l : L} (hl : K.Requests p t l) :
    owner p.shared l ≠ some t :=
  fun hown => Nat.lt_irrefl _ (h.below t l l hl hown)

/-- Along a chain of waiting threads the ranks of the requested mutexes fall. -/
theorem Ordered.rank_falls (h : K.Ordered owner p) {t u : Tid}
    (hchain : Relation.TransGen (K.WaitsFor owner p) t u) :
    ∀ l', K.Requests p u l' → ∃ l, K.Requests p t l ∧ K.rank l' < K.rank l := by
  induction hchain with
  | single hwaits =>
    intro l' hl'
    have ⟨l, hl, hown⟩ := hwaits
    exact ⟨l, hl, h.below _ l' l hl' hown⟩
  | tail _ hwaits ih =>
    intro l' hl'
    have ⟨l₂, hl₂, hown⟩ := hwaits
    have ⟨l, hl, hlt⟩ := ih l₂ hl₂
    exact ⟨l, hl, Nat.lt_trans (h.below _ l' l₂ hl' hown) hlt⟩

/-- No cycle of threads wait for each other. -/
theorem Ordered.no_cycle (h : K.Ordered owner p) (t : Tid) :
    ¬ Relation.TransGen (K.WaitsFor owner p) t t := by
  intro hcycle
  have hfirst : ∃ l, K.Requests p t l := by
    have ⟨u, hwaits, _⟩ := Relation.TransGen.head'_iff.1 hcycle
    have ⟨l, hl, _⟩ := hwaits
    exact ⟨l, hl⟩
  have ⟨l', hl'⟩ := hfirst
  have ⟨l, hl, hlt⟩ := h.rank_falls hcycle l' hl'
  rw [hl.unique hl'] at hlt
  exact Nat.lt_irrefl _ hlt

/-- Behind every mutex that is owned there is an owner of a mutex that does not
wait. -/
theorem Ordered.exists_running_of_owned (h : K.Ordered owner p) {l : L} {u : Tid}
    (hown : owner p.shared l = some u) :
    ∃ v l', owner p.shared l' = some v ∧ ¬ K.Waits owner p v := by
  induction hn : K.rank l using Nat.strongRecOn generalizing l u with
  | ind n ih =>
    by_cases hwaits : K.Waits owner p u
    · have ⟨l₂, hl₂, howned⟩ := hwaits
      have ⟨v, hv⟩ := Option.ne_none_iff_exists'.1 howned
      have hlt := h.below u l₂ l hl₂ hown
      rw [hn] at hlt
      exact ih _ hlt hv rfl
    · exact ⟨u, l, hown, hwaits⟩

/-- Where a thread waits, some owner of a mutex does not. -/
theorem Ordered.exists_running (h : K.Ordered owner p) {t : Tid} (ht : K.Waits owner p t) :
    ∃ v l, owner p.shared l = some v ∧ ¬ K.Waits owner p v := by
  have ⟨l, _, howned⟩ := ht
  have ⟨u, hu⟩ := Option.ne_none_iff_exists'.1 howned
  exact h.exists_running_of_owned hu

end Wait

end Locks

end Conc
