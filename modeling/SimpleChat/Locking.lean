import SimpleChat.Conc.Locks
import SimpleChat.Registry
import SimpleChat.Wire

/-!
# The server at the level of mutexes

Here every `lock_guard` of `server.cpp` is two operations: `sessions_mutex_` is
locked at the beginning of a block and unlocked at its end, and `send_locked`
locks and unlocks the `send_mutex` of its session.  `handle_register` sends its
reply while it holds `sessions_mutex_`.  Between any two operations the other
threads may run, and a thread that finds a mutex locked waits.

`lockedOp` says how an operation of `Server` is performed.  The threads run the
same programs.  `locks_ordered` is the discipline, and what follows from it.
-/

namespace SimpleChat

open Conc Function

/-! ## Operations -/

inductive Mutex where
  | sessions
  | send (session : SessionRef)
  deriving DecidableEq

inductive LockOp where
  | lock (l : Mutex)
  | unlock (l : Mutex)
  | mem (o : MemOp)
  /-- One frame, written through a session or not. -/
  | write (via : Option SessionRef) (fd : Fd) (msg : ServerMsg)
  /-- The checks and the insertions of `handle_register`. -/
  | create (fd : Fd) (username peerIp : String)
  deriving DecidableEq

@[reducible] def LockOp.Resp : LockOp → Type
  | .lock _ => Unit
  | .unlock _ => Unit
  | .mem o => o.Resp
  | .write _ _ _ => Unit
  | .create _ _ _ => Memory.RegisterOutcome

/-- The signature of the threads at this level. -/
abbrev Locked : Sig := ⟨LockOp, LockOp.Resp⟩

/-- `send_locked`. -/
def lockedSend (session : SessionRef) (msg : ServerMsg) : Prog Locked Unit := do
  Prog.perform (S := Locked) (.lock (.send session))
  let i ← Prog.perform (S := Locked) (.mem (.read session))
  Prog.perform (S := Locked) (.write (some session) i.socketFd msg)
  Prog.perform (S := Locked) (.unlock (.send session))

/-- The reply of `handle_register`. -/
def lockedReply (fd : Fd) (reply : Option SessionRef × ServerMsg) : Prog Locked Unit :=
  match reply.1 with
  | none => Prog.perform (S := Locked) (.write none fd reply.2)
  | some session => lockedSend session reply.2

/-- A block under `sessions_mutex_`. -/
def underSessions {α : Type} (block : Prog Locked α) : Prog Locked α := do
  Prog.perform (S := Locked) (.lock .sessions)
  let r ← block
  Prog.perform (S := Locked) (.unlock .sessions)
  pure r

/-- An operation of the server, with the mutexes that it takes. -/
def lockedOp : (o : ServerOp) → Prog Locked o.Resp
  | .mem o =>
    if o.locksSessions then underSessions (Prog.perform (S := Locked) (.mem o))
    else Prog.perform (S := Locked) (.mem o)
  | .sendBare fd msg => Prog.perform (S := Locked) (.write none fd msg)
  | .sendLocked session msg => lockedSend session msg
  | .register fd username peerIp => underSessions do
    let r ← Prog.perform (S := Locked) (.create fd username peerIp)
    lockedReply fd (registerReply username peerIp r)
    pure r

/-! ## The machine -/

/-- The shared state, and the owners of the mutexes. -/
structure LockWorld where
  mem : Memory
  owner : Mutex → Option Tid

namespace LockWorld

variable (cfg : Config) (w : LockWorld)

/-- The effect and the response of an operation of thread `t`, if it need not
wait for a mutex. -/
def exec (t : Tid) : (o : LockOp) → Choice → Option (o.Resp × LockWorld)
  | .lock l, _ =>
    if w.owner l = none then some ((), { w with owner := update w.owner l (some t) }) else none
  | .unlock l, _ => some ((), { w with owner := update w.owner l none })
  | .mem o, ch => (w.mem.exec cfg.idleTimeoutSec o ch).map fun x => (x.1, { w with mem := x.2 })
  | .write _ _ _, _ => some ((), w)
  | .create fd username peerIp, _ =>
    match t with
    | .handler c =>
      some ((w.mem.register c fd username peerIp).1,
        { w with mem := (w.mem.register c fd username peerIp).2 })
    | .watchdog => none

/-- The effect of a step of the environment, and the thread it starts. -/
def env (e : Env) : Option (LockWorld × Option (Tid × Ctl)) :=
  ((⟨w.mem, fun _ => []⟩ : World).env e).map fun x => ({ w with mem := x.1.mem }, x.2)

end LockWorld

variable (cfg : Config)

/-- How the threads of the server run at this level. -/
def lockMachine : Machine Locked Tid Ctl LockWorld Choice Env where
  exec t w o ch := w.exec cfg t o ch
  resume _ c := (c.program cfg).interp lockedOp
  env e w := w.env e

/-- A state of the server at this level. -/
abbrev LockState := Pool Locked Tid Ctl LockWorld

def lockStart : Tid → Ctl
  | .watchdog => .watchdog
  | .handler _ => .ended

/-- The server, one acquisition of a mutex at a time. -/
def lockSystem : Lts LockState Step :=
  (lockMachine cfg).toLts ⟨.init, fun _ => none⟩ lockStart

/-! ## The discipline -/

/-- `sessions_mutex_` is locked before any `send_mutex`. -/
def mutexes : Locks Locked Mutex where
  action
    | .lock l => .acquire l
    | .unlock l => .release l
    | _ => .none
  rank
    | .sessions => 1
    | .send _ => 0

variable {cfg}

/-- `send_locked` may be called by a thread that holds no `send_mutex`. -/
theorem lockedSend_obeys (s : SessionRef) (msg : ServerMsg) {held : List Mutex}
    (h : ∀ l ∈ held, l = .sessions) :
    (lockedSend s msg).Obeys mutexes.monitor (fun _ held' => held' = held) held := by
  refine Locks.obeys_call.2 ⟨fun l hl => ?_, fun _ => ?_⟩
  · rw [h l hl]
    exact Nat.zero_lt_one
  · exact Locks.obeys_call.2 ⟨trivial, fun i => Locks.obeys_call.2 ⟨trivial, fun _ =>
      Locks.obeys_call.2 ⟨rfl, fun _ => rfl⟩⟩⟩

theorem lockedReply_obeys (fd : Fd) (reply : Option SessionRef × ServerMsg) {held : List Mutex}
    (h : ∀ l ∈ held, l = .sessions) :
    (lockedReply fd reply).Obeys mutexes.monitor (fun _ held' => held' = held) held := by
  unfold lockedReply
  split
  · exact Locks.obeys_call.2 ⟨trivial, fun _ => rfl⟩
  · exact lockedSend_obeys _ _ h

theorem underSessions_obeys {α : Type} {block : Prog Locked α}
    (h : block.Obeys mutexes.monitor (fun _ held => held = [.sessions]) [.sessions]) :
    (underSessions block).Obeys mutexes.monitor (fun _ held => held = []) [] := by
  refine Locks.obeys_call.2 ⟨fun l hl => (nomatch hl), fun _ => ?_⟩
  refine h.bind fun a held hheld => ?_
  rw [hheld]
  exact Locks.obeys_call.2 ⟨rfl, fun _ => rfl⟩

/-- An operation releases every mutex that it acquires. -/
theorem lockedOp_obeys (o : ServerOp) :
    (lockedOp o).Obeys mutexes.monitor (fun _ held => held = []) [] := by
  cases o with
  | mem o =>
    unfold lockedOp
    dsimp only
    split
    · exact underSessions_obeys (Locks.obeys_call.2 ⟨trivial, fun _ => rfl⟩)
    · exact Locks.obeys_call.2 ⟨trivial, fun _ => rfl⟩
  | sendBare fd msg => exact Locks.obeys_call.2 ⟨trivial, fun _ => rfl⟩
  | sendLocked s msg => exact lockedSend_obeys s msg fun l hl => (nomatch hl)
  | register fd username peerIp =>
    refine underSessions_obeys (Locks.obeys_call.2 ⟨trivial, fun r => ?_⟩)
    refine (lockedReply_obeys fd _ fun l hl => List.mem_singleton.1 hl).bind fun _ held hheld => ?_
    exact hheld

/-- A program of the server holds no mutex when it returns. -/
theorem locked_obeys {α : Type} (p : Prog Server α) :
    (p.interp lockedOp).Obeys mutexes.monitor (fun _ held => held = []) [] := by
  induction p with
  | ret a => rfl
  | call o k ih =>
    rw [Prog.interp_call]
    refine (lockedOp_obeys o).bind fun r held hheld => ?_
    rw [hheld]
    exact ih r

/-- The connections that are accepted later have handlers that have not
started. -/
def NotStarted (w : LockWorld) : Tid → Prop
  | .handler c => w.mem.nextConn ≤ c
  | .watchdog => False

/-- No operation of a thread accepts a connection. -/
theorem lock_nextConn {w w' : LockWorld} {t : Tid} {o : LockOp} {ch : Choice} {r : o.Resp}
    (h : w.exec cfg t o ch = some (r, w')) : w'.mem.nextConn = w.mem.nextConn := by
  cases o with
  | lock l =>
    rw [LockWorld.exec] at h
    split at h
    · cases h
      rfl
    · cases h
  | unlock l =>
    cases h
    rfl
  | write via fd msg =>
    cases h
    rfl
  | create fd u a =>
    cases t with
    | watchdog => cases h
    | handler c =>
      cases h
      exact Memory.register_nextConn _ _ _ _ _
  | mem o =>
    rw [LockWorld.exec, Option.map_eq_some_iff] at h
    have ⟨⟨r', m'⟩, he, hx⟩ := h
    cases hx
    exact Memory.exec_nextConn he

/-- An operation that neither locks nor unlocks leaves the owners as they are. -/
theorem lock_owner {w w' : LockWorld} {t : Tid} {o : LockOp} {ch : Choice} {r : o.Resp}
    (h : w.exec cfg t o ch = some (r, w')) (ho : mutexes.action o = .none) :
    w'.owner = w.owner := by
  cases o with
  | lock l => cases ho
  | unlock l => cases ho
  | write via fd msg =>
    cases h
    rfl
  | create fd u a =>
    cases t with
    | watchdog => cases h
    | handler c =>
      cases h
      rfl
  | mem o =>
    rw [LockWorld.exec, Option.map_eq_some_iff] at h
    have ⟨_, _, hx⟩ := h
    cases hx
    rfl

/-- What a step of the environment does. -/
theorem lock_env {w w' : LockWorld} {e : Env} {start : Option (Tid × Ctl)}
    (h : w.env e = some (w', start)) :
    w'.owner = w.owner ∧ w.mem.nextConn ≤ w'.mem.nextConn ∧
      ∀ t c, start = some (t, c) →
        t = .handler w.mem.nextConn ∧ w'.mem.nextConn = w.mem.nextConn + 1 := by
  rw [LockWorld.env, Option.map_eq_some_iff] at h
  have ⟨⟨v, start'⟩, he, hx⟩ := h
  cases hx
  rcases World.env_mem_cases he with ⟨hstart, hf, _⟩ | ⟨fd, peerIp, _, _, hstart, hv⟩
  · refine ⟨rfl, hf.nextConn.ge, fun t c hc => ?_⟩
    rw [hstart] at hc
    cases hc
  · rw [hv]
    refine ⟨rfl, Nat.le_succ _, fun t c hc => ?_⟩
    rw [hstart] at hc
    cases hc
    exact ⟨rfl, rfl⟩

/-- The machine gives a mutex to one thread at a time. -/
theorem lock_respected : mutexes.Respected (lockMachine cfg) LockWorld.owner NotStarted where
  none _ _ _ _ _ _ he ho := lock_owner he ho
  acquire t w o ch r w' l he ho := by
    cases o with
    | lock l' =>
      cases ho
      change (if w.owner l = none then _ else _) = _ at he
      split at he
      · rename_i hfree
        cases he
        exact ⟨hfree, rfl⟩
      · cases he
    | unlock | mem | write | create => cases ho
  release t w o ch r w' l he ho := by
    cases o with
    | unlock l' =>
      cases ho
      cases he
      rfl
    | lock | mem | write | create => cases ho
  exec_fresh _ _ _ _ _ _ u he hu := by
    cases u with
    | watchdog => exact hu
    | handler c => exact (lock_nextConn he).ge.trans hu
  env _ _ _ _ he := (lock_env he).1
  env_fresh _ _ _ _ u he hu := by
    cases u with
    | watchdog => exact hu
    | handler c => exact (lock_env he).2.1.trans hu
  starts _ _ _ t c he := by
    have ⟨ht, hnext⟩ := (lock_env he).2.2 t c rfl
    rw [ht]
    refine ⟨Nat.le_refl _, fun hle => ?_⟩
    change _ ≤ _ at hle
    rw [hnext] at hle
    exact Nat.not_succ_le_self _ hle

/-- In every reachable state the mutexes of a thread are those that its program
says. -/
theorem lock_held {C : LockState → Step → Prop} {p : LockState}
    (h : (lockSystem cfg).Reaches C p) :
    ∃ held, Machine.Monitored (fun _ => mutexes.monitor) (fun _ _ held => held = [])
      (mutexes.Held (lockMachine cfg) LockWorld.owner NotStarted) p held := by
  refine Locks.reachable_held lock_respected (fun _ c => locked_obeys (c.program cfg))
    (fun _ => rfl) (fun t ht => ?_) h
  cases t with
  | watchdog => exact ht.elim
  | handler c => rfl

/-- A thread that the environment starts owns no mutex. -/
theorem lock_starts {C : LockState → Step → Prop} {p : LockState} {e : Env} {w : LockWorld}
    {t : Tid} {c : Ctl} (h : (lockSystem cfg).Reaches C p)
    (he : p.shared.env e = some (w, some (t, c))) (l : Mutex) : p.shared.owner l ≠ some t := by
  have ⟨held, _, hheld⟩ := lock_held h
  have hrespected : mutexes.Respected (lockMachine cfg) LockWorld.owner NotStarted := lock_respected
  have hfresh := (hrespected.starts _ _ _ _ _ he).1
  intro hown
  have hmem := (hheld.owns t l).1 hown
  rw [(hheld.rests t hfresh).1] at hmem
  cases hmem

/-- In every reachable state threads request mutexes in order.  No thread requests
a mutex that it owns, or `sessions_mutex_` while it owns a `send_mutex`, and no
thread owns two `send_mutex`.  Hence no threads wait for each other in a cycle,
and where a thread waits, some owner of a mutex does not. -/
theorem locks_ordered {p : LockState} (h : (lockSystem cfg).Reaches Lts.Any p) :
    (∀ t l, mutexes.Requests p t l → p.shared.owner l ≠ some t) ∧
      (∀ t s, mutexes.Requests p t .sessions → p.shared.owner (.send s) ≠ some t) ∧
      (∀ t s s', p.shared.owner (.send s) = some t → p.shared.owner (.send s') = some t → s = s') ∧
      (∀ t, ¬ Relation.TransGen (mutexes.WaitsFor LockWorld.owner p) t t) ∧
      ∀ t, mutexes.Waits LockWorld.owner p t →
        ∃ u l, p.shared.owner l = some u ∧ ¬ mutexes.Waits LockWorld.owner p u := by
  have ⟨held, hheld⟩ := lock_held h
  have hordered := Locks.ordered_of_held hheld
  refine ⟨fun t l hl => hordered.not_own hl, fun t s hsessions hown => ?_, fun t s s' hs hs' => ?_,
    hordered.no_cycle, fun t ht => hordered.exists_running ht⟩
  · have hlt := hordered.below t _ _ hsessions hown
    exact Nat.not_lt_zero _ hlt
  · cases hordered.distinct t _ _ hs hs' rfl
    rfl

/-- The mutex that the next operation of a thread locks. -/
def requested (p : LockState) (t : Tid) : Option Mutex :=
  match p.prog t with
  | .call (.lock l) _ => some l
  | _ => none

theorem requests_of_requested {p : LockState} {t : Tid} {l : Mutex} (h : requested p t = some l) :
    mutexes.Requests p t l := by
  unfold requested at h
  split at h
  · rename_i l' k hprog
    cases h
    exact ⟨_, k, hprog, rfl⟩
  · cases h

/-- Two clients register at the same time.  The handler of the first has locked
`sessions_mutex_`, and that of the second requests it. -/
def contendedRun : List Step :=
  [.env (.accept 4 "10.0.0.1"), .env (.accept 5 "10.0.0.2"),
    .env (.clientSend 0 [1, 0, 0, 0, 3, 10, 1, 97]),
    .env (.clientSend 1 [1, 0, 0, 0, 3, 10, 1, 98])] ++ turn (.handler 0) 6 ++ turn (.handler 1) 5

/-- In that state the second handler waits, and not for itself. -/
theorem locks_ordered_contended :
    ∃ p, (lockSystem sampleConfig).Reaches Lts.Any p ∧
      mutexes.Requests p (.handler 1) .sessions ∧ p.shared.owner .sessions ≠ some (.handler 1) ∧
      ∃ u l, p.shared.owner l = some u ∧ ¬ mutexes.Waits LockWorld.owner p u := by
  have ⟨p, hp, hrun⟩ := Lts.exists_reaches_of_run (L := lockSystem sampleConfig) contendedRun
    (fun p => decide (requested p (.handler 1) = some .sessions) &&
      decide (p.shared.owner .sessions = some (.handler 0))) (by decide +kernel)
  simp only [Bool.and_eq_true, decide_eq_true_eq] at hrun
  have hrequests := requests_of_requested hrun.1
  have ⟨hnot, _, _, _, hrunning⟩ := locks_ordered hp
  refine ⟨p, hp, hrequests, hnot _ _ hrequests, hrunning (.handler 1) ⟨.sessions, hrequests, ?_⟩⟩
  rw [hrun.2]
  exact Option.some_ne_none _

end SimpleChat
