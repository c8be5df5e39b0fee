import SimpleChat.Conc.Atomic
import SimpleChat.Locking
import SimpleChat.Ownership

/-!
# The server at the level of mutexes, in steps of `System`

In `SimpleChat.System` a block under `sessions_mutex_` is one step with its frames, and
`send_locked` is one step.  In `SimpleChat.Locking` locking, unlocking and each frame are
steps of their own.  These leave the memory as it is, so that an operation of `Server`
takes effect at one operation of `Locked`.  `lock_follows` is what follows.  The work of a
block on the maps is one step on both levels, see `SimpleChat.MapAccess`.
-/

namespace SimpleChat

open Conc Function

/-- An operation that leaves the memory as it is, for whoever performs it. -/
def LockOp.Silent : LockOp → Prop
  | .lock _ => True
  | .unlock _ => True
  | .write _ _ _ => True
  | .mem (.read _) => True
  | _ => False

/-- The operation at which an operation of the server takes effect. -/
inductive LockOp.StandsFor : (o : ServerOp) → (o' : LockOp) → (o'.Resp → o.Resp) → Prop where
  | mem (o : MemOp) : StandsFor (.mem o) (.mem o) id
  | sendBare (fd : Fd) (msg : ServerMsg) : StandsFor (.sendBare fd msg) (.write none fd msg) id
  | sendLocked (s : SessionRef) (fd : Fd) (msg : ServerMsg) :
      StandsFor (.sendLocked s msg) (.write (some s) fd msg) id
  | register (fd : Fd) (username peerIp : String) :
      StandsFor (.register fd username peerIp) (.create fd username peerIp) id

def lockEffects : Machine.Effects Server Locked := ⟨LockOp.Silent, LockOp.StandsFor⟩

theorem lockedReply_ends (fd : Fd) (reply : Option SessionRef × ServerMsg) :
    (lockedReply fd reply).Ends LockOp.Silent () := by
  unfold lockedReply
  split
  · exact ⟨trivial, fun _ => rfl⟩
  · exact ⟨trivial, fun _ => ⟨trivial, fun _ => ⟨trivial, fun _ => ⟨trivial, fun _ => rfl⟩⟩⟩⟩

/-- Each operation takes effect once. -/
theorem lockedOp_commits (o : ServerOp) :
    (lockedOp o).Commits LockOp.Silent (LockOp.StandsFor o) := by
  cases o with
  | mem o =>
    unfold lockedOp
    dsimp only
    split
    · refine Or.inl ⟨trivial, fun _ => Or.inr ⟨id, .mem o, fun r => ?_⟩⟩
      exact ⟨trivial, fun _ => rfl⟩
    · exact Or.inr ⟨id, .mem o, fun r => rfl⟩
  | sendBare fd msg => exact Or.inr ⟨id, .sendBare fd msg, fun _ => rfl⟩
  | sendLocked s msg =>
    refine Or.inl ⟨trivial, fun _ => Or.inl ⟨trivial, fun i => ?_⟩⟩
    exact Or.inr ⟨id, .sendLocked s _ msg, fun _ => ⟨trivial, fun _ => rfl⟩⟩
  | register fd u a =>
    refine Or.inl ⟨trivial, fun _ => Or.inr ⟨id, .register fd u a, fun r => ?_⟩⟩
    refine Prog.Ends.bind (r := (r : Memory.RegisterOutcome)) ?_ ⟨trivial, fun _ => rfl⟩
    exact (lockedReply_ends fd _).bind rfl

/-- The environment acts on the memory alone. -/
theorem World.env_eq (w : World) (e : Env) :
    w.env e = ((⟨w.mem, fun _ => []⟩ : World).env e).map fun x =>
      ({ w with mem := x.1.mem }, x.2) := by
  cases e with
  | tick d => rfl
  | accept | clientSend | clientClose =>
    unfold env
    dsimp only
    split <;> rfl

/-- The memory on the two levels. -/
theorem lock_machines (cfg : Config) :
    Machine.Atomic (lockMachine cfg) (machine cfg) lockEffects lockedOp
      fun low high => high.mem = low.mem where
  resume _ _ := rfl
  commits := lockedOp_commits
  silent w v t o ch r w' hmem hsilent he := by
    cases o with
    | lock l =>
      obtain ⟨_, he⟩ := Option.ite_none_right_eq_some.1 he
      cases he
      exact hmem
    | unlock l =>
      cases he
      exact hmem
    | write via fd msg =>
      cases he
      exact hmem
    | create fd u a => exact hsilent.elim
    | mem o =>
      cases o with
      | read s =>
        cases he
        exact hmem
      | _ => exact hsilent.elim
  effect w v t o o' f ch r w' hmem hstands he := by
    cases hstands with
    | mem o =>
      obtain ⟨⟨r', m⟩, hexec, hx⟩ := Option.map_eq_some_iff.1 he
      cases hx
      rw [← hmem] at hexec
      exact ⟨{ v with mem := m }, World.exec_mem (t := t) hexec, rfl⟩
    | sendBare fd msg =>
      cases he
      exact ⟨_, rfl, (World.write_mem _ _ _ _).trans hmem⟩
    | sendLocked s fd msg =>
      cases he
      exact ⟨_, rfl, (World.write_mem _ _ _ _).trans hmem⟩
    | register fd u a =>
      cases t with
      | watchdog => cases he
      | handler c =>
        cases he
        have hsame : (w.mem.register c fd u a).1 = (v.mem.register c fd u a).1 := by rw [hmem]
        have hexec : v.exec cfg (.handler c) (.register fd u a) ch = some (_, _) :=
          World.exec_register.2 ⟨hsame, rfl⟩
        refine ⟨_, hexec, ?_⟩
        rw [World.reply_mem, hmem]
  env w v e w' start hmem he := by
    obtain ⟨x, hx, heq⟩ := Option.map_eq_some_iff.1 he
    cases heq
    refine ⟨{ v with mem := x.1.mem }, ?_, rfl⟩
    show v.env e = _
    rw [World.env_eq, hmem, hx]
    rfl

/-- The two levels start in the same way. -/
theorem lock_start (cfg : Config) :
    (machine cfg).toLts ⟨.init, fun _ => []⟩ lockStart = system cfg := by
  have hstart : ((machine cfg).toLts ⟨.init, fun _ => []⟩ lockStart).init = (system cfg).init := by
    refine congrArg (Pool.mk _ · []) (funext fun t => ?_)
    cases t <;> rfl
  exact congrArg (Lts.mk · _) hstart

/-- A run at the level of mutexes is a run of the server where each critical section is
one step, with the same memory and the threads at the same places of their programs. -/
theorem lock_follows {cfg : Config} {C : LockState → Step → Prop} {p : LockState}
    (h : (lockSystem cfg).Reaches C p) :
    ∃ q, (system cfg).Reaches Lts.Any q ∧ Machine.Placed lockEffects lockedOp p q ∧
      q.shared.mem = p.shared.mem := by
  have hinit : (⟨.init, fun _ => []⟩ : World).mem = (lockSystem cfg).init.shared.mem := rfl
  obtain ⟨q, hq, hplaced, hmem⟩ := (lock_machines cfg).steps h hinit
  rw [lock_start] at hq
  exact ⟨q, hq, hplaced, hmem⟩

/-- Only handlers register clients. -/
theorem lock_create_handler {cfg : Config} {C : LockState → Step → Prop} {p : LockState}
    (h : (lockSystem cfg).Reaches C p) {t : Tid} {fd : Fd} {username peerIp : String}
    {k : Memory.RegisterOutcome → Prog Locked Ctl}
    (hprog : p.prog t = .call (.create fd username peerIp) k) : ∃ c, t = .handler c := by
  obtain ⟨q, hq, hplaced, -⟩ := lock_follows h
  obtain ⟨phases, hobeys, -, -⟩ := reachable_owned hq
  rcases (hplaced t).of_call lockedOp_commits hprog with ⟨hsilent, -⟩ | ⟨o, k', f, ho, hstands, -⟩
  · exact hsilent.elim
  · cases hstands with
    | register =>
      have ht := hobeys t
      rw [ho] at ht
      cases t with
      | watchdog => exact ht.1.elim
      | handler c => exact ⟨c, rfl⟩

end SimpleChat
