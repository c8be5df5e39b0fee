import SimpleChat.Shutdown

/-!
# The accept loop

In `SimpleChat.System` a connection is accepted and its handler started in one step of
the environment.  The program does this in three: the main thread calls `accept`, and
then `emplace_back`, and the new thread begins to run when it does.  `run_follows` says
that the program, as long as `stop` is not called, does what the server does there.
-/

namespace SimpleChat

open Conc Function

/-- The program of a thread of the server, in the whole program. -/
def Ctl.inRun (h : Prog Server Ctl) : Prog Run RunCtl :=
  h.lift serverEmbedding >>= fun c => pure (.server c)

/-- The event of a thread of the server, if it is one. -/
def serverEvent : Event Run RunTid → Option (Event Server Tid)
  | ⟨.server t, .server o, r⟩ => some ⟨t, o, r⟩
  | _ => none

/-- The thread of the server has begun to run. -/
def RunWorld.Begun (w : RunWorld) : Tid → Prop
  | .watchdog => True
  | .handler c => w.started c = true

/-- The whole program, and the server as `system` has it: the memory, the frames written
and the history are the same, and so is what is left of each thread that has begun.  A
handler that has not begun stands at the head of its loop. -/
structure SameServer (p : RunState) (q : State) : Prop where
  shared : q.shared = p.shared.base
  log : q.log = p.log.filterMap serverEvent
  begun : ∀ t, p.shared.Begun t → p.prog (.server t) = Ctl.inRun (q.prog t)
  waits : ∀ c, p.shared.started c = false → c < p.shared.mem.nextConn →
    q.prog (.handler c) = .ret (.loop (p.shared.mem.conns c).fd)

/-- The step calls no `stop`. -/
def NoStop : RunState → RunStep → Prop
  | _, .env .callStop => False
  | _, _ => True

instance (p : RunState) (l : RunStep) : Decidable (NoStop p l) :=
  match l with
  | .env .callStop => .isFalse id
  | .env (.start _) => .isTrue trivial
  | .env (.net _) => .isTrue trivial
  | .op _ _ => .isTrue trivial
  | .jump _ => .isTrue trivial

theorem inRun_call {h : Prog Server Ctl} {o : RunOp} {k : o.Resp → Prog Run RunCtl}
    (heq : .call o k = Ctl.inRun h) :
    ∃ o' k', h = .call o' k' ∧ (.call o k : Prog Run RunCtl) =
      .call (.server o') fun r => Ctl.inRun (k' r) := by
  cases h with
  | ret c => cases heq
  | call o' k' => exact ⟨o', k', rfl, heq⟩

theorem inRun_ret {h : Prog Server Ctl} {c : RunCtl} (heq : .ret c = Ctl.inRun h) :
    ∃ c', h = .ret c' ∧ c = .server c' := by
  cases h with
  | ret c' =>
    cases heq
    exact ⟨c', rfl, rfl⟩
  | call o' k' => cases heq

section Step

variable {cfg : Config} {p : RunState} {q : State} {qs : RunTid → Duty}

/-- A thread that has something to do has begun. -/
theorem Sound.begun (h : Sound p qs) {t : Tid} (hprog : p.prog (.server t) ≠ .ret .unstarted) :
    p.shared.Begun t := by
  cases t with
  | watchdog => trivial
  | handler c =>
    cases hstarted : p.shared.started c with
    | true => exact hstarted
    | false => exact absurd (h.rests c hstarted) hprog

/-- A thread of the server goes on in both. -/
theorem SameServer.advance (h : SameServer p q) {p' : RunState} {q' : State} {t : Tid}
    {next : Prog Server Ctl} (hbegun : p.shared.Begun t) (hshared : q'.shared = p'.shared.base)
    (hlog : q'.log = p'.log.filterMap serverEvent)
    (hp : p'.prog = update p.prog (.server t) (Ctl.inRun next))
    (hq : q'.prog = update q.prog t next)
    (hstarted : p'.shared.started = p.shared.started)
    (hconn : p'.shared.mem.nextConn = p.shared.mem.nextConn)
    (hfd : ∀ c, (p'.shared.mem.conns c).fd = (p.shared.mem.conns c).fd) : SameServer p' q' := by
  refine ⟨hshared, hlog, fun u hu => ?_, fun c hc hlt => ?_⟩
  · rw [hp, hq]
    by_cases hut : u = t
    · rw [hut, update_self, update_self]
    · have hne : RunTid.server u ≠ .server t := fun heq => hut (RunTid.server.inj heq)
      rw [update_of_ne hut, update_of_ne hne]
      refine h.begun u ?_
      cases u with
      | watchdog => trivial
      | handler c =>
        show p.shared.started c = true
        rw [← hstarted]
        exact hu
  · rw [hstarted] at hc
    rw [hconn] at hlt
    have hne : Tid.handler c ≠ t := by
      rintro rfl
      exact absurd (hc.symm.trans hbegun) (by decide)
    rw [hq, update_of_ne hne, hfd]
    exact h.waits c hc hlt

/-- What the server has nothing to do with. -/
theorem SameServer.keep (h : SameServer p q) {p' : RunState}
    (hbase : p'.shared.base = p.shared.base)
    (hstarted : p'.shared.started = p.shared.started)
    (hlog : p'.log.filterMap serverEvent = p.log.filterMap serverEvent)
    (hprog : ∀ t, p'.prog (.server t) = p.prog (.server t)) : SameServer p' q := by
  have hmem : p'.shared.mem = p.shared.mem := congrArg World.mem hbase
  refine ⟨h.shared.trans hbase.symm, h.log.trans hlog.symm, fun t ht => ?_, fun c hc hlt => ?_⟩
  · rw [hprog]
    refine h.begun t ?_
    unfold RunWorld.Begun at ht ⊢
    rwa [hstarted] at ht
  · rw [hmem]
    rw [hmem] at hlt
    rw [hstarted] at hc
    exact h.waits c hc hlt

/-- An operation of a thread of the server is the same operation. -/
theorem SameServer.server (h : SameServer p q) (hsound : Sound p qs) {t : Tid} {ch : RunChoice}
    {p' : RunState} (hs : (runMachine cfg).step p (.op (.server t) ch) = some p') :
    ∃ q', (machine cfg).step q (.op t ch.toChoice) = some q' ∧ SameServer p' q' := by
  obtain ⟨o, k, r, w, hprog, he, rfl⟩ := Machine.step_op.1 hs
  have hbegun := hsound.begun (t := t) (by simp [hprog])
  obtain ⟨o', k', hq, hcall⟩ := inRun_call (hprog.symm.trans (h.begun t hbegun))
  cases hcall
  have hserved := RunWorld.served he
  obtain ⟨⟨r', b⟩, hexec, hx⟩ := Option.map_eq_some_iff.1 he
  cases hx
  have hexec' : (machine cfg).exec t q.shared o' ch.toChoice = some (r', b) := by
    rw [h.shared]
    exact hexec
  refine ⟨q.afterOp t o' k' r' b, Machine.step_op.2 ⟨o', k', r', b, hq, hexec', rfl⟩, ?_⟩
  refine h.advance hbegun rfl ?_ rfl rfl hserved.started hserved.nextConn hserved.connFd
  rw [Pool.afterOp_log, Pool.afterOp_log, List.filterMap_append, h.log]
  rfl

/-- The main thread has accepted a connection. -/
theorem SameServer.accept (h : SameServer p q) (hsound : Sound p qs) {fd : Fd} {peerIp : String}
    {k : Option Fd → Prog Run RunCtl} (hfree : p.shared.mem.fds fd = none) :
    ∃ q', (machine cfg).step q (.env (.accept fd peerIp)) = some q' ∧
      SameServer (p.afterOp .main .accept k (some fd)
        (p.shared.withMem (p.shared.mem.accept fd peerIp))) q' := by
  have henv : (machine cfg).env (.accept fd peerIp) q.shared =
      some ({ q.shared with mem := q.shared.mem.accept fd peerIp },
        some (.handler q.shared.mem.nextConn, .loop fd)) := by
    refine if_pos ?_
    rw [h.shared]
    exact hfree
  refine ⟨_, Machine.step_env.2 ⟨_, _, henv, rfl⟩, ?_⟩
  rw [h.shared]
  have hne : ∀ t, p.shared.Begun t → t ≠ .handler p.shared.mem.nextConn := by
    rintro t ht rfl
    exact Nat.lt_irrefl _ (hsound.handlers.started _ ht).1
  refine ⟨rfl, ?_, fun t ht => ?_, fun c hc hlt => ?_⟩
  · rw [Pool.afterEnv_log, Pool.afterOp_log, List.filterMap_append, h.log]
    exact (List.append_nil _).symm
  · rw [Pool.afterEnv_some_prog, update_of_ne (hne t ht), Pool.afterOp_prog, update_of_ne (by simp)]
    exact h.begun t ht
  · rw [Pool.afterEnv_some_prog]
    show _ = Prog.ret (Ctl.loop ((p.shared.mem.accept fd peerIp).conns c).fd)
    rcases Nat.lt_succ_iff_lt_or_eq.1 hlt with hlt | rfl
    · have hold : Tid.handler c ≠ .handler p.shared.mem.nextConn := fun heq =>
        Nat.ne_of_lt hlt (Tid.handler.inj heq)
      rw [update_of_ne hold, accept_conns_of_ne _ fd peerIp (Nat.ne_of_lt hlt)]
      exact h.waits c hc hlt
    · rw [accept_conns_self]
      exact update_self _ _ _

/-- An operation of the main thread accepts a connection, or is none of the server. -/
theorem SameServer.main (h : SameServer p q) (hsound : Sound p qs) {o : RunOp}
    {k : o.Resp → Prog Run RunCtl} {ch : RunChoice} {r : o.Resp} {w : RunWorld}
    (he : p.shared.exec cfg .main o ch = some (r, w)) (hallows : (qs .main).Allows .main o) :
    ∃ q', (q' = q ∨ ∃ l, (machine cfg).step q l = some q') ∧
      SameServer (p.afterOp .main o k r w) q' := by
  have hkeep : ∀ w', w'.base = p.shared.base → w'.started = p.shared.started →
      SameServer (p.afterOp .main o k r w') q := by
    intro w' hbase hstarted
    refine h.keep hbase hstarted ?_ fun t => ?_
    · rw [Pool.afterOp_log, List.filterMap_append]
      exact List.append_nil _
    · rw [Pool.afterOp_prog, update_of_ne (by simp)]
  cases o with
  | mem o =>
    cases o with
    | running | getPeerIp =>
      cases he
      exact ⟨q, Or.inl rfl, hkeep _ rfl rfl⟩
    | _ => exact hallows.elim
  | accept =>
    rw [RunWorld.exec] at he
    split at he
    · cases he
      exact ⟨q, Or.inl rfl, hkeep _ rfl rfl⟩
    · split at he
      · rename_i hfree
        cases he
        obtain ⟨q', hstep, hfollows⟩ := h.accept hsound hfree.2
        exact ⟨q', Or.inr ⟨_, hstep⟩, hfollows⟩
      · cases he
  | emplaceBack fd =>
    cases he
    unfold RunWorld.emplaceBack
    split
    · exact ⟨q, Or.inl rfl, hkeep _ rfl rfl⟩
    · exact ⟨q, Or.inl rfl, hkeep _ rfl rfl⟩
  | _ => exact hallows.elim

/-- A thread passes a control point. -/
theorem SameServer.jump (h : SameServer p q) (hsound : Sound p qs) {t : RunTid} {p' : RunState}
    (hs : (runMachine cfg).step p (.jump t) = some p') :
    ∃ q', (q' = q ∨ ∃ l, (machine cfg).step q l = some q') ∧ SameServer p' q' := by
  obtain ⟨c, hprog, rfl⟩ := Machine.step_jump.1 hs
  cases t with
  | main | stop =>
    refine ⟨q, Or.inl rfl, h.keep rfl rfl rfl fun t => ?_⟩
    rw [Pool.withProg_prog, update_of_ne (by simp)]
  | server t =>
    by_cases hc : c = .unstarted
    · subst hc
      refine ⟨q, Or.inl rfl, h.keep rfl rfl rfl fun u => ?_⟩
      rw [Pool.withProg_prog]
      by_cases hu : u = t
      · subst hu
        rw [update_self, hprog]
        rfl
      · exact update_of_ne (fun heq => hu (RunTid.server.inj heq)) _ _
    · have hbegun := hsound.begun (t := t) (by rw [hprog]; simpa using hc)
      obtain ⟨c', hq, rfl⟩ := inRun_ret (hprog.symm.trans (h.begun t hbegun))
      refine ⟨_, Or.inr ⟨.jump t, Machine.step_jump.2 ⟨c', hq, rfl⟩⟩, ?_⟩
      exact h.advance hbegun h.shared h.log rfl rfl rfl rfl fun _ => rfl

/-- What the peers and the clock do to the server. -/
theorem RunWorld.env_base {w w' : RunWorld} {e : Env} {start : Option (RunTid × RunCtl)}
    (h : w.env (.net e) = some (w', start)) :
    start = none ∧ ∃ b, w.base.env e = some (b, none) ∧ w' = { w with base := b } ∧
      w.mem.Frame b.mem := by
  cases e with
  | accept fd peerIp => cases h
  | clientSend | clientClose | tick =>
    unfold env at h
    obtain ⟨⟨b, start'⟩, henv, hx⟩ := Option.map_eq_some_iff.1 h
    cases hx
    rcases World.env_mem_cases henv with ⟨rfl, hf, -⟩ | ⟨_, _, haccept, -⟩
    · exact ⟨rfl, b, henv, rfl, hf⟩
    · cases haccept

/-- A thread begins to run, or the peers and the clock go on. -/
theorem SameServer.env (h : SameServer p q) (hsound : Sound p qs) {e : RunEnv} {p' : RunState}
    (hs : (runMachine cfg).step p (.env e) = some p') (hstop : NoStop p (.env e)) :
    ∃ q', (q' = q ∨ ∃ l, (machine cfg).step q l = some q') ∧ SameServer p' q' := by
  obtain ⟨w, start, he, rfl⟩ := Machine.step_env.1 hs
  cases e with
  | callStop => exact hstop.elim
  | start c =>
    obtain ⟨hc, he⟩ := Option.ite_none_right_eq_some.1 he
    cases he
    have hwaits := h.waits c hc.2 (hsound.handlers.threads c hc.1)
    refine ⟨q, Or.inl rfl, h.shared, ?_, fun t ht => ?_, fun d hd hlt => ?_⟩
    · rw [Pool.afterEnv_log]
      exact h.log
    · rw [Pool.afterEnv_some_prog]
      by_cases htc : t = .handler c
      · subst htc
        rw [update_self, hwaits]
        rfl
      · rw [update_of_ne fun heq => htc (RunTid.server.inj heq)]
        refine h.begun t ?_
        cases t with
        | watchdog => trivial
        | handler d =>
          have hd : update p.shared.started c true d = true := ht
          rwa [update_of_ne fun heq => htc (congrArg Tid.handler heq)] at hd
    · have hne : d ≠ c := by
        rintro rfl
        have htrue : update p.shared.started d true d = false := hd
        rw [update_self] at htrue
        cases htrue
      have hd' : update p.shared.started c true d = false := hd
      rw [update_of_ne hne] at hd'
      exact h.waits d hd' hlt
  | net e =>
    obtain ⟨rfl, b, hb, rfl, hf⟩ := RunWorld.env_base he
    have henv : (machine cfg).env e q.shared = some (b, none) := by
      rw [h.shared]
      exact hb
    refine ⟨_, Or.inr ⟨.env e, Machine.step_env.2 ⟨b, none, henv, rfl⟩⟩, rfl, h.log, h.begun, ?_⟩
    intro c hc hlt
    show q.prog _ = Prog.ret (Ctl.loop (b.mem.conns c).fd)
    rw [hf.connFd]
    exact h.waits c hc (hf.nextConn ▸ hlt)

/-- Each step of the whole program is one of the server, or none. -/
theorem SameServer.step (h : SameServer p q)
    (hsound : Machine.Monitored dutyMonitor DutyAt Sound p qs) {l : RunStep} {p' : RunState}
    (hs : (runMachine cfg).step p l = some p') (hstop : NoStop p l)
    (hcalls : p.shared.calls = 0) :
    ∃ q', (q' = q ∨ ∃ l, (machine cfg).step q l = some q') ∧ SameServer p' q' := by
  obtain ⟨hobeys, hsound⟩ := hsound
  cases l with
  | op t ch =>
    cases t with
    | server t =>
      obtain ⟨q', hstep, hfollows⟩ := h.server hsound hs
      exact ⟨q', Or.inr ⟨_, hstep⟩, hfollows⟩
    | main =>
      obtain ⟨o, k, r, w, hprog, he, rfl⟩ := Machine.step_op.1 hs
      have hmain := hobeys .main
      rw [hprog] at hmain
      exact h.main hsound he (Prog.obeys_det_call.1 hmain).1
    | stop n =>
      obtain ⟨o, k, r, w, hprog, -, -⟩ := Machine.step_op.1 hs
      rw [hsound.idle n (hcalls ▸ Nat.zero_le n)] at hprog
      cases hprog
  | jump t => exact h.jump hsound hs
  | env e => exact h.env hsound hs hstop

end Step

/-- No thread calls `stop`. -/
theorem RunWorld.exec_calls {cfg : Config} {w w' : RunWorld} {t : RunTid} {o : RunOp}
    {ch : RunChoice} {r : o.Resp} (h : w.exec cfg t o ch = some (r, w')) : w'.calls = w.calls := by
  cases o with
  | server o =>
    cases t with
    | server t => exact (served h).calls
    | main | stop => cases h
  | mem o =>
    obtain ⟨_, _, hx⟩ := Option.map_eq_some_iff.1 h
    cases hx
    rfl
  | accept =>
    rw [exec] at h
    split at h
    · cases h
      rfl
    · obtain ⟨_, h⟩ := Option.ite_none_right_eq_some.1 h
      cases h
      rfl
  | emplaceBack fd =>
    cases h
    unfold emplaceBack
    split <;> rfl
  | closeSessions =>
    obtain ⟨_, h⟩ := Option.ite_none_right_eq_some.1 h
    cases h
    exact (w.swept_closeSessions ch.order).calls
  | joinWatchdog | join =>
    obtain ⟨_, h⟩ := Option.ite_none_right_eq_some.1 h
    cases h
    rfl
  | clearRunning | closeListen | clientThreads =>
    cases h
    rfl

theorem calls_eq_zero {cfg : Config} {p : RunState} (h : (runSystem cfg).Reaches NoStop p) :
    p.shared.calls = 0 := by
  refine h.invariant (I := fun p => p.shared.calls = 0) rfl ?_
  intro p l p' _ hI hstop hs
  cases l with
  | op t ch =>
    obtain ⟨o, k, r, w, -, he, rfl⟩ := Machine.step_op.1 hs
    exact (RunWorld.exec_calls he).trans hI
  | jump t =>
    obtain ⟨c, -, rfl⟩ := Machine.step_jump.1 hs
    exact hI
  | env e =>
    obtain ⟨w, start, he, rfl⟩ := Machine.step_env.1 hs
    rw [Pool.afterEnv_shared]
    cases e with
    | callStop => exact hstop.elim
    | start c =>
      obtain ⟨_, he⟩ := Option.ite_none_right_eq_some.1 he
      cases he
      exact hI
    | net e =>
      obtain ⟨-, b, -, rfl, -⟩ := RunWorld.env_base he
      exact hI

/-- As long as `stop` is not called, the whole program does what the server does: with
the same memory, the same frames on each connection and the same history. -/
theorem run_follows {cfg : Config} {p : RunState} (h : (runSystem cfg).Reaches NoStop p) :
    ∃ q, (system cfg).Reaches Lts.Any q ∧ SameServer p q := by
  refine h.invariant (I := fun p => ∃ q, (system cfg).Reaches Lts.Any q ∧ SameServer p q) ?_ ?_
  · refine ⟨(system cfg).init, .init, rfl, rfl, fun t ht => ?_, fun c _ hc => ?_⟩
    · cases t with
      | watchdog => rfl
      | handler c => cases ht
    · exact absurd hc (Nat.not_lt_zero c)
  · intro p l p' hp hI hstop hs
    obtain ⟨q, hq, hfollows⟩ := hI
    obtain ⟨qs, hsound⟩ := reachable_sound hp
    obtain ⟨q', hstep, hfollows'⟩ := hfollows.step hsound hs hstop (calls_eq_zero hp)
    refine ⟨q', ?_, hfollows'⟩
    rcases hstep with rfl | ⟨l', hstep⟩
    · exact hq
    · exact hq.tail trivial hstep

/-- A client registers, and another one connects, whose handler has not begun. -/
def acceptedRun : List RunStep :=
  [.jump .main, .op .main {}, .op .main { conn := some (4, "10.0.0.1") }, .op .main {},
    .op .main {}, .env (.start 0), .env (.net (.clientSend 0 [1, 0, 0, 0, 3, 10, 1, 97]))] ++
    .jump (.server (.handler 0)) ::
      List.replicate 6 (.op (.server (.handler 0)) { want := 100 }) ++
  [.jump .main, .op .main {}, .op .main { conn := some (5, "10.0.0.2") }]

theorem run_follows_accepted :
    ∃ p, (runSystem sampleConfig).Reaches NoStop p ∧ p.shared.started 1 = false ∧
      ∃ q, (system sampleConfig).Reaches Lts.Any q ∧ SameServer p q ∧
        q.shared.mem.findUser "a" = some 0 ∧ q.shared.mem.nextConn = 2 := by
  have ⟨p, hp, hrun⟩ := Lts.exists_reaches_of_runIf (L := runSystem sampleConfig) (C := NoStop)
    acceptedRun
    (fun p => !p.shared.started 1 && decide (p.shared.mem.findUser "a" = some 0) &&
      decide (p.shared.mem.nextConn = 2)) (by decide +kernel)
  simp only [Bool.and_eq_true, decide_eq_true_eq, Bool.not_eq_true'] at hrun
  obtain ⟨⟨hstarted, hfind⟩, hnext⟩ := hrun
  obtain ⟨q, hq, hfollows⟩ := run_follows hp
  refine ⟨p, hp, hstarted, q, hq, hfollows, ?_, ?_⟩
  · rw [hfollows.shared]
    exact hfind
  · rw [hfollows.shared]
    exact hnext

end SimpleChat
