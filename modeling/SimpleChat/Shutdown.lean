import SimpleChat.HandleClient

/-!
# Stopping the server

`run` accepts connections in the main thread and starts a thread for each of
them.  `stop` may be called at any time: by the signal handler, and by the
destructor.  Here the accept loop is a thread, and so is each call of `stop`.
The other threads run the programs of `SimpleChat.Server`.

A thread has ended when it has performed the last operation of its function.
This is what a `join` waits for.  `shut`, `closes` and `swept` are history
variables: the connections whose socket was shut down, how often the descriptor
of a connection was passed to `::close`, and whether `stop` has closed the
sessions.
-/

namespace SimpleChat

open Conc Function

/-! ## The programs -/

inductive RunTid where
  | server (t : Tid)
  | main
  /-- One call of `stop`. -/
  | stop (call : Nat)
  deriving DecidableEq

inductive RunOp where
  | server (o : ServerOp)
  /-- An operation of the accept loop that the handlers perform, too. -/
  | mem (o : MemOp)
  | accept
  /-- `client_threads_.emplace_back`. -/
  | emplaceBack (fd : Fd)
  /-- `running_ = false`. -/
  | clearRunning
  /-- `::shutdown` and `::close` of `listen_fd_`. -/
  | closeListen
  | joinWatchdog
  /-- The block under `sessions_mutex_`. -/
  | closeSessions
  /-- The bounds of the loop over `client_threads_`. -/
  | clientThreads
  | join (c : ConnId)
  deriving DecidableEq

@[reducible] def RunOp.Resp : RunOp → Type
  | .server o => o.Resp
  | .mem o => o.Resp
  | .accept => Option Fd
  | .emplaceBack _ => Unit
  | .clearRunning => Unit
  | .closeListen => Unit
  | .joinWatchdog => Unit
  | .closeSessions => Unit
  | .clientThreads => List ConnId
  | .join _ => Unit

/-- The signature of the threads of the whole program. -/
abbrev Run : Sig := ⟨RunOp, RunOp.Resp⟩

inductive RunCtl where
  | server (c : Ctl)
  /-- The head of the accept loop. -/
  | accepting
  /-- The beginning of `stop`. -/
  | stopping
  /-- The thread has not started. -/
  | unstarted
  /-- `run` or `stop` has returned. -/
  | returned
  deriving DecidableEq

/-- One turn of the accept loop of `run`. -/
def acceptLoop : Prog Run RunCtl := do
  if !(← Prog.perform (S := Run) (.mem .running)) then pure .returned
  else
    match ← Prog.perform (S := Run) .accept with
    | none =>
      -- The error is logged if the server still runs.
      let _ ← Prog.perform (S := Run) (.mem .running)
      pure .accepting
    | some fd =>
      let _ ← Prog.perform (S := Run) (.mem (.getPeerIp fd))
      Prog.perform (S := Run) (.emplaceBack fd)
      pure .accepting

/-- `stop`. -/
def stop : Prog Run RunCtl := do
  Prog.perform (S := Run) .clearRunning
  Prog.perform (S := Run) .closeListen
  Prog.perform (S := Run) .joinWatchdog
  Prog.perform (S := Run) .closeSessions
  let threads ← Prog.perform (S := Run) .clientThreads
  threads.forM fun c => Prog.perform (S := Run) (.join c)
  pure .returned

/-- The operations of `Server` among those of the whole program. -/
def serverEmbedding : Prog.Embedding Server Run where
  op o := .server o
  resp _ r := r

variable (cfg : Config)

def RunCtl.program : RunCtl → Prog Run RunCtl
  | .server c => (c.program cfg).lift serverEmbedding >>= fun c' => pure (.server c')
  | .accepting => acceptLoop
  | .stopping => stop
  | .unstarted => pure .unstarted
  | .returned => pure .returned

/-! ## The machine -/

/-- `::shutdown(fd, SHUT_RDWR)`: the stream of the peer ends. -/
def Memory.shutdown (m : Memory) (fd : Fd) : Memory :=
  match m.fds fd with
  | none => m
  | some c => m.modifyConn c fun conn => { conn with eof := true }

/-- The shared state of the whole program. -/
structure RunWorld where
  base : World
  /-- `listen_fd_` is open. -/
  listening : Bool
  clientThreads : List ConnId
  started : ConnId → Bool
  ended : Tid → Bool
  /-- How often `stop` was called. -/
  calls : Nat
  shut : ConnId → Bool
  closes : ConnId → Nat
  swept : Bool

/-- What an operation leaves open, and the connection that `accept` returns, if
any. -/
structure RunChoice extends Choice where
  conn : Option (Fd × String) := none

inductive RunEnv where
  /-- `stop` is called. -/
  | callStop
  /-- The thread that `emplace_back` created begins to run. -/
  | start (c : ConnId)
  | net (e : Env)

namespace RunWorld

variable (w : RunWorld)

abbrev mem : Memory := w.base.mem

/-- The same program with other shared memory. -/
def withMem (m : Memory) : RunWorld := { w with base := { w.base with mem := m } }

/-- One more call of `::close` for the descriptor of connection `c`. -/
def countClose (c : ConnId) : RunWorld := { w with closes := update w.closes c (w.closes c + 1) }

/-- `handle_client` ends with `::close`, and `watchdog_loop` when it finds that
the server does not run. -/
def finish (t : Tid) : (o : ServerOp) → o.Resp → RunWorld
  | .mem (.close _), _ =>
    match t with
    | .handler c => { w.countClose c with ended := update w.ended (.handler c) true }
    | .watchdog => w
  | .mem .running, running =>
    if t = .watchdog ∧ running = false then { w with ended := update w.ended .watchdog true } else w
  | _, _ => w

/-- The body of the loop over `sessions_` in `stop`. -/
def closeSession (fd : Fd) (s : SessionRef) : RunWorld :=
  let m := w.mem.modify s fun i => { i with alive := false }
  { (w.countClose (w.mem.registeredOn s)).withMem ((m.shutdown fd).close fd) with
    shut := match w.mem.fds fd with
      | none => w.shut
      | some c => update w.shut c true }

/-- The loop over `sessions_` in `stop`. -/
def closeSessions : List Fd → RunWorld → RunWorld
  | [], w => w
  | fd :: todo, w =>
    match w.mem.registry.sessions.lookup fd with
    | none => closeSessions todo w
    | some s => closeSessions todo (w.closeSession fd s)

/-- `client_threads_.emplace_back` with the descriptor of a new connection. -/
def emplaceBack (fd : Fd) : RunWorld :=
  match w.mem.fds fd with
  | none => w
  | some c => { w with clientThreads := w.clientThreads ++ [c] }

/-- The effect and the response of an operation, if its thread need not wait. -/
def exec (t : RunTid) : (o : RunOp) → RunChoice → Option (o.Resp × RunWorld)
  | .server o, ch =>
    match t with
    | .server t => (w.base.exec cfg t o ch.toChoice).map fun x =>
        (x.1, { w.finish t o x.1 with base := x.2 })
    | _ => none
  | .mem o, ch =>
    (w.mem.exec cfg.idleTimeoutSec o ch.toChoice).map fun x => (x.1, w.withMem x.2)
  | .accept, ch =>
    match ch.conn with
    | none => some (none, w)
    | some (fd, peerIp) =>
      if w.listening ∧ w.mem.fds fd = none then some (some fd, w.withMem (w.mem.accept fd peerIp))
      else none
  | .emplaceBack fd, _ => some ((), w.emplaceBack fd)
  | .clearRunning, _ => some ((), w.withMem { w.mem with running := false })
  | .closeListen, _ => some ((), { w with listening := false })
  | .joinWatchdog, _ => if w.ended .watchdog then some ((), w) else none
  | .closeSessions, ch =>
    if w.mem.IterationOrder ch.order then
      some ((), { closeSessions ch.order w with swept := true })
    else none
  | .clientThreads, _ => some (w.clientThreads, w)
  | .join c, _ => if w.ended (.handler c) then some ((), w) else none

/-- The effect of a step of the environment, and the thread it starts. -/
def env : RunEnv → Option (RunWorld × Option (RunTid × RunCtl))
  | .callStop => some ({ w with calls := w.calls + 1 }, some (.stop w.calls, .stopping))
  | .start c =>
    if c ∈ w.clientThreads ∧ w.started c = false then
      some ({ w with started := update w.started c true },
        some (.server (.handler c), .server (.loop (w.mem.conns c).fd)))
    else none
  | .net (.accept _ _) => none
  | .net e => (w.base.env e).map fun x => ({ w with base := x.1 }, none)

end RunWorld

/-- How the threads of the whole program run. -/
def runMachine : Machine Run RunTid RunCtl RunWorld RunChoice RunEnv where
  exec t w o ch := w.exec cfg t o ch
  resume _ c := c.program cfg
  env e w := w.env e

abbrev RunState := Pool Run RunTid RunCtl RunWorld

abbrev RunStep := Label RunTid RunChoice RunEnv

/-- The server when `run` begins to accept connections. -/
def RunWorld.init : RunWorld where
  base := ⟨.init, fun _ => []⟩
  listening := true
  clientThreads := []
  started _ := false
  ended _ := false
  calls := 0
  shut _ := false
  closes _ := 0
  swept := false

def runStart : RunTid → RunCtl
  | .server .watchdog => .server .watchdog
  | .server (.handler _) => .unstarted
  | .main => .accepting
  | .stop _ => .unstarted

/-- The whole program. -/
def runSystem : Lts RunState RunStep := (runMachine cfg).toLts .init runStart

/-! ## The protocol of the threads -/

/-- The phase of a handler, and how far a call of `stop` has come. -/
structure Duty where
  phase : Phase
  stage : Nat

/-- What a thread may do. -/
def Duty.Allows (q : Duty) : RunTid → RunOp → Prop
  | .server t, .server o => (phaseMonitor t).guard q.phase o
  | .main, .mem .running => True
  | .main, .mem (.getPeerIp _) => True
  | .main, .accept => True
  | .main, .emplaceBack _ => True
  | .stop _, .clearRunning => q.stage = 0
  | .stop _, .closeListen => q.stage = 1
  | .stop _, .joinWatchdog => q.stage = 2
  | .stop _, .closeSessions => q.stage = 3
  | .stop _, .clientThreads => q.stage = 4
  | .stop _, .join _ => q.stage = 5
  | _, _ => False

def Duty.after (q : Duty) : RunOp → Duty
  | .server o => { q with phase := q.phase.after o }
  | .clearRunning => { q with stage := 1 }
  | .closeListen => { q with stage := 2 }
  | .joinWatchdog => { q with stage := 3 }
  | .closeSessions => { q with stage := 4 }
  | .clientThreads => { q with stage := 5 }
  | _ => q

def dutyMonitor (t : RunTid) : Prog.Monitor Run Duty :=
  .det (fun q o => q.Allows t o) fun q o _ => q.after o

/-- Where a thread passes a control point. -/
def DutyAt (t : RunTid) (c : RunCtl) (q : Duty) : Prop :=
  match t, c with
  | .server t, .server c => PhaseAt t c q.phase
  | .server (.handler _), .unstarted => q.phase.life = .serving
  | .main, .accepting => True
  | .main, .returned => True
  | .stop _, .unstarted => q.stage = 0
  | .stop _, .stopping => q.stage = 0
  | .stop _, .returned => q.stage = 5
  | _, _ => False

variable {cfg}

theorem server_duty (t : Tid) (c : Ctl) {q : Duty} (h : PhaseAt t c q.phase) :
    ((RunCtl.server c).program cfg).Obeys (dutyMonitor (.server t)) (DutyAt (.server t)) q := by
  have hlift := Prog.Obeys.lift_along (φ := serverEmbedding) (N := dutyMonitor (.server t))
    (R := fun phase q => phase = q.phase) ?_ ?_ (program_obeys cfg h) rfl
  · refine hlift.bind fun c' q' ⟨phase, hphase, hc'⟩ => ?_
    rw [hphase] at hc'
    exact hc'
  · intro phase q o hphase hguard
    rw [hphase] at hguard
    exact hguard
  · intro phase q o r phase' hphase hnext
    rw [hphase] at hnext
    exact ⟨q.after (.server o), rfl, hnext⟩

theorem acceptLoop_duty (q : Duty) :
    acceptLoop.Obeys (dutyMonitor .main) (DutyAt .main) q := by
  refine Prog.obeys_det_call.2 ⟨trivial, fun running => ?_⟩
  cases running with
  | false => trivial
  | true =>
    refine Prog.obeys_det_call.2 ⟨trivial, fun conn => ?_⟩
    cases conn with
    | none => exact Prog.obeys_det_call.2 ⟨trivial, fun _ => trivial⟩
    | some fd =>
      exact Prog.obeys_det_call.2 ⟨trivial, fun _ => Prog.obeys_det_call.2 ⟨trivial, fun _ => trivial⟩⟩

theorem joinAll_duty (n : Nat) (threads : List ConnId) {q : Duty} (h : q.stage = 5) :
    (threads.forM fun c => Prog.perform (S := Run) (.join c)).Obeys (dutyMonitor (.stop n))
      (fun _ q' => q' = q) q := by
  have honly : (threads.forM fun c => Prog.perform (S := Run) (.join c)).Only
      fun o : RunOp => ∃ c, o = .join c := .forM fun c _ => .perform ⟨c, rfl⟩
  refine honly.obeys (fun o ⟨c, ho⟩ => ?_) (fun o r ⟨c, ho⟩ => ?_)
  · rw [ho]
    exact h
  · subst ho
    rfl

theorem stop_duty (n : Nat) {q : Duty} (h : q.stage = 0) :
    stop.Obeys (dutyMonitor (.stop n)) (DutyAt (.stop n)) q := by
  refine Prog.obeys_det_call.2 ⟨h, fun _ => ?_⟩
  refine Prog.obeys_det_call.2 ⟨rfl, fun _ => ?_⟩
  refine Prog.obeys_det_call.2 ⟨rfl, fun _ => ?_⟩
  refine Prog.obeys_det_call.2 ⟨rfl, fun _ => ?_⟩
  refine Prog.obeys_det_call.2 ⟨rfl, fun threads => ?_⟩
  refine (joinAll_duty n threads rfl).bind fun _ q' hq' => ?_
  rw [hq']
  rfl

/-- The programs of the threads obey the protocol. -/
theorem program_duty (cfg : Config) {t : RunTid} {c : RunCtl} {q : Duty} (h : DutyAt t c q) :
    (c.program cfg).Obeys (dutyMonitor t) (DutyAt t) q := by
  match t, c, h with
  | .server t, .server c, h => exact server_duty t c h
  | .server (.handler _), .unstarted, h => exact h
  | .main, .accepting, _ => exact acceptLoop_duty q
  | .main, .returned, _ => trivial
  | .stop _, .unstarted, h => exact h
  | .stop n, .stopping, h => exact stop_duty n h
  | .stop _, .returned, h => exact h

/-! ## The invariant -/

/-- How the shared state and the phases of the handlers fit together. -/
structure RunWorld.Handlers (w : RunWorld) (phase : ConnId → Phase) : Prop where
  ended : ∀ c, w.ended (.handler c) = true ↔ (phase c).life = .closed
  threads : ∀ c ∈ w.clientThreads, c < w.mem.nextConn
  started : ∀ c, w.started c = true →
    c < w.mem.nextConn ∧ (phase c).fd = (w.mem.conns c).fd
  bounded : ∀ fd c, w.mem.fds fd = some c → c < w.mem.nextConn
  fresh : ∀ c, w.started c = false → (phase c).life = .serving

/-- What the calls of `stop` have brought about. -/
structure RunWorld.Stopped (w : RunWorld) (stage : Nat → Nat) : Prop where
  running : ∀ n, 1 ≤ stage n → w.mem.running = false
  listening : ∀ n, 2 ≤ stage n → w.listening = false
  swept : ∀ n, 4 ≤ stage n → w.swept = true
  uncalled : ∀ n, w.calls ≤ n → stage n = 0

/-- While no call of `stop` has closed the sessions, the descriptor of a handler
that has not ended is open. -/
def RunWorld.Opened (w : RunWorld) : Prop :=
  w.swept = false → ∀ c, c < w.mem.nextConn → w.ended (.handler c) = false →
    w.mem.fds (w.mem.conns c).fd = some c

structure Sound (p : RunState) (qs : RunTid → Duty) : Prop where
  handlers : p.shared.Handlers fun c => (qs (.server (.handler c))).phase
  stopped : p.shared.Stopped fun n => (qs (.stop n)).stage
  opened : p.shared.Opened
  rests : ∀ c, p.shared.started c = false → p.prog (.server (.handler c)) = .ret .unstarted
  idle : ∀ n, p.shared.calls ≤ n → p.prog (.stop n) = .ret .unstarted

section Keep

variable {p : RunState} {qs : RunTid → Duty}

/-- What an operation of a thread of the server does to descriptors. -/
theorem exec_descriptors {t : Tid} {w w' : World} {o : ServerOp} {ch : Choice} {r : o.Resp}
    (h : w.exec cfg t o ch = some (r, w')) :
    (∀ c, (w'.mem.conns c).fd = (w.mem.conns c).fd) ∧
      (w'.mem.fds = w.mem.fds ∨
        ∃ fd, o = .mem (.close fd) ∧ w'.mem.fds = update w.mem.fds fd none) := by
  rcases World.exec_mem_cases h with ⟨hf, _⟩ | ⟨fd, _, hm⟩ | ⟨fd, ho, hm⟩ | ⟨c, fd, u, a, _, _, hm⟩
  · exact ⟨hf.connFd, Or.inl hf.fds⟩
  · rw [hm, Memory.removeSession_conns, Memory.removeSession_fds]
    exact ⟨fun _ => rfl, Or.inl rfl⟩
  · rw [hm]
    exact ⟨fun _ => rfl, Or.inr ⟨fd, ho, rfl⟩⟩
  · rw [hm, Memory.register_fds]
    refine ⟨fun d => ?_, Or.inl rfl⟩
    rw [Memory.register_conns]

/-- A handler has closed its descriptor if it had before, or if it does now. -/
theorem Phase.after_closed {q : Phase} {o : ServerOp} (h : q.Allows o) :
    (q.after o).life = .closed ↔ q.life = .closed ∨ ∃ fd, o = .mem (.close fd) := by
  by_cases hremove : ∃ fd, o = .mem (.removeSession fd)
  · obtain ⟨fd, ho⟩ := hremove
    subst ho
    have hserving : q.life = .serving := h.1
    simp [Phase.after, hserving]
  · by_cases hclose : ∃ fd, o = .mem (.close fd)
    · obtain ⟨fd, ho⟩ := hclose
      subst ho
      simp [Phase.after]
    · rw [Phase.after_eq (fun fd ho => hremove ⟨fd, ho⟩) fun fd ho => hclose ⟨fd, ho⟩]
      exact (or_iff_left hclose).symm

theorem Phase.after_fd (q : Phase) (o : ServerOp) : (q.after o).fd = q.fd := by
  unfold Phase.after
  split <;> rfl

section Finish

variable {w : RunWorld} {t : Tid} {o : ServerOp} {r : o.Resp}

theorem RunWorld.finish_ended {c : ConnId} :
    (w.finish t o r).ended (.handler c) = true ↔
      w.ended (.handler c) = true ∨ t = .handler c ∧ ∃ fd, o = .mem (.close fd) := by
  unfold finish
  split
  · split
    · rename_i fd d
      by_cases hd : c = d
      · simp [hd]
      · simp [hd, Ne.symm hd]
    · simp
  · split
    · simp
    · simp
  · rename_i hclose _
    refine (or_iff_left fun ⟨_, fd, ho⟩ => ?_).symm
    subst ho
    exact hclose fd r rfl HEq.rfl

theorem RunWorld.finish_rest :
    (w.finish t o r).listening = w.listening ∧ (w.finish t o r).clientThreads = w.clientThreads ∧
      (w.finish t o r).started = w.started ∧ (w.finish t o r).calls = w.calls ∧
      (w.finish t o r).shut = w.shut ∧ (w.finish t o r).swept = w.swept := by
  unfold finish
  split
  · split
    · exact ⟨rfl, rfl, rfl, rfl, rfl, rfl⟩
    · exact ⟨rfl, rfl, rfl, rfl, rfl, rfl⟩
  · split
    · exact ⟨rfl, rfl, rfl, rfl, rfl, rfl⟩
    · exact ⟨rfl, rfl, rfl, rfl, rfl, rfl⟩
  · exact ⟨rfl, rfl, rfl, rfl, rfl, rfl⟩

end Finish

/-- What an operation of a handler or of the watchdog does to the descriptors, and
to what only `stop` and the accept loop change. -/
structure RunWorld.Served (w w' : RunWorld) (t : Tid) (o : ServerOp) : Prop where
  running : w'.mem.running = w.mem.running
  nextConn : w'.mem.nextConn = w.mem.nextConn
  connFd : ∀ c, (w'.mem.conns c).fd = (w.mem.conns c).fd
  fds : w'.mem.fds = w.mem.fds ∨
    ∃ fd, o = .mem (.close fd) ∧ w'.mem.fds = update w.mem.fds fd none
  listening : w'.listening = w.listening
  clientThreads : w'.clientThreads = w.clientThreads
  started : w'.started = w.started
  calls : w'.calls = w.calls
  shut : w'.shut = w.shut
  swept : w'.swept = w.swept
  ended : ∀ c, w'.ended (.handler c) = true ↔
    w.ended (.handler c) = true ∨ t = .handler c ∧ ∃ fd, o = .mem (.close fd)

theorem RunWorld.served {w w' : RunWorld} {t : Tid} {o : ServerOp} {ch : RunChoice} {r : o.Resp}
    (he : w.exec cfg (.server t) (.server o) ch = some (r, w')) : w.Served w' t o := by
  obtain ⟨⟨r', b⟩, hexec, hx⟩ := Option.map_eq_some_iff.1 he
  cases hx
  have hrunning := exec_running hexec
  have hdescriptors := exec_descriptors hexec
  obtain ⟨hlistening, hthreads, hstarted, hcalls, hshut, hswept⟩ :=
    w.finish_rest (t := t) (r := r')
  exact ⟨hrunning.1, hrunning.2, hdescriptors.1, hdescriptors.2, hlistening, hthreads, hstarted,
    hcalls, hshut, hswept, fun _ => finish_ended⟩

/-- No descriptor is open that was not before. -/
theorem RunWorld.Served.fds_of {w w' : RunWorld} {t : Tid} {o : ServerOp} (h : w.Served w' t o)
    {fd : Fd} {c : ConnId} (hc : w'.mem.fds fd = some c) : w.mem.fds fd = some c := by
  rcases h.fds with hsame | ⟨k, _, hnone⟩
  · exact hsame ▸ hc
  · rw [hnone] at hc
    by_cases hk : fd = k
    · rw [hk, update_self] at hc
      cases hc
    · rw [update_of_ne hk] at hc
      exact hc

/-- A handler that performs an operation has started. -/
theorem Sound.started (h : Sound p qs) {c : ConnId} {o : RunOp} {k : o.Resp → Prog Run RunCtl}
    (hprog : p.prog (.server (.handler c)) = .call o k) : p.shared.started c = true := by
  by_contra hnot
  have hrests := h.rests c (Bool.eq_false_of_not_eq_true hnot)
  rw [hprog] at hrests
  cases hrests

section Server

variable {t : Tid} {o : ServerOp}

theorem phase_closed_iff (hguard : (phaseMonitor t).guard (qs (.server t)).phase o) (c : ConnId) :
    (update qs (.server t) ((qs (.server t)).after (.server o))
      (.server (.handler c))).phase.life = .closed ↔
      (qs (.server (.handler c))).phase.life = .closed ∨
        t = .handler c ∧ ∃ fd, o = .mem (.close fd) := by
  by_cases hc : t = .handler c
  · subst hc
    rw [update_self]
    simp only [true_and]
    exact Phase.after_closed hguard
  · rw [update_of_ne (by simpa using Ne.symm hc)]
    simp [hc]

theorem phase_fd (c : ConnId) :
    (update qs (.server t) ((qs (.server t)).after (.server o)) (.server (.handler c))).phase.fd =
      (qs (.server (.handler c))).phase.fd := by
  by_cases hc : t = .handler c
  · subst hc
    rw [update_self]
    exact Phase.after_fd _ _
  · rw [update_of_ne (by simpa using Ne.symm hc)]

variable {k : o.Resp → Prog Run RunCtl} {w : RunWorld}

/-- A handler that has not started is not the one that performs an operation. -/
theorem Sound.ne_of_not_started (h : Sound p qs)
    (hprog : p.prog (.server t) = .call (.server o) k) {c : ConnId}
    (hc : p.shared.started c = false) : (.server (.handler c) : RunTid) ≠ .server t := by
  intro ht
  rw [← ht] at hprog
  rw [h.started hprog] at hc
  cases hc

theorem Sound.served_handlers (h : Sound p qs)
    (hprog : p.prog (.server t) = .call (.server o) k) (hserved : p.shared.Served w t o)
    (hguard : (phaseMonitor t).guard (qs (.server t)).phase o) :
    w.Handlers fun c => (update qs (.server t) ((qs (.server t)).after (.server o))
      (.server (.handler c))).phase := by
  refine ⟨fun c => ?_, fun c hc => ?_, fun c hc => ?_, fun fd c hc => ?_, fun c hc => ?_⟩
  · rw [phase_closed_iff hguard, ← h.handlers.ended]
    exact hserved.ended c
  · rw [hserved.nextConn]
    exact h.handlers.threads c (hserved.clientThreads ▸ hc)
  · rw [hserved.nextConn, hserved.connFd, phase_fd]
    exact h.handlers.started c (hserved.started ▸ hc)
  · rw [hserved.nextConn]
    exact h.handlers.bounded fd c (hserved.fds_of hc)
  · have hc' : p.shared.started c = false := hserved.started ▸ hc
    rw [update_of_ne (h.ne_of_not_started hprog hc')]
    exact h.handlers.fresh c hc'

/-- A handler closes its own descriptor, and no other connection has it. -/
theorem Sound.served_opened (h : Sound p qs) (hprog : p.prog (.server t) = .call (.server o) k)
    (hserved : p.shared.Served w t o)
    (hguard : (phaseMonitor t).guard (qs (.server t)).phase o) : w.Opened := by
  intro hswept c hc hend
  rw [hserved.nextConn] at hc
  have hboth := mt (hserved.ended c).2 (Bool.eq_false_iff.1 hend)
  rw [not_or] at hboth
  have hold := h.opened (hserved.swept ▸ hswept) c hc (Bool.eq_false_of_not_eq_true hboth.1)
  rw [hserved.connFd]
  rcases hserved.fds with hsame | ⟨fd, ho, hnone⟩
  · rw [hsame]
    exact hold
  · rw [hnone, update_of_ne]
    · exact hold
    · subst ho
      cases t with
      | watchdog => exact hguard.elim
      | handler d =>
        obtain ⟨hremoved, hfd⟩ : (qs (.server (.handler d))).phase.life = .removed ∧
          fd = (qs (.server (.handler d))).phase.fd := hguard
        obtain ⟨hd, hserves⟩ := h.handlers.started d (h.started hprog)
        have hopen : p.shared.ended (.handler d) = false := by
          refine Bool.eq_false_of_not_eq_true fun hended => ?_
          have hlife := (h.handlers.ended d).1 hended
          rw [hremoved] at hlife
          cases hlife
        have hother := h.opened (hserved.swept ▸ hswept) d hd hopen
        rw [← hserves, ← hfd] at hother
        intro heq
        rw [heq] at hold
        have hcd : c = d := Option.some.inj (hold.symm.trans hother)
        exact hboth.2 ⟨by rw [hcd], fd, rfl⟩

/-- An operation of a handler or of the watchdog. -/
theorem Sound.server (h : Sound p qs) {ch : RunChoice} {r : o.Resp}
    (hprog : p.prog (.server t) = .call (.server o) k)
    (he : p.shared.exec cfg (.server t) (.server o) ch = some (r, w))
    (hguard : (phaseMonitor t).guard (qs (.server t)).phase o) :
    Sound (p.afterOp (.server t) (.server o) k r w)
      (update qs (.server t) ((qs (.server t)).after (.server o))) := by
  have hserved := RunWorld.served he
  have hstage : ∀ n, update qs (.server t) ((qs (.server t)).after (.server o)) (.stop n) =
      qs (.stop n) := fun n => update_of_ne (by simp) _ _
  refine ⟨h.served_handlers hprog hserved hguard,
    ⟨fun n hn => ?_, fun n hn => ?_, fun n hn => ?_, fun n hn => ?_⟩,
    h.served_opened hprog hserved hguard, fun c hc => ?_, fun n hn => ?_⟩
  · rw [hstage] at hn
    exact hserved.running.trans (h.stopped.running n hn)
  · rw [hstage] at hn
    exact hserved.listening.trans (h.stopped.listening n hn)
  · rw [hstage] at hn
    exact hserved.swept.trans (h.stopped.swept n hn)
  · rw [hstage]
    exact h.stopped.uncalled n (hserved.calls ▸ hn)
  · have hc' : p.shared.started c = false := hserved.started ▸ hc
    rw [Pool.afterOp_prog, update_of_ne (h.ne_of_not_started hprog hc')]
    exact h.rests c hc'
  · rw [Pool.afterOp_prog, update_of_ne (by simp)]
    exact h.idle n (hserved.calls ▸ hn)

end Server

/-- An operation that changes neither the shared state nor the duty of its thread. -/
theorem Sound.same (h : Sound p qs) {p' : RunState} (hshared : p'.shared = p.shared)
    (hrests : ∀ t, p.prog t = .ret .unstarted → p'.prog t = .ret .unstarted) : Sound p' qs := by
  refine ⟨hshared ▸ h.handlers, hshared ▸ h.stopped, hshared ▸ h.opened, fun c hc => ?_,
    fun n hn => ?_⟩
  · exact hrests _ (h.rests c (hshared ▸ hc))
  · exact hrests _ (h.idle n (hshared ▸ hn))

/-- `accept` returns a connection. -/
theorem Sound.accept (h : Sound p qs) {fd : Fd} {peerIp : String} {k : Option Fd → Prog Run RunCtl}
    (hfd : p.shared.mem.fds fd = none) :
    Sound (p.afterOp .main .accept k (some fd) (p.shared.withMem (p.shared.mem.accept fd peerIp)))
      qs := by
  have hconns : ∀ c, c < p.shared.mem.nextConn →
      (p.shared.mem.accept fd peerIp).conns c = p.shared.mem.conns c := fun c hc =>
    accept_conns_of_ne _ fd peerIp (Nat.ne_of_lt hc)
  refine ⟨⟨h.handlers.ended, fun c hc => ?_, fun c hc => ?_, fun k c hc => ?_, h.handlers.fresh⟩,
    ⟨h.stopped.running, h.stopped.listening, h.stopped.swept,
      h.stopped.uncalled⟩, fun hswept c hc hend => ?_,
    fun c hc => ?_, fun n hn => ?_⟩
  · exact Nat.lt_succ_of_lt (h.handlers.threads c hc)
  · have ⟨hlt, hserves⟩ := h.handlers.started c hc
    refine ⟨Nat.lt_succ_of_lt hlt, ?_⟩
    show _ = ((p.shared.mem.accept fd peerIp).conns c).fd
    rw [hconns c hlt]
    exact hserves
  · change update p.shared.mem.fds fd (some p.shared.mem.nextConn) k = some c at hc
    by_cases hk : k = fd
    · rw [hk, update_self] at hc
      rw [← Option.some.inj hc]
      exact Nat.lt_succ_self _
    · rw [update_of_ne hk] at hc
      exact Nat.lt_succ_of_lt (h.handlers.bounded k c hc)
  · show update p.shared.mem.fds fd _ ((p.shared.mem.accept fd peerIp).conns c).fd = some c
    rcases Nat.lt_succ_iff_lt_or_eq.1 hc with hlt | heq
    · rw [hconns c hlt]
      have hold := h.opened hswept c hlt hend
      rw [update_of_ne]
      · exact hold
      · intro heq
        rw [heq, hfd] at hold
        cases hold
    · subst heq
      rw [accept_conns_self, update_self]
  · rw [Pool.afterOp_prog, update_of_ne (by simp)]
    exact h.rests c hc
  · rw [Pool.afterOp_prog, update_of_ne (by simp)]
    exact h.idle n hn

/-- An operation of the accept loop. -/
theorem Sound.main (h : Sound p qs) {o : RunOp} {k : o.Resp → Prog Run RunCtl} {ch : RunChoice}
    {r : o.Resp} {w : RunWorld} (hprog : p.prog .main = .call o k)
    (he : p.shared.exec cfg .main o ch = some (r, w)) (hguard : (qs .main).Allows .main o) :
    Sound (p.afterOp .main o k r w) (update qs .main ((qs .main).after o)) := by
  have hrests : ∀ {r w} t, p.prog t = .ret .unstarted →
      (p.afterOp .main o k r w).prog t = .ret .unstarted := by
    intro r w t ht
    rw [Pool.afterOp_prog, update_of_ne]
    · exact ht
    · intro hmain
      rw [hmain, hprog] at ht
      cases ht
  cases o with
  | mem o =>
    cases o with
    | running =>
      cases he
      rw [show (qs .main).after (.mem .running) = qs .main from rfl, update_eq_self]
      exact h.same rfl hrests
    | getPeerIp fd =>
      cases he
      rw [show (qs .main).after (.mem (.getPeerIp fd)) = qs .main from rfl, update_eq_self]
      exact h.same rfl hrests
    | _ => exact hguard.elim
  | accept =>
    rw [show (qs .main).after .accept = qs .main from rfl, update_eq_self]
    rw [RunWorld.exec] at he
    split at he
    · cases he
      exact h.same rfl hrests
    · split at he
      · rename_i hfree
        cases he
        exact h.accept hfree.2
      · cases he
  | emplaceBack fd =>
    rw [show (qs .main).after (.emplaceBack fd) = qs .main from rfl, update_eq_self]
    cases he
    rw [RunWorld.emplaceBack]
    split
    · exact h.same rfl hrests
    · rename_i c hc
      have hlt := h.handlers.bounded fd c hc
      refine ⟨⟨h.handlers.ended, fun d hd => ?_, h.handlers.started, h.handlers.bounded,
        h.handlers.fresh⟩,
        ⟨h.stopped.running, h.stopped.listening, h.stopped.swept,
      h.stopped.uncalled⟩, h.opened,
        fun d hd => hrests _ (h.rests d hd), fun n hn => hrests _ (h.idle n hn)⟩
      rcases List.mem_append.1 hd with hd | hd
      · exact h.handlers.threads d hd
      · rw [List.mem_singleton.1 hd]
        exact hlt
  | _ => exact hguard.elim

/-- What the loop over `sessions_` in `stop` leaves as it is. -/
structure RunWorld.Swept (w w' : RunWorld) : Prop where
  running : w'.mem.running = w.mem.running
  registry : w'.mem.registry = w.mem.registry
  nextConn : w'.mem.nextConn = w.mem.nextConn
  connFd : ∀ c, (w'.mem.conns c).fd = (w.mem.conns c).fd
  fds : ∀ fd, w'.mem.fds fd = w.mem.fds fd ∨ w'.mem.fds fd = none
  listening : w'.listening = w.listening
  clientThreads : w'.clientThreads = w.clientThreads
  started : w'.started = w.started
  ended : w'.ended = w.ended
  calls : w'.calls = w.calls
  shut : ∀ c, w.shut c = true → w'.shut c = true

theorem RunWorld.Swept.refl (w : RunWorld) : w.Swept w :=
  ⟨rfl, rfl, rfl, fun _ => rfl, fun _ => Or.inl rfl, rfl, rfl, rfl, rfl, rfl, fun _ h => h⟩

theorem RunWorld.Swept.trans {w w' w'' : RunWorld} (h : w.Swept w') (h' : w'.Swept w'') :
    w.Swept w'' where
  running := h'.running.trans h.running
  registry := h'.registry.trans h.registry
  nextConn := h'.nextConn.trans h.nextConn
  connFd c := (h'.connFd c).trans (h.connFd c)
  fds fd := (h'.fds fd).elim (fun heq => (h.fds fd).imp heq.trans heq.trans) Or.inr
  listening := h'.listening.trans h.listening
  clientThreads := h'.clientThreads.trans h.clientThreads
  started := h'.started.trans h.started
  ended := h'.ended.trans h.ended
  calls := h'.calls.trans h.calls
  shut c hc := h'.shut c (h.shut c hc)

theorem Memory.shutdown_frame (m : Memory) (fd : Fd) : m.Frame (m.shutdown fd) := by
  unfold Memory.shutdown
  split
  · exact .refl m
  · exact .modifyConn _ _ fun _ => rfl

theorem RunWorld.swept_closeSession (w : RunWorld) (fd : Fd) (s : SessionRef) :
    w.Swept (w.closeSession fd s) := by
  have hf := (w.mem.modify s fun i => { i with alive := false }).shutdown_frame fd
  refine ⟨hf.running, hf.registry, hf.nextConn, hf.connFd, fun k => ?_, rfl, rfl, rfl, rfl, rfl,
    fun c hc => ?_⟩
  · have hclose : (w.closeSession fd s).mem.fds =
        update ((w.mem.modify s fun i => { i with alive := false }).shutdown fd).fds fd none := rfl
    rw [hclose]
    by_cases hk : k = fd
    · rw [hk, update_self]
      exact Or.inr rfl
    · rw [update_of_ne hk, hf.fds]
      exact Or.inl rfl
  · show (match w.mem.fds fd with
      | none => w.shut
      | some c => update w.shut c true) c = true
    cases w.mem.fds fd with
    | none => exact hc
    | some d =>
      show update w.shut d true c = true
      by_cases hd : c = d
      · rw [hd, update_self]
      · rw [update_of_ne hd]
        exact hc

theorem RunWorld.swept_closeSessions (w : RunWorld) (todo : List Fd) :
    w.Swept (closeSessions todo w) := by
  induction todo generalizing w with
  | nil => exact .refl w
  | cons fd todo ih =>
    unfold closeSessions
    split
    · exact ih w
    · exact (w.swept_closeSession fd _).trans (ih _)

theorem RunWorld.Handlers.swept {w w' : RunWorld} {phase : ConnId → Phase}
    (h : w.Handlers phase) (hs : w.Swept w') : w'.Handlers phase := by
  refine ⟨fun c => ?_, fun c hc => ?_, fun c hc => ?_, fun fd c hc => ?_,
    fun c hc => h.fresh c (hs.started ▸ hc)⟩
  · rw [hs.ended]
    exact h.ended c
  · rw [hs.nextConn]
    exact h.threads c (hs.clientThreads ▸ hc)
  · rw [hs.nextConn, hs.connFd]
    exact h.started c (hs.started ▸ hc)
  · rw [hs.nextConn]
    rcases hs.fds fd with heq | hnone
    · exact h.bounded fd c (heq ▸ hc)
    · rw [hnone] at hc
      cases hc

/-- An operation of `stop` that takes it one step further. -/
theorem Sound.advance (h : Sound p qs) {n : Nat} {o : RunOp} {k : o.Resp → Prog Run RunCtl}
    {r : o.Resp} {w : RunWorld} {stage : Nat} (hprog : p.prog (.stop n) = .call o k)
    (hhandlers : w.Handlers fun c => (qs (.server (.handler c))).phase)
    (hcalls : w.calls = p.shared.calls) (hstarted : w.started = p.shared.started)
    (hrunning : p.shared.mem.running = false ∨ 1 ≤ stage → w.mem.running = false)
    (hlistening : p.shared.listening = false ∨ 2 ≤ stage → w.listening = false)
    (hswept : p.shared.swept = true ∨ 4 ≤ stage → w.swept = true) (hopened : w.Opened) :
    Sound (p.afterOp (.stop n) o k r w)
      (update qs (.stop n) { qs (.stop n) with stage := stage }) := by
  have hself : (update qs (.stop n) { qs (.stop n) with stage := stage } (.stop n)).stage = stage := by
    rw [update_self]
  have hother : ∀ {m}, m ≠ n →
      update qs (.stop n) { qs (.stop n) with stage := stage } (.stop m) = qs (.stop m) := by
    intro m hm
    exact update_of_ne (by simpa using hm) _ _
  have hcalled : n < p.shared.calls := by
    by_contra hge
    have hidle := h.idle n (Nat.not_lt.1 hge)
    rw [hprog] at hidle
    cases hidle
  refine ⟨?_, ⟨fun m hm => ?_, fun m hm => ?_, fun m hm => ?_, fun m hm => ?_⟩, hopened,
    fun c hc => ?_, fun m hm => ?_⟩
  · have hsame : (fun c => (update qs (.stop n) { qs (.stop n) with stage := stage }
        (.server (.handler c))).phase) = fun c => (qs (.server (.handler c))).phase := by
      funext c
      rw [update_of_ne (by simp)]
    rw [hsame]
    exact hhandlers
  · by_cases hmn : m = n
    · subst hmn
      exact hrunning (Or.inr (hself ▸ hm))
    · rw [hother hmn] at hm
      exact hrunning (Or.inl (h.stopped.running m hm))
  · by_cases hmn : m = n
    · subst hmn
      exact hlistening (Or.inr (hself ▸ hm))
    · rw [hother hmn] at hm
      exact hlistening (Or.inl (h.stopped.listening m hm))
  · by_cases hmn : m = n
    · subst hmn
      exact hswept (Or.inr (hself ▸ hm))
    · rw [hother hmn] at hm
      exact hswept (Or.inl (h.stopped.swept m hm))
  · change w.calls ≤ m at hm
    rw [hcalls] at hm
    have hmn : m ≠ n := Nat.ne_of_gt (Nat.lt_of_lt_of_le hcalled hm)
    rw [hother hmn]
    exact h.stopped.uncalled m hm
  · rw [Pool.afterOp_shared, hstarted] at hc
    rw [Pool.afterOp_prog, update_of_ne (by simp)]
    exact h.rests c hc
  · rw [Pool.afterOp_shared, hcalls] at hm
    have hmn : m ≠ n := Nat.ne_of_gt (Nat.lt_of_lt_of_le hcalled hm)
    rw [Pool.afterOp_prog, update_of_ne (by simpa using hmn)]
    exact h.idle m hm

/-- An operation of `stop`. -/
theorem Sound.stop (h : Sound p qs) {n : Nat} {o : RunOp} {k : o.Resp → Prog Run RunCtl}
    {ch : RunChoice} {r : o.Resp} {w : RunWorld} (hprog : p.prog (.stop n) = .call o k)
    (he : p.shared.exec cfg (.stop n) o ch = some (r, w))
    (hguard : (qs (.stop n)).Allows (.stop n) o) :
    Sound (p.afterOp (.stop n) o k r w) (update qs (.stop n) ((qs (.stop n)).after o)) := by
  cases o with
  | clearRunning =>
    cases he
    have hhandlers : (p.shared.withMem { p.shared.mem with running := false }).Handlers _ :=
      ⟨h.handlers.ended, h.handlers.threads, h.handlers.started, h.handlers.bounded,
        h.handlers.fresh⟩
    exact h.advance hprog hhandlers rfl rfl (fun _ => rfl)
      (fun hor => hor.elim id fun hle => absurd hle (by decide))
      (fun hor => hor.elim id fun hle => absurd hle (by decide)) h.opened
  | closeListen =>
    cases he
    have hhandlers : { p.shared with listening := false }.Handlers _ :=
      ⟨h.handlers.ended, h.handlers.threads, h.handlers.started, h.handlers.bounded,
        h.handlers.fresh⟩
    have hstage : (qs (.stop n)).stage = 1 := hguard
    have hrunning := h.stopped.running n (Nat.le_of_eq hstage.symm)
    exact h.advance hprog hhandlers rfl rfl (fun _ => hrunning) (fun _ => rfl)
      (fun hor => hor.elim id fun hle => absurd hle (by decide)) h.opened
  | joinWatchdog =>
    rw [RunWorld.exec] at he
    split at he
    · cases he
      have hstage : (qs (.stop n)).stage = 2 := hguard
      have hrunning := h.stopped.running n (hstage ▸ by decide)
      have hlistening := h.stopped.listening n (Nat.le_of_eq hstage.symm)
      exact h.advance hprog h.handlers rfl rfl (fun _ => hrunning) (fun _ => hlistening)
        (fun hor => hor.elim id fun hle => absurd hle (by decide)) h.opened
    · cases he
  | closeSessions =>
    rw [RunWorld.exec] at he
    split at he
    · cases he
      have hstage : (qs (.stop n)).stage = 3 := hguard
      have hrunning := h.stopped.running n (hstage ▸ by decide)
      have hlistening := h.stopped.listening n (hstage ▸ by decide)
      have hswept := p.shared.swept_closeSessions ch.order
      have hhandlers := h.handlers.swept hswept
      exact h.advance hprog ⟨hhandlers.ended, hhandlers.threads, hhandlers.started,
        hhandlers.bounded, hhandlers.fresh⟩ hswept.calls hswept.started
        (fun _ => hswept.running.trans hrunning) (fun _ => hswept.listening.trans hlistening)
        (fun _ => rfl) fun hnot => (nomatch hnot)
    · cases he
  | clientThreads =>
    cases he
    have hstage : (qs (.stop n)).stage = 4 := hguard
    have hrunning := h.stopped.running n (hstage ▸ by decide)
    have hlistening := h.stopped.listening n (hstage ▸ by decide)
    exact h.advance hprog h.handlers rfl rfl (fun _ => hrunning) (fun _ => hlistening)
      (fun _ => h.stopped.swept n (Nat.le_of_eq hstage.symm)) h.opened
  | join c =>
    rw [RunWorld.exec] at he
    split at he
    · cases he
      rw [show (qs (.stop n)).after (.join c) = qs (.stop n) from rfl, update_eq_self]
      refine h.same rfl fun t ht => ?_
      rw [Pool.afterOp_prog, update_of_ne]
      · exact ht
      · intro heq
        rw [heq, hprog] at ht
        cases ht
    · cases he
  | _ => exact hguard.elim

/-- A thread that passes a control point. -/
theorem Sound.jump (h : Sound p qs) {t : RunTid} {c : RunCtl} (hprog : p.prog t = .ret c) :
    Sound (p.withProg t (c.program cfg)) qs := by
  refine h.same rfl fun u hu => ?_
  by_cases hut : u = t
  · subst hut
    rw [hprog] at hu
    cases hu
    rw [Pool.withProg_prog, update_self]
    rfl
  · rw [Pool.withProg_prog, update_of_ne hut]
    exact hu

/-- A call of `stop`. -/
theorem Sound.callStop (h : Sound p qs) :
    Sound (p.afterEnv { p.shared with calls := p.shared.calls + 1 }
      (some (.stop p.shared.calls, .stopping))) qs := by
  have hother : ∀ t, t ≠ .stop p.shared.calls → (p.afterEnv
      { p.shared with calls := p.shared.calls + 1 } (some (.stop p.shared.calls, .stopping))).prog t =
      p.prog t := fun t ht => update_of_ne ht _ _
  refine ⟨⟨h.handlers.ended, h.handlers.threads, h.handlers.started, h.handlers.bounded,
        h.handlers.fresh⟩,
    ⟨h.stopped.running, h.stopped.listening, h.stopped.swept, fun n hn => ?_⟩, h.opened,
    fun c hc => ?_, fun n hn => ?_⟩
  · exact h.stopped.uncalled n (Nat.le_of_succ_le hn)
  · rw [hother _ (by simp)]
    exact h.rests c hc
  · have hne : n ≠ p.shared.calls := Nat.ne_of_gt (Nat.lt_of_succ_le hn)
    rw [hother _ (by simpa using hne)]
    exact h.idle n (Nat.le_of_succ_le hn)

/-- A handler begins to run. -/
theorem Sound.start (h : Sound p qs) {c : ConnId} (hc : c ∈ p.shared.clientThreads)
    (hnew : p.shared.started c = false) :
    Sound (p.afterEnv { p.shared with started := update p.shared.started c true }
        (some (.server (.handler c), .server (.loop (p.shared.mem.conns c).fd))))
      (update qs (.server (.handler c))
        { qs (.server (.handler c)) with phase := ⟨(p.shared.mem.conns c).fd, .serving⟩ }) := by
  have hfresh := h.handlers.fresh c hnew
  have hlife : ∀ d, (update qs (.server (.handler c))
      { qs (.server (.handler c)) with phase := ⟨(p.shared.mem.conns c).fd, .serving⟩ }
      (.server (.handler d))).phase.life = (qs (.server (.handler d))).phase.life := by
    intro d
    by_cases hd : d = c
    · rw [hd, update_self, hfresh]
    · rw [update_of_ne (by simpa using hd)]
  have hstage : ∀ n, update qs (.server (.handler c))
      { qs (.server (.handler c)) with phase := ⟨(p.shared.mem.conns c).fd, .serving⟩ } (.stop n) =
      qs (.stop n) := fun n => update_of_ne (by simp) _ _
  have hold : ∀ d, update p.shared.started c true d = false → d ≠ c ∧ p.shared.started d = false := by
    intro d hd
    by_cases hdc : d = c
    · rw [hdc, update_self] at hd
      cases hd
    · rw [update_of_ne hdc] at hd
      exact ⟨hdc, hd⟩
  refine ⟨⟨fun d => ?_, h.handlers.threads, fun d hd => ?_, h.handlers.bounded, fun d hd => ?_⟩,
    ⟨fun n hn => ?_, fun n hn => ?_, fun n hn => ?_, fun n hn => ?_⟩, h.opened, fun d hd => ?_,
    fun n hn => ?_⟩
  · rw [hlife]
    exact h.handlers.ended d
  · by_cases hdc : d = c
    · subst hdc
      rw [update_self]
      exact ⟨h.handlers.threads d hc, rfl⟩
    · change update p.shared.started c true d = true at hd
      rw [update_of_ne hdc] at hd
      rw [update_of_ne (by simpa using hdc)]
      exact h.handlers.started d hd
  · rw [hlife]
    exact h.handlers.fresh d (hold d hd).2
  · rw [hstage] at hn
    exact h.stopped.running n hn
  · rw [hstage] at hn
    exact h.stopped.listening n hn
  · rw [hstage] at hn
    exact h.stopped.swept n hn
  · rw [hstage]
    exact h.stopped.uncalled n hn
  · have ⟨hdc, hd'⟩ := hold d hd
    rw [Pool.afterEnv_some_prog, update_of_ne (by simpa using hdc)]
    exact h.rests d hd'
  · rw [Pool.afterEnv_some_prog, update_of_ne (by simp)]
    exact h.idle n hn

/-- A step of the environment other than `accept`. -/
theorem Sound.frame (h : Sound p qs) {b : World} (hf : p.shared.mem.Frame b.mem) :
    Sound (p.afterEnv { p.shared with base := b } none) qs := by
  refine ⟨⟨h.handlers.ended, fun c hc => ?_, fun c hc => ?_, fun fd c hc => ?_, h.handlers.fresh⟩,
    ⟨fun n hn => hf.running.trans (h.stopped.running n hn), h.stopped.listening,
      h.stopped.swept, h.stopped.uncalled⟩, fun hswept c hc hend => ?_, h.rests, h.idle⟩
  · show c < b.mem.nextConn
    rw [hf.nextConn]
    exact h.handlers.threads c hc
  · show c < b.mem.nextConn ∧ _ = (b.mem.conns c).fd
    rw [hf.nextConn, hf.connFd]
    exact h.handlers.started c hc
  · show c < b.mem.nextConn
    rw [hf.nextConn]
    exact h.handlers.bounded fd c (hf.fds ▸ hc)
  · show b.mem.fds (b.mem.conns c).fd = some c
    rw [hf.fds, hf.connFd]
    exact h.opened hswept c (hf.nextConn ▸ hc) hend

end Keep

/-- The peers and the clock start no thread. -/
theorem RunWorld.env_net {w w' : RunWorld} {e : Env} {start : Option (RunTid × RunCtl)}
    (h : w.env (.net e) = some (w', start)) :
    start = none ∧ ∃ b, w' = { w with base := b } ∧ w.mem.Frame b.mem := by
  cases e with
  | accept fd peerIp => cases h
  | clientSend | clientClose | tick =>
    unfold env at h
    dsimp only at h
    rw [Option.map_eq_some_iff] at h
    have ⟨⟨b, start'⟩, henv, hx⟩ := h
    cases hx
    rcases World.env_mem_cases henv with ⟨_, hf, _⟩ | ⟨_, _, haccept, _⟩
    · exact ⟨rfl, b, rfl, hf⟩
    · cases haccept

/-- Every step keeps the invariant. -/
theorem sound_keeps (cfg : Config) (C : RunState → RunStep → Prop) :
    Machine.Keeps (runMachine cfg) dutyMonitor DutyAt Sound C where
  op p qs t ch o k r w q' hJ _ hprog he hguard hnext := by
    rw [show q' = (qs t).after o from hnext]
    have hallows : (qs t).Allows t o := hguard
    cases t with
    | main => exact hJ.main hprog he hallows
    | stop n => exact hJ.stop hprog he hallows
    | server t =>
      cases o with
      | server o => exact hJ.server hprog he hallows
      | _ => exact hallows.elim
  jump p qs t c hJ _ hprog hpost := by
    refine ⟨qs t, program_duty cfg hpost, ?_⟩
    rw [update_eq_self]
    exact hJ.jump hprog
  env p qs e w start hJ _ he := by
    cases e with
    | callStop =>
      cases he
      refine ⟨qs, fun _ _ => rfl, fun t c hstart => ?_, hJ.callStop⟩
      cases hstart
      exact hJ.stopped.uncalled _ (Nat.le_refl _)
    | start c =>
      change (if c ∈ p.shared.clientThreads ∧ p.shared.started c = false then _ else none) = _ at he
      split at he
      · rename_i hc
        cases he
        refine ⟨_, fun t ht => ?_, fun t ctl hstart => ?_, hJ.start hc.1 hc.2⟩
        · rw [update_of_ne]
          exact fun heq => ht _ (by rw [heq])
        · cases hstart
          rw [update_self]
          exact rfl
      · cases he
    | net e =>
      have ⟨hstart, b, hw, hf⟩ := RunWorld.env_net he
      subst hstart hw
      exact ⟨qs, fun _ _ => rfl, fun _ _ hstart => (nomatch hstart), hJ.frame hf⟩

/-- The invariant holds in every reachable state. -/
theorem reachable_sound {cfg : Config} {C : RunState → RunStep → Prop} {p : RunState}
    (h : (runSystem cfg).Reaches C p) : ∃ qs, Machine.Monitored dutyMonitor DutyAt Sound p qs := by
  have hinit : Sound (runSystem cfg).init fun _ => ⟨⟨0, .serving⟩, 0⟩ := by
    refine ⟨⟨fun c => ?_, fun c hc => (nomatch hc), fun c hc => (nomatch hc),
      fun fd c hc => (nomatch hc), fun _ _ => rfl⟩, ⟨fun n hn => ?_, fun n hn => ?_, fun n hn => ?_,
      fun _ _ => rfl⟩, fun _ c hc => ?_, fun _ _ => rfl, fun _ _ => rfl⟩
    · exact ⟨fun hx => (nomatch hx), fun hx => (nomatch hx)⟩
    · exact absurd hn (by decide)
    · exact absurd hn (by decide)
    · exact absurd hn (by decide)
    · exact absurd hc (Nat.not_lt_zero c)
  refine (sound_keeps cfg C).steps h ⟨fun t => ?_, hinit⟩
  match t with
  | .server .watchdog => exact trivial
  | .server (.handler _) => exact rfl
  | .main => exact trivial
  | .stop _ => exact rfl

end SimpleChat
