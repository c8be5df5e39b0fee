import SimpleChat.Shutdown

/-!
# What `stop` does to the connections

`stop` finds connections through `sessions_` only.

* A descriptor that it closes there is closed again by its handler, which owns
  it.  `descriptors_closed_once` is the case where `sessions_` is empty by then.
* A connection without a session is not shut down.  Its handler stays in `recv`,
  and the `join` waits for it.  `joined_handlers_return` is the case where each
  handler that is in `recv`, or past its test of `running_`, has a session.
-/

namespace SimpleChat

open Conc Function

/-! ## Descriptors -/

/-- `sessions_` is empty when `stop` closes the sessions. -/
def NoSessionLeft (p : RunState) : RunStep → Prop
  | .op (.stop n) _ =>
    p.next (.stop n) = some .closeSessions → p.shared.mem.registry.sessions.keys = ∅
  | _ => True

instance (p : RunState) (l : RunStep) : Decidable (NoSessionLeft p l) :=
  match l with
  | .op (.stop _) _ => inferInstanceAs (Decidable (_ → _))
  | .op (.server _) _ => .isTrue trivial
  | .op .main _ => .isTrue trivial
  | .jump _ => .isTrue trivial
  | .env _ => .isTrue trivial

theorem closeSessions_of_empty {w : RunWorld}
    (h : w.mem.registry.sessions.keys = ∅) (todo : List Fd) :
    RunWorld.closeSessions todo w = w := by
  induction todo with
  | nil => rfl
  | cons fd todo ih =>
    have hnone : w.mem.registry.sessions.lookup fd = none := by
      rw [Finmap.lookup_eq_none, ← Finmap.mem_keys, h]
      exact Finset.notMem_empty fd
    rw [RunWorld.closeSessions, hnone]
    exact ih

/-- The operations of the accept loop and of `stop`. -/
theorem RunWorld.exec_cases {cfg : Config} {w w' : RunWorld} {t : RunTid} {o : RunOp}
    {ch : RunChoice} {r : o.Resp} (h : w.exec cfg t o ch = some (r, w')) :
    (∃ t' o', t = .server t' ∧ o = .server o') ∨
      (o = .closeSessions ∧ w' = { closeSessions ch.order w with swept := true }) ∨
      o ≠ .closeSessions ∧ w'.ended = w.ended ∧ w'.closes = w.closes ∧ w'.shut = w.shut ∧
        w'.swept = w.swept := by
  cases o with
  | server o =>
    cases t with
    | server t => exact Or.inl ⟨t, o, rfl, rfl⟩
    | main | stop => cases h
  | mem o =>
    have ⟨_, _, hx⟩ := Option.map_eq_some_iff.1 h
    cases hx
    exact Or.inr (Or.inr ⟨by simp, rfl, rfl, rfl, rfl⟩)
  | accept =>
    rw [exec] at h
    split at h
    · cases h
      exact Or.inr (Or.inr ⟨by simp, rfl, rfl, rfl, rfl⟩)
    · split at h
      · cases h
        exact Or.inr (Or.inr ⟨by simp, rfl, rfl, rfl, rfl⟩)
      · cases h
  | emplaceBack fd =>
    cases h
    refine Or.inr (Or.inr ⟨by simp, ?_⟩)
    unfold emplaceBack
    split
    · exact ⟨rfl, rfl, rfl, rfl⟩
    · exact ⟨rfl, rfl, rfl, rfl⟩
  | closeSessions =>
    rw [exec] at h
    split at h
    · cases h
      exact Or.inr (Or.inl ⟨rfl, rfl⟩)
    · cases h
  | joinWatchdog | join =>
    rw [exec] at h
    split at h
    · cases h
      exact Or.inr (Or.inr ⟨by simp, rfl, rfl, rfl, rfl⟩)
    · cases h
  | clearRunning | closeListen | clientThreads =>
    cases h
    exact Or.inr (Or.inr ⟨by simp, rfl, rfl, rfl, rfl⟩)

/-- A step of the environment. -/
theorem RunWorld.env_rest {w w' : RunWorld} {e : RunEnv} {start : Option (RunTid × RunCtl)}
    (h : w.env e = some (w', start)) :
    w'.ended = w.ended ∧ w'.closes = w.closes ∧ w'.shut = w.shut ∧ w'.swept = w.swept ∧
      w'.listening = w.listening ∧ w.mem.Frame w'.mem := by
  cases e with
  | callStop =>
    cases h
    exact ⟨rfl, rfl, rfl, rfl, rfl, .refl _⟩
  | start c =>
    rw [env] at h
    split at h
    · cases h
      exact ⟨rfl, rfl, rfl, rfl, rfl, .refl _⟩
    · cases h
  | net e =>
    have ⟨_, b, hw, hf⟩ := env_net h
    rw [hw]
    exact ⟨rfl, rfl, rfl, rfl, rfl, hf⟩

/-- Only the end of a handler closes a descriptor here. -/
theorem RunWorld.finish_closes {w : RunWorld} {t : Tid} {o : ServerOp} {r : o.Resp} :
    ((w.finish t o r).closes = w.closes ∧
        ∀ c, (w.finish t o r).ended (.handler c) = w.ended (.handler c)) ∨
      ∃ c fd, t = .handler c ∧ o = .mem (.close fd) ∧
        (w.finish t o r).closes = update w.closes c (w.closes c + 1) ∧
        (w.finish t o r).ended = update w.ended (.handler c) true := by
  unfold finish
  split
  · split
    · exact Or.inr ⟨_, _, rfl, rfl, rfl, rfl⟩
    · exact Or.inl ⟨rfl, fun _ => rfl⟩
  · split
    · exact Or.inl ⟨rfl, fun c => update_of_ne (show Tid.handler c ≠ .watchdog by simp) true w.ended⟩
    · exact Or.inl ⟨rfl, fun _ => rfl⟩
  · exact Or.inl ⟨rfl, fun _ => rfl⟩

/-- A descriptor that its handler has not closed is open, and no descriptor was
closed twice. -/
def ClosedOnce (w : RunWorld) : Prop :=
  ∀ c, w.closes c ≤ 1 ∧ (w.ended (.handler c) = false → w.closes c = 0)

/-- An operation of a handler or of the watchdog. -/
theorem ClosedOnce.finish {p : RunState} {qs : RunTid → Duty} (h : ClosedOnce p.shared)
    (hsound : Sound p qs) {t : Tid} {o : ServerOp} {r : o.Resp}
    (hguard : (phaseMonitor t).guard (qs (.server t)).phase o) :
    ClosedOnce (p.shared.finish t o r) := by
  rcases p.shared.finish_closes (t := t) (r := r) with ⟨hcloses, hended⟩ |
    ⟨c, fd, ht, ho, hcloses, hended⟩
  · intro c
    rw [hcloses, hended]
    exact h c
  · subst ht ho
    have hlife : (qs (.server (.handler c))).phase.life = .removed := hguard.1
    have hopen : p.shared.ended (.handler c) = false := by
      refine Bool.eq_false_of_not_eq_true fun hend => ?_
      rw [(hsound.handlers.ended c).1 hend] at hlife
      cases hlife
    have hnone := (h c).2 hopen
    intro d
    rw [hcloses, hended]
    by_cases hd : d = c
    · subst hd
      rw [update_self, update_self, hnone]
      exact ⟨Nat.le_refl 1, fun hx => (nomatch hx)⟩
    · rw [update_of_ne hd, update_of_ne (by simpa using hd)]
      exact h d

/-- In every run in which `sessions_` is empty whenever `stop` closes the
sessions, each descriptor is passed to `::close` once at most. -/
theorem descriptors_closed_once {cfg : Config} {p : RunState}
    (h : (runSystem cfg).Reaches NoSessionLeft p) (c : ConnId) : p.shared.closes c ≤ 1 := by
  have hinv : ClosedOnce p.shared := by
    refine h.invariant (I := fun p => ClosedOnce p.shared) (fun _ => ⟨Nat.zero_le 1, fun _ => rfl⟩) ?_
    intro p l p' hr hI hC hs
    have ⟨qs, hobeys, hsound⟩ := reachable_sound hr
    cases l with
    | jump t =>
      have ⟨_, _, hp'⟩ := Machine.step_jump.1 hs
      rw [hp']
      exact hI
    | env e =>
      have ⟨w, start, he, hp'⟩ := Machine.step_env.1 hs
      rw [hp', Pool.afterEnv_shared]
      have ⟨hended, hcloses, _⟩ := RunWorld.env_rest he
      intro c
      rw [hended, hcloses]
      exact hI c
    | op t ch =>
      have ⟨o, k, r, w, hprog, he, hp'⟩ := Machine.step_op.1 hs
      rw [hp', Pool.afterOp_shared]
      rcases RunWorld.exec_cases he with ⟨u, o', ht, ho⟩ | ⟨ho, hw⟩ | ⟨_, hended, hcloses, _⟩
      · subst ht ho
        have ⟨_, _, hx⟩ := Option.map_eq_some_iff.1 he
        cases hx
        have hallows := hobeys (.server u)
        rw [hprog] at hallows
        exact hI.finish hsound hallows.1
      · subst ho
        have hempty : p.shared.mem.registry.sessions.keys = ∅ := by
          have hallows := hobeys t
          rw [hprog] at hallows
          cases t with
          | stop n => exact hC (Pool.next_of_call hprog)
          | server | main => exact hallows.1.elim
        rw [hw, closeSessions_of_empty hempty]
        exact hI
      · intro c
        rw [hended, hcloses]
        exact hI c
  exact (hinv c).1

/-- A client registers, and the server is stopped.  `stop` closes the descriptor
of the session, and the handler closes it again. -/
def closedTwiceRun : List RunStep :=
  [.jump .main, .op .main {}, .op .main { conn := some (4, "10.0.0.1") }, .op .main {},
    .op .main {}, .env (.start 0), .env (.net (.clientSend 0 [1, 0, 0, 0, 3, 10, 1, 97])),
    .jump (.server (.handler 0))] ++
  List.replicate 6 (.op (.server (.handler 0)) { want := 100 }) ++
  [.env .callStop, .jump (.stop 0), .op (.stop 0) {}, .op (.stop 0) {},
    .jump (.server .watchdog), .op (.server .watchdog) {}, .op (.stop 0) {},
    .op (.stop 0) { order := [4] }, .jump (.server (.handler 0)), .op (.server (.handler 0)) {},
    .jump (.server (.handler 0)), .op (.server (.handler 0)) {}, .op (.server (.handler 0)) {}]

theorem descriptors_closed_twice :
    ∃ p, (runSystem sampleConfig).Reaches Lts.Any p ∧ p.shared.closes 0 = 2 := by
  have ⟨p, hp, hrun⟩ := Lts.exists_reaches_of_run (L := runSystem sampleConfig) closedTwiceRun
    (fun p => p.shared.closes 0 == 2) (by decide +kernel)
  exact ⟨p, hp, by simpa using hrun⟩

/-- A client registers and quits.  A second client does not register, and its handler
sees that the server stops. -/
def closedOnceRun : List RunStep :=
  [.jump .main, .op .main {}, .op .main { conn := some (4, "10.0.0.1") }, .op .main {},
    .op .main {}, .env (.start 0), .env (.net (.clientSend 0 [1, 0, 0, 0, 3, 10, 1, 97])),
    .env (.net (.clientSend 0 [7, 0, 0, 0, 0])), .jump (.server (.handler 0))] ++
  List.replicate 6 (.op (.server (.handler 0)) { want := 100 }) ++
  [.jump (.server (.handler 0))] ++
  List.replicate 5 (.op (.server (.handler 0)) { want := 100 }) ++
  [.jump (.server (.handler 0)), .op (.server (.handler 0)) {}, .op (.server (.handler 0)) {},
    .jump .main, .op .main {}, .op .main { conn := some (5, "10.0.0.2") }, .op .main {},
    .op .main {}, .env (.start 1), .jump (.server (.handler 1)), .env .callStop, .jump (.stop 0),
    .op (.stop 0) {}, .op (.stop 0) {}, .jump (.server .watchdog), .op (.server .watchdog) {},
    .op (.stop 0) {}, .op (.server (.handler 1)) {}, .jump (.server (.handler 1)),
    .op (.server (.handler 1)) {}, .op (.server (.handler 1)) {}, .op (.stop 0) {}]

theorem descriptors_closed_once_unregistered :
    ∃ p, (runSystem sampleConfig).Reaches NoSessionLeft p ∧ p.shared.swept = true ∧
      p.shared.mem.nextRef = 1 ∧ p.shared.closes 0 = 1 ∧ p.shared.closes 1 = 1 ∧
      ∀ c, p.shared.closes c ≤ 1 := by
  have ⟨p, hp, hrun⟩ := Lts.exists_reaches_of_runIf (L := runSystem sampleConfig) (C := NoSessionLeft)
    closedOnceRun
    (fun p => decide (p.shared.swept = true ∧ p.shared.mem.nextRef = 1 ∧ p.shared.closes 0 = 1 ∧
      p.shared.closes 1 = 1)) (by decide +kernel)
  obtain ⟨hswept, hone, h0, h1⟩ := of_decide_eq_true hrun
  exact ⟨p, hp, hswept, hone, h0, h1, descriptors_closed_once hp⟩

/-! ## Handlers -/

/-- What a handler has seen of `running_`. -/
def seenAfter (seen : Bool) : (o : ServerOp) → o.Resp → Bool
  | .mem .running, running => running
  | _, _ => seen

/-- A `recv` is allowed once a load of `running_` has returned true. -/
def recvMonitor : Prog.Monitor Server Bool :=
  .det (fun seen o => ∀ fd len, o = .mem (.recv fd len) → seen = true) seenAfter

def runRecvMonitor : Prog.Monitor Run Bool :=
  .det (fun seen o => ∀ fd len, o = .server (.mem (.recv fd len)) → seen = true) fun seen o r =>
    match o, r with
    | .server o, r => seenAfter seen o r
    | _, _ => seen

/-- Before its next `recv` the thread loads `running_`, and goes on to it only if
the value is true. -/
def SeesStop (q : Prog Run RunCtl) : Prop := q.Obeys runRecvMonitor (fun _ _ => True) false

theorem recvMonitor_of_serves {fd : Fd} {α : Type} {p : Prog Server α} (h : p.Only (ServesOp fd))
    (seen : Bool) : p.Obeys recvMonitor (fun _ seen' => seen' = seen) seen := by
  refine h.obeys (fun o ho fd' len heq => ?_) (fun o r ho => ?_)
  · subst heq
    exact ho.elim
  · match o, r, ho with
    | .mem o, r, ho => cases o <;> first | exact ho.elim | exact rfl
    | .sendBare _ _, _, _ => exact rfl
    | .sendLocked _ _, _, _ => exact rfl
    | .register _ _ _, _, _ => exact rfl

theorem handleClient_recv (cfg : Config) (fd : Fd) :
    (handleClient cfg fd).Obeys recvMonitor (fun _ _ => True) false := by
  simp only [handleClient, mem_eq, Prog.call_bind, Prog.ret_bind]
  refine Prog.obeys_det_call.2 ⟨fun _ _ heq => (by cases heq), fun running => ?_⟩
  cases running with
  | false => trivial
  | true =>
    have hreads : ((recvMessage fd).lift recvEmbedding).Obeys recvMonitor
        (fun _ seen => seen = true) true := by
      refine (liftedRecv_reads fd).obeys (fun o _ _ _ _ => rfl) (fun o r hread => ?_)
      obtain ⟨len, ho⟩ := hread
      subst ho
      rfl
    refine hreads.bind fun frame seen hseen => ?_
    rw [hseen]
    cases frame with
    | none => trivial
    | some frame =>
      obtain ⟨msgType, payload⟩ := frame
      refine Prog.obeys_det_call.2 ⟨fun _ _ heq => (by cases heq), fun _ => ?_⟩
      rw [dispatch_eq]
      exact (recvMonitor_of_serves (handleFrame_serves cfg fd payload msgType) _).bind
        fun _ _ _ => trivial

theorem handleClientCleanup_recv (fd : Fd) :
    (handleClientCleanup fd).Obeys recvMonitor (fun _ _ => True) false := by
  refine Prog.obeys_det_call.2 ⟨fun _ _ heq => (nomatch heq), fun _ => ?_⟩
  exact Prog.obeys_det_call.2 ⟨fun _ _ heq => (nomatch heq), fun _ => trivial⟩

/-- At a control point every handler is before its test of `running_`. -/
theorem program_seesStop (cfg : Config) {c : ConnId} {ctl : RunCtl} {q : Duty}
    (h : DutyAt (.server (.handler c)) ctl q) : SeesStop (ctl.program cfg) := by
  have hserver : ∀ ctl : Ctl, PhaseAt (.handler c) ctl q.phase →
      (ctl.program cfg).Obeys recvMonitor (fun _ _ => True) false := by
    intro ctl hphase
    cases ctl with
    | loop fd => exact handleClient_recv cfg fd
    | cleanup fd => exact handleClientCleanup_recv fd
    | ended => trivial
    | watchdog => exact hphase.elim
  match ctl, h with
  | .server ctl, h =>
    have hlift : ((ctl.program cfg).lift serverEmbedding).Obeys runRecvMonitor
        (fun _ _ => True) false := by
      refine (hserver ctl h).lift (fun seen o hguard fd len heq => ?_) fun seen o r seen' hnext => ?_
      · cases heq
        exact hguard fd len rfl
      · exact hnext
    exact hlift.bind fun _ _ _ => trivial
  | .unstarted, _ => trivial

/-- After `stop` has cleared `running_`, no load returns true. -/
theorem seenAfter_stopped {cfg : Config} {t : Tid} {w w' : World} {o : ServerOp} {ch : Choice}
    {r : o.Resp} (h : w.exec cfg t o ch = some (r, w')) (hrunning : w.mem.running = false) :
    seenAfter false o r = false := by
  by_cases ho : o = .mem .running
  · subst ho
    cases h
    exact hrunning
  · unfold seenAfter
    split
    · exact absurd rfl ho
    · rfl

/-- The loop over `sessions_` in `stop` shuts the connections of the sessions
down, and closes their descriptors. -/
theorem closeSessions_shut {w : RunWorld} {todo : List Fd} {fd : Fd} {c : ConnId}
    (hfd : fd ∈ todo) (hs : fd ∈ w.mem.registry.sessions) (hc : w.mem.fds fd = some c) :
    (RunWorld.closeSessions todo w).shut c = true ∧
      (RunWorld.closeSessions todo w).mem.fds fd = none := by
  induction todo generalizing w with
  | nil => cases hfd
  | cons k todo ih =>
    rw [RunWorld.closeSessions]
    by_cases hk : fd = k
    · subst hk
      obtain ⟨s, hs'⟩ := Finmap.mem_iff.1 hs
      rw [hs']
      have hrest := (w.closeSession fd s).swept_closeSessions todo
      have hnone : (w.closeSession fd s).mem.fds fd = none := update_self _ _ _
      refine ⟨hrest.shut c ?_, ?_⟩
      · have hshut : (w.closeSession fd s).shut = update w.shut c true := by
          unfold RunWorld.closeSession
          rw [hc]
        rw [hshut]
        exact update_self _ _ _
      · rcases hrest.fds fd with heq | hnone'
        · exact heq.trans hnone
        · exact hnone'
    · have hfd' : fd ∈ todo := (List.mem_cons.1 hfd).resolve_left hk
      split
      · exact ih hfd' hs hc
      · rename_i s _
        have hone := w.swept_closeSession k s
        refine ih hfd' (hone.registry ▸ hs) ?_
        have hclose : (w.closeSession k s).mem.fds =
            update ((w.mem.modify s fun i => { i with alive := false }).shutdown k).fds k none := rfl
        have hf := (w.mem.modify s fun i => { i with alive := false }).shutdown_frame k
        rw [hclose, update_of_ne hk, hf.fds]
        exact hc

/-- When `stop` closes the sessions, every handler that has not ended has a session,
or loads `running_` before its next `recv`. -/
def StopFindsEvery (p : RunState) : RunStep → Prop
  | .op (.stop n) _ => p.next (.stop n) = some .closeSessions →
      ∀ c, c < p.shared.mem.nextConn → p.shared.ended (.handler c) = false →
        SeesStop (p.prog (.server (.handler c))) ∨
          (p.shared.mem.conns c).fd ∈ p.shared.mem.registry.sessions
  | _ => True

/-- The connection does not keep its handler in `recv`. -/
def RunWorld.Shut (w : RunWorld) (c : ConnId) : Prop :=
  w.shut c = true ∧ w.mem.fds (w.mem.conns c).fd = none

/-- What holds once `stop` has closed the sessions. -/
structure Caught (p : RunState) : Prop where
  running : p.shared.mem.running = false
  listening : p.shared.listening = false
  handlers : ∀ c, c < p.shared.mem.nextConn → p.shared.ended (.handler c) = false →
    SeesStop (p.prog (.server (.handler c))) ∨ p.shared.Shut c

section Caught

variable {cfg : Config} {p : RunState} {qs : RunTid → Duty}

/-- An operation of a handler or of the watchdog. -/
theorem Caught.server (h : Caught p) {t : Tid} {o : ServerOp} {k : o.Resp → Prog Run RunCtl}
    {ch : RunChoice} {r : o.Resp} {w : RunWorld} (hprog : p.prog (.server t) = .call (.server o) k)
    (he : p.shared.exec cfg (.server t) (.server o) ch = some (r, w)) :
    Caught (p.afterOp (.server t) (.server o) k r w) := by
  have hserved := RunWorld.served he
  refine ⟨hserved.running.trans h.running, hserved.listening.trans h.listening,
    fun c hc hend => ?_⟩
  rw [Pool.afterOp_shared, hserved.nextConn] at hc
  have hbefore : p.shared.ended (.handler c) = false :=
    Bool.eq_false_of_not_eq_true fun hold =>
      Bool.eq_false_iff.1 hend ((hserved.ended c).2 (Or.inl hold))
  rcases h.handlers c hc hbefore with hsees | ⟨hdown, hnone⟩
  · refine Or.inl ?_
    rw [Pool.afterOp_prog]
    by_cases ht : t = .handler c
    · subst ht
      rw [update_self]
      rw [hprog] at hsees
      have hk : (k r).Obeys runRecvMonitor (fun _ _ => True) (seenAfter false o r) :=
        (Prog.obeys_det_call.1 hsees).2 r
      have ⟨_, hexec, hx⟩ := Option.map_eq_some_iff.1 he
      cases hx
      rw [seenAfter_stopped hexec h.running] at hk
      exact hk
    · rw [update_of_ne (by simpa using Ne.symm ht)]
      exact hsees
  · refine Or.inr ⟨?_, ?_⟩
    · rw [Pool.afterOp_shared, hserved.shut]
      exact hdown
    · rw [Pool.afterOp_shared, hserved.connFd]
      rcases hserved.fds with hsame | ⟨fd, _, hupdate⟩
      · rw [hsame]
        exact hnone
      · rw [hupdate]
        by_cases hfd : (p.shared.mem.conns c).fd = fd
        · rw [hfd, update_self]
        · rw [update_of_ne hfd]
          exact hnone

/-- `stop` closes the sessions. -/
theorem Sound.caught (h : Sound p qs) {n : Nat} {k : Unit → Prog Run RunCtl} {order : List Fd}
    (hold : p.shared.swept = true → Caught p) (hstage : (qs (.stop n)).stage = 3)
    (horder : p.shared.mem.IterationOrder order)
    (hfinds : ∀ c, c < p.shared.mem.nextConn → p.shared.ended (.handler c) = false →
      SeesStop (p.prog (.server (.handler c))) ∨
        (p.shared.mem.conns c).fd ∈ p.shared.mem.registry.sessions) :
    Caught (p.afterOp (.stop n) .closeSessions k ()
      { RunWorld.closeSessions order p.shared with swept := true }) := by
  have hswept := p.shared.swept_closeSessions order
  have hrunning := h.stopped.running n (hstage ▸ by decide)
  have hlistening := h.stopped.listening n (hstage ▸ by decide)
  refine ⟨hswept.running.trans hrunning, hswept.listening.trans hlistening, fun c hc hend => ?_⟩
  change c < (RunWorld.closeSessions order p.shared).mem.nextConn at hc
  rw [hswept.nextConn] at hc
  change (RunWorld.closeSessions order p.shared).ended (.handler c) = false at hend
  rw [hswept.ended] at hend
  rw [Pool.afterOp_prog, update_of_ne (by simp)]
  show _ ∨ (RunWorld.closeSessions order p.shared).Shut c
  unfold RunWorld.Shut
  rw [hswept.connFd]
  by_cases hfirst : p.shared.swept = true
  · -- An earlier call of `stop` has closed the sessions.
    refine ((hold hfirst).handlers c hc hend).imp_right fun ⟨hdown, hnone⟩ => ?_
    refine ⟨hswept.shut c hdown, ?_⟩
    rcases hswept.fds (p.shared.mem.conns c).fd with heq | hnone'
    · exact heq.trans hnone
    · exact hnone'
  · refine (hfinds c hc hend).imp_right fun hs => ?_
    have hopen := h.opened (Bool.eq_false_of_not_eq_true hfirst) c hc hend
    have hmem : (p.shared.mem.conns c).fd ∈ order := by
      have hkeys := (Finmap.mem_keys).2 hs
      rw [← Finset.mem_val, ← horder] at hkeys
      exact hkeys
    exact closeSessions_shut hmem hs hopen

/-- Another operation of the accept loop or of `stop`. -/
theorem Caught.other (h : Caught p) {t : RunTid} {o : RunOp} {k : o.Resp → Prog Run RunCtl}
    {ch : RunChoice} {r : o.Resp} {w : RunWorld} (ht : ∀ u, t ≠ .server u)
    (hguard : (qs t).Allows t o) (ho : o ≠ .closeSessions)
    (he : p.shared.exec cfg t o ch = some (r, w)) : Caught (p.afterOp t o k r w) := by
  have hsame : w.mem.running = false ∧ w.listening = false ∧
      w.mem.nextConn = p.shared.mem.nextConn ∧ w.ended = p.shared.ended ∧
      w.shut = p.shared.shut ∧ w.mem.fds = p.shared.mem.fds ∧ w.mem.conns = p.shared.mem.conns := by
    cases o with
    | server o =>
      cases t with
      | server u => exact absurd rfl (ht u)
      | main | stop => exact hguard.elim
    | mem o =>
      cases t with
      | server u => exact absurd rfl (ht u)
      | stop n => exact hguard.elim
      | main =>
        cases o with
        | running | getPeerIp =>
          cases he
          exact ⟨h.running, h.listening, rfl, rfl, rfl, rfl, rfl⟩
        | _ => exact hguard.elim
    | accept =>
      rw [RunWorld.exec] at he
      split at he
      · cases he
        exact ⟨h.running, h.listening, rfl, rfl, rfl, rfl, rfl⟩
      · split at he
        · -- `listen_fd_` is closed.
          rename_i hfree
          rw [h.listening] at hfree
          exact absurd hfree.1 (by decide)
        · cases he
    | emplaceBack fd =>
      cases he
      rw [RunWorld.emplaceBack]
      split
      · exact ⟨h.running, h.listening, rfl, rfl, rfl, rfl, rfl⟩
      · exact ⟨h.running, h.listening, rfl, rfl, rfl, rfl, rfl⟩
    | closeSessions => exact absurd rfl ho
    | joinWatchdog | join =>
      rw [RunWorld.exec] at he
      split at he
      · cases he
        exact ⟨h.running, h.listening, rfl, rfl, rfl, rfl, rfl⟩
      · cases he
    | clearRunning =>
      cases he
      exact ⟨rfl, h.listening, rfl, rfl, rfl, rfl, rfl⟩
    | closeListen =>
      cases he
      exact ⟨h.running, rfl, rfl, rfl, rfl, rfl, rfl⟩
    | clientThreads =>
      cases he
      exact ⟨h.running, h.listening, rfl, rfl, rfl, rfl, rfl⟩
  obtain ⟨hrunning, hlistening, hnextConn, hended, hshut, hfds, hconns⟩ := hsame
  refine ⟨hrunning, hlistening, fun c hc hend => ?_⟩
  rw [Pool.afterOp_shared, hnextConn] at hc
  rw [Pool.afterOp_shared, hended] at hend
  rw [Pool.afterOp_shared, Pool.afterOp_prog, update_of_ne (Ne.symm (ht _))]
  unfold RunWorld.Shut
  rw [hshut, hfds, hconns]
  exact h.handlers c hc hend

/-- A step of the environment. -/
theorem Caught.env (h : Caught p) {e : RunEnv} {w : RunWorld} {start : Option (RunTid × RunCtl)}
    (he : p.shared.env e = some (w, start)) : Caught (p.afterEnv w start) := by
  have ⟨hended, _, hshut, _, hlistening, hf⟩ := RunWorld.env_rest he
  refine ⟨?_, ?_, fun c hc hend => ?_⟩
  · rw [Pool.afterEnv_shared, hf.running]
    exact h.running
  · rw [Pool.afterEnv_shared, hlistening]
    exact h.listening
  · rw [Pool.afterEnv_shared, hf.nextConn] at hc
    rw [Pool.afterEnv_shared, hended] at hend
    rw [Pool.afterEnv_shared]
    unfold RunWorld.Shut
    rw [hshut, hf.fds, hf.connFd]
    rcases start with _ | ⟨t, ctl⟩
    · exact h.handlers c hc hend
    · rw [Pool.afterEnv_some_prog]
      by_cases ht : RunTid.server (.handler c) = t
      · rw [ht, update_self]
        exact Or.inl trivial
      · rw [update_of_ne ht]
        exact h.handlers c hc hend

/-- A thread passes a control point. -/
theorem Caught.jump (h : Caught p) {t : RunTid} {ctl : RunCtl} (hpost : DutyAt t ctl (qs t)) :
    Caught (p.withProg t (ctl.program cfg)) := by
  refine ⟨h.running, h.listening, fun c hc hend => ?_⟩
  rw [Pool.withProg_prog]
  by_cases ht : RunTid.server (.handler c) = t
  · subst ht
    rw [update_self]
    exact Or.inl (program_seesStop cfg hpost)
  · rw [update_of_ne ht]
    exact h.handlers c hc hend

end Caught

/-- In a run in which `stop` finds every handler, nothing keeps a handler in `recv`
once it has closed the sessions. -/
theorem reachable_caught {cfg : Config} {p : RunState}
    (h : (runSystem cfg).Reaches StopFindsEvery p) (hswept : p.shared.swept = true) : Caught p := by
  refine h.invariant (I := fun p => p.shared.swept = true → Caught p) (fun hx => (nomatch hx)) ?_
    hswept
  intro p l p' hr hI hC hs hswept
  have ⟨qs, hobeys, hsound⟩ := reachable_sound hr
  cases l with
  | jump t =>
    have ⟨ctl, hprog, hp'⟩ := Machine.step_jump.1 hs
    have hpost := hobeys t
    rw [hprog] at hpost
    rw [hp'] at hswept ⊢
    exact (hI hswept).jump hpost
  | env e =>
    have ⟨w, start, he, hp'⟩ := Machine.step_env.1 hs
    have ⟨_, _, _, hkept, _⟩ := RunWorld.env_rest he
    rw [hp'] at hswept ⊢
    rw [Pool.afterEnv_shared, hkept] at hswept
    exact (hI hswept).env he
  | op t ch =>
    have ⟨o, k, r, w, hprog, he, hp'⟩ := Machine.step_op.1 hs
    have hallows := hobeys t
    rw [hprog] at hallows
    rw [hp'] at hswept ⊢
    rcases RunWorld.exec_cases he with ⟨u, o', ht, ho⟩ | ⟨ho, hw⟩ | ⟨ho, _, _, _, hkept⟩
    · subst ht ho
      have hkept : p.shared.swept = true := (RunWorld.served he).swept.symm.trans hswept
      exact (hI hkept).server hprog he
    · subst ho hw
      cases t with
      | stop n =>
        have hstage : (qs (.stop n)).stage = 3 := hallows.1
        have horder : p.shared.mem.IterationOrder ch.order := by
          change (if p.shared.mem.IterationOrder ch.order then _ else none) = _ at he
          split at he
          · assumption
          · cases he
        exact hsound.caught hI hstage horder (hC (Pool.next_of_call hprog))
      | server | main => exact hallows.1.elim
    · rw [Pool.afterOp_shared, hkept] at hswept
      by_cases ht : ∃ u, t = .server u
      · have ⟨u, hu⟩ := ht
        subst hu
        cases o with
        | server o => exact (hI hswept).server hprog he
        | _ => exact hallows.1.elim
      · exact (hI hswept).other (fun u hu => ht ⟨u, hu⟩) hallows.1 ho he

/-- The call of `stop` has begun to join `client_threads_`. -/
def JoinsClients (p : RunState) (n : Nat) : Prop :=
  p.next (.stop n) = some .clientThreads ∨ ∃ c, p.next (.stop n) = some (.join c)

/-- The handler is in a `recv` that waits for its peer. -/
def WaitsForPeer (cfg : Config) (p : RunState) (c : ConnId) : Prop :=
  ∃ fd len, p.next (.server (.handler c)) = some (.server (.mem (.recv fd len))) ∧
    ∀ ch, p.shared.exec cfg (.server (.handler c)) (.server (.mem (.recv fd len))) ch = none

theorem not_waits_of_sees {cfg : Config} {p : RunState} {c : ConnId}
    (h : SeesStop (p.prog (.server (.handler c)))) : ¬ WaitsForPeer cfg p c := by
  intro ⟨fd, len, hnext, _⟩
  have ⟨k, hprog⟩ := Pool.call_of_next hnext
  rw [hprog] at h
  have hseen := (Prog.obeys_det_call.1 h).1 fd len rfl
  cases hseen

/-- In every run in which `stop` finds the sessions of all handlers that would go on
to `recv`, the handlers that it joins are shut down or see that the server stops,
and none of them waits for its peer. -/
theorem joined_handlers_return {cfg : Config} {p : RunState}
    (h : (runSystem cfg).Reaches StopFindsEvery p) {n : Nat} (hjoin : JoinsClients p n) :
    p.shared.mem.running = false ∧
      ∀ c, c < p.shared.mem.nextConn → p.shared.ended (.handler c) = false →
        (p.shared.shut c = true ∨ SeesStop (p.prog (.server (.handler c)))) ∧
          ¬ WaitsForPeer cfg p c := by
  have ⟨qs, hobeys, hsound⟩ := reachable_sound h
  have hstage : 4 ≤ (qs (.stop n)).stage := by
    have hstop := hobeys (.stop n)
    rcases hjoin with hnext | ⟨c, hnext⟩
    · have ⟨k, hprog⟩ := Pool.call_of_next hnext
      rw [hprog] at hstop
      have hfour : (qs (.stop n)).stage = 4 := hstop.1
      exact Nat.le_of_eq hfour.symm
    · have ⟨k, hprog⟩ := Pool.call_of_next hnext
      rw [hprog] at hstop
      have hfive : (qs (.stop n)).stage = 5 := hstop.1
      rw [hfive]
      decide
  have hcaught := reachable_caught h (hsound.stopped.swept n hstage)
  refine ⟨hcaught.running, fun c hc hend => ?_⟩
  rcases hcaught.handlers c hc hend with hsees | ⟨hdown, hnone⟩
  · exact ⟨Or.inr hsees, not_waits_of_sees hsees⟩
  · refine ⟨Or.inl hdown, fun ⟨fd, len, hnext, hwaits⟩ => ?_⟩
    -- The handler reads from its own descriptor, which `stop` has closed.
    have ⟨k, hprog⟩ := Pool.call_of_next hnext
    have hguard := hobeys (.server (.handler c))
    rw [hprog] at hguard
    have hfd : fd = (qs (.server (.handler c))).phase.fd := hguard.1.2
    rw [(hsound.handlers.started c (hsound.started hprog)).2] at hfd
    have hrecv : p.shared.mem.recv fd len 1 = some (none, p.shared.mem) := by
      rw [hfd, Memory.recv, hnone]
    have hexec := hwaits {}
    change ((p.shared.mem.recv fd len 1).map _).map _ = none at hexec
    rw [hrecv] at hexec
    cases hexec

/-- Every handler that has not ended has a session when `stop` closes the sessions. -/
def StopFindsSessions (p : RunState) : RunStep → Prop
  | .op (.stop n) _ => p.next (.stop n) = some .closeSessions →
      ∀ c, c < p.shared.mem.nextConn → p.shared.ended (.handler c) = false →
        (p.shared.mem.conns c).fd ∈ p.shared.mem.registry.sessions
  | _ => True

instance (p : RunState) (l : RunStep) : Decidable (StopFindsSessions p l) :=
  match l with
  | .op (.stop _) _ => inferInstanceAs (Decidable (_ → _))
  | .op (.server _) _ => .isTrue trivial
  | .op .main _ => .isTrue trivial
  | .jump _ => .isTrue trivial
  | .env _ => .isTrue trivial

theorem StopFindsSessions.finds {p : RunState} {l : RunStep} (h : StopFindsSessions p l) :
    StopFindsEvery p l := by
  match l, h with
  | .op (.stop _) _, h => exact fun hnext c hc hend => Or.inr (h hnext c hc hend)
  | .op (.server _) _, _ => trivial
  | .op .main _, _ => trivial
  | .jump _, _ => trivial
  | .env _, _ => trivial

/-- A handler in `recv` waits while its peer has sent nothing. -/
theorem waits_of_recv {cfg : Config} {p : RunState} {c : ConnId} {fd : Fd} {len : Nat}
    (hnext : p.next (.server (.handler c)) = some (.server (.mem (.recv fd len))))
    (hfd : p.shared.mem.fds fd = some c) (hpending : (p.shared.mem.conns c).pending = [])
    (heof : (p.shared.mem.conns c).eof = false) : WaitsForPeer cfg p c := by
  refine ⟨fd, len, hnext, fun ch => ?_⟩
  have hblocked : p.shared.mem.recv fd len ch.want = none := by
    rw [Memory.recv, hfd]
    dsimp only
    rw [if_pos hpending, heof]
    rfl
  change ((p.shared.mem.recv fd len ch.want).map _).map _ = none
  rw [hblocked]
  rfl

/-- A client registers, and its handler waits for the next frame. -/
def listeningRun : List RunStep :=
  closedTwiceRun.take 14 ++ [.jump (.server (.handler 0)), .op (.server (.handler 0)) {}]

/-- Then `stop` closes the sessions, and is about to join the handler. -/
def joinedRun : List RunStep :=
  [.env .callStop, .jump (.stop 0), .op (.stop 0) {}, .op (.stop 0) {}, .jump (.server .watchdog),
    .op (.server .watchdog) {}, .op (.stop 0) {}, .op (.stop 0) { order := [4] }]

/-- The handler waits before the run `joinedRun`, and does not after it. -/
theorem joined_handlers_return_registered :
    ∃ q p, (runSystem sampleConfig).Reaches StopFindsEvery q ∧ WaitsForPeer sampleConfig q 0 ∧
      (runSystem sampleConfig).Steps StopFindsEvery q p ∧ JoinsClients p 0 ∧
      0 < p.shared.mem.nextConn ∧ p.shared.ended (.handler 0) = false ∧
      p.next (.server (.handler 0)) = some (.server (.mem (.recv 4 5))) ∧
      p.shared.mem.running = false ∧
      (p.shared.shut 0 = true ∨ SeesStop (p.prog (.server (.handler 0)))) ∧
      ¬ WaitsForPeer sampleConfig p 0 := by
  have ⟨q, p, hq, hp, hwaits, hrun⟩ := Lts.exists_steps_of_runIf (L := runSystem sampleConfig)
    (C := StopFindsSessions) listeningRun joinedRun
    (fun q => decide (q.next (.server (.handler 0)) = some (.server (.mem (.recv 4 5))) ∧
      q.shared.mem.fds 4 = some 0 ∧ (q.shared.mem.conns 0).pending = [] ∧
      (q.shared.mem.conns 0).eof = false))
    (fun p => decide (p.next (.stop 0) = some .clientThreads ∧ 0 < p.shared.mem.nextConn ∧
      p.shared.ended (.handler 0) = false ∧
      p.next (.server (.handler 0)) = some (.server (.mem (.recv 4 5))))) (by decide +kernel)
  obtain ⟨hrecv, hfd, hpending, heof⟩ := of_decide_eq_true hwaits
  obtain ⟨hnext, hlt, hend, hstill⟩ := of_decide_eq_true hrun
  have hfinds := hp.mono fun _ _ hl => hl.finds
  have hreach := (hq.mono fun _ _ hl => hl.finds).trans hfinds
  obtain ⟨hstopped, hreturn⟩ := joined_handlers_return hreach (Or.inl hnext)
  exact ⟨q, p, hq.mono fun _ _ hl => hl.finds, waits_of_recv hrecv hfd hpending heof, hfinds,
    Or.inl hnext, hlt, hend, hstill, hstopped, hreturn 0 hlt hend⟩

/-- A client connects and sends nothing, and the server is stopped. -/
def silentRun : List RunStep :=
  [.jump .main, .op .main {}, .op .main { conn := some (4, "10.0.0.1") }, .op .main {},
    .op .main {}, .env (.start 0), .jump (.server (.handler 0)), .op (.server (.handler 0)) {},
    .env .callStop, .jump (.stop 0), .op (.stop 0) {}, .op (.stop 0) {}, .jump (.server .watchdog),
    .op (.server .watchdog) {}, .op (.stop 0) {}, .op (.stop 0) {}]

/-- `stop` begins to join the handler, which has not been shut down and waits. -/
theorem joined_handler_waits :
    ∃ p, (runSystem sampleConfig).Reaches Lts.Any p ∧ JoinsClients p 0 ∧
      0 < p.shared.mem.nextConn ∧ p.shared.ended (.handler 0) = false ∧
      ¬ (p.shared.shut 0 = true ∨ SeesStop (p.prog (.server (.handler 0)))) ∧
      WaitsForPeer sampleConfig p 0 := by
  have ⟨p, hp, hrun⟩ := Lts.exists_reaches_of_run (L := runSystem sampleConfig) silentRun
    (fun p => decide (p.next (.stop 0) = some .clientThreads) && decide (0 < p.shared.mem.nextConn) &&
      !p.shared.ended (.handler 0) && !p.shared.shut 0 &&
      decide (p.next (.server (.handler 0)) = some (.server (.mem (.recv 4 5)))) &&
      decide (p.shared.mem.fds 4 = some 0) && decide ((p.shared.mem.conns 0).pending = []) &&
      !(p.shared.mem.conns 0).eof) (by decide +kernel)
  simp only [Bool.and_eq_true, decide_eq_true_eq, Bool.not_eq_true'] at hrun
  have ⟨⟨⟨⟨⟨⟨⟨hnext, hlt⟩, hend⟩, hup⟩, hrecv⟩, hfd⟩, hpending⟩, heof⟩ := hrun
  have hwaits : WaitsForPeer sampleConfig p 0 := waits_of_recv hrecv hfd hpending heof
  refine ⟨p, hp, Or.inl hnext, hlt, hend, fun hor => ?_, hwaits⟩
  rcases hor with hdown | hsees
  · rw [hup] at hdown
    cases hdown
  · exact not_waits_of_sees hsees hwaits

end SimpleChat
