import SimpleChat.Ownership

/-!
# Where frames go

A frame written through a `SessionInfo` goes to whatever connection is open
under its `socket_fd`.  The threads keep references to sessions after they
release `sessions_mutex_`, so between the lookup and the write the owner may
close the descriptor and `accept` may hand its number to a stranger.

`Writes` says when a thread holds a session it may still write through, in the
sense of `Prog.Holds`.  `writes_go_home` shows that frames reach the right
connection in every run in which `accept` never returns the number of such a
session, and `writes_go_astray` is a run in which it does.
-/

namespace SimpleChat

open Conc Function

/-! ## The sessions a thread may write through -/

/-- The response of an operation hands out the session. -/
def Gives : (o : ServerOp) → o.Resp → SessionRef → Prop
  | .mem (.getSession _), r, s => r = some s
  | .mem (.findUser _), r, s => r = some s
  | .mem .aliveSessions, r, s => s ∈ r
  | .mem (.markIdle _), r, s => s ∈ r
  | .register _ username peerIp, r, s => (registerReply username peerIp r).1 = some s
  | _, _, _ => False

/-- A thread uses the sessions it writes frames through. -/
def writers : Prog.Handles Server SessionRef where
  uses o s := ∃ msg, o = .sendLocked s msg
  gives := Gives

/-- Thread `t` may still write through `s`. -/
def Writes (p : State) (t : Tid) (s : SessionRef) : Prop := (p.prog t).Holds writers s

theorem mem_visited {m : Memory} {order : List Fd} {s : SessionRef} (h : s ∈ m.visited order) :
    ∃ fd, m.registry.sessions.lookup fd = some s := by
  rw [Memory.visited, List.mem_filterMap] at h
  obtain ⟨fd, -, hs⟩ := h
  exact ⟨fd, hs⟩

theorem markIdle_subset {idle now : Int} {todo : List SessionRef} {m : Memory}
    {s : SessionRef} (h : s ∈ (Memory.markIdle idle now todo m).1) : s ∈ todo := by
  induction todo generalizing m with
  | nil => exact h
  | cons t todo ih =>
    rw [Memory.markIdle] at h
    dsimp only at h
    split at h
    · rcases List.mem_cons.1 h with rfl | h
      · exact List.mem_cons_self
      · exact List.mem_cons_of_mem _ (ih h)
    · exact List.mem_cons_of_mem _ (ih h)

/-- A session that a lookup hands out is in the registry. -/
theorem Memory.exec_gives {m m' : Memory} {idle : Int} {o : MemOp} {ch : Choice} {r : o.Resp}
    {s : SessionRef} (h : m.exec idle o ch = some (r, m')) (hg : Gives (.mem o) r s) :
    ∃ fd, m.registry.sessions.lookup fd = some s := by
  cases o with
  | getSession fd =>
    cases h
    exact ⟨fd, hg⟩
  | findUser u =>
    cases h
    change m.findUser u = some s at hg
    rw [Memory.findUser] at hg
    split at hg
    · cases hg
    · exact ⟨_, hg⟩
  | aliveSessions =>
    rw [Memory.exec] at h
    split at h
    · cases h
      exact mem_visited (List.mem_filter.1 hg).1
    · cases h
  | markIdle now =>
    rw [Memory.exec] at h
    split at h
    · have hr := (Prod.mk.inj (Option.some.inj h)).1
      change s ∈ r at hg
      rw [← hr] at hg
      exact mem_visited (markIdle_subset hg)
    · cases h
  | recv | dispatch | running | getPeerIp | removeSession | listSessions | read | restore
    | setStatus | touch | now | close => exact hg.elim

theorem exec_gives {cfg : Config} {t : Tid} {w w' : World} {o : MemOp} {ch : Choice}
    {r : o.Resp} {s : SessionRef} (h : w.exec cfg t (.mem o) ch = some (r, w'))
    (hg : Gives (.mem o) r s) : ∃ fd, w.mem.registry.sessions.lookup fd = some s := by
  rw [World.exec, Option.map_eq_some_iff] at h
  obtain ⟨_, he, hx⟩ := h
  cases hx
  exact Memory.exec_gives he hg

/-! ## The programs use the sessions they are given -/

@[simp] theorem not_uses_mem {o : MemOp} {s : SessionRef} : ¬ writers.uses (.mem o) s := by
  rintro ⟨msg, h⟩
  cases h

@[simp] theorem not_uses_sendBare {fd : Fd} {msg : ServerMsg} {s : SessionRef} :
    ¬ writers.uses (.sendBare fd msg) s := by
  rintro ⟨msg, h⟩
  cases h

@[simp] theorem not_uses_register {fd : Fd} {u a : String} {s : SessionRef} :
    ¬ writers.uses (.register fd u a) s := by
  rintro ⟨msg, h⟩
  cases h

@[simp] theorem uses_sendLocked {s t : SessionRef} {msg : ServerMsg} :
    writers.uses (.sendLocked t msg) s ↔ t = s := by
  constructor
  · rintro ⟨msg', h⟩
    cases h
    rfl
  · rintro rfl
    exact ⟨msg, rfl⟩

section Given

/-- The program writes only through sessions of `K` and those it is handed. -/
abbrev Given {α : Type} (p : Prog Server α) (K : SessionRef → Prop) : Prop :=
  p.Obeys writers.monitor (fun _ _ => True) K

variable (cfg : Config) (fd : Fd) (payload : Bytes) (K : SessionRef → Prop)

theorem given_of_only {α : Type} {p : Prog Server α}
    (h : p.Only fun o => ∀ y, writers.uses o y → K y) : Given p K :=
  (h.obeys_monitor fun _ hy => hy).weaken fun _ _ _ => trivial

theorem handleRegister_given : Given (handleRegister cfg fd payload) K := by
  refine given_of_only K ((handleRegister_only cfg fd payload).mono fun o ho y hy => ?_)
  cases ho <;> simp at hy

theorem withSession_given {body : SessionRef → Prog Server Unit}
    (h : ∀ s K, K s → Given (body s) K) : Given (withSession fd body) K := by
  simp only [withSession, mem_eq, Prog.call_bind, Prog.ret_bind, Given]
  rw [Prog.obeys_monitor_call]
  refine ⟨by simp, fun r => ?_⟩
  cases r with
  | none => exact given_of_only _ (by simp)
  | some s => exact h s _ (Or.inr rfl)

/-- A handler writes through the session that it has found, but for deliveries. -/
theorem BodyOp.writes {s y : SessionRef} {o : ServerOp} (h : BodyOp s o) (hy : writers.uses o y) :
    y = s := by
  cases h with
  | reply => exact (uses_sendLocked.1 hy).symm
  | userInfo => exact (uses_sendLocked.1 hy).symm
  | _ => simp at hy

theorem ListOp.writes {s y : SessionRef} {o : ServerOp} (h : ListOp s o) (hy : writers.uses o y) :
    y = s := by
  cases h with
  | snapshot => simp at hy
  | list => exact (uses_sendLocked.1 hy).symm

theorem SessionHandler.given {P : SessionRef → ServerOp → Prop} {p : Prog Server Unit}
    (h : SessionHandler fd P p) (hP : ∀ s o, P s o → ∀ y, writers.uses o y → y = s) : Given p K := by
  obtain ⟨body, rfl, hbody⟩ := h
  refine withSession_given fd K fun s K hs => given_of_only _ ((hbody s).mono fun o ho y hy => ?_)
  rw [hP s o ho y hy]
  exact hs

/-- After `maybe_restore_activity` the thread may still write through the
session. -/
theorem maybeRestoreActivity_bind_given {s : SessionRef} {rest : Prog Server Unit} (hs : K s)
    (h : ∀ K, K s → Given rest K) : Given (maybeRestoreActivity s >>= fun _ => rest) K := by
  have honly : (maybeRestoreActivity s).Only fun o => ∀ y, writers.uses o y → y = s :=
    (maybeRestoreActivity_only s).mono fun _ ho y hy => ho.writes hy
  refine (honly.obeys_monitor ?_).bind fun _ K' hK' => h K' (hK' s rfl)
  rintro y rfl
  exact hs

theorem handleMessageGeneral_given : Given (handleMessageGeneral cfg fd payload) K := by
  refine withSession_given fd K fun s K hs => ?_
  split
  · exact given_of_only _ (by simpa using hs)
  · refine maybeRestoreActivity_bind_given K hs fun K _ => ?_
    simp only [mem_eq, Prog.call_bind, Prog.ret_bind, Given]
    rw [Prog.obeys_monitor_call]
    refine ⟨by simp, fun i => ?_⟩
    rw [Prog.obeys_monitor_call]
    refine ⟨by simp, fun targets => given_of_only _ (.forM fun t ht => .perform ?_)⟩
    intro y hy
    rw [uses_sendLocked] at hy
    exact Or.inr (hy ▸ ht)

theorem handleMessageDm_given : Given (handleMessageDm cfg fd payload) K := by
  refine withSession_given fd K fun s K hs => ?_
  split
  · exact given_of_only _ (by simpa using hs)
  · rename_i msg _
    refine maybeRestoreActivity_bind_given K hs fun K hs => ?_
    simp only [mem_eq, Prog.call_bind, Prog.ret_bind, Given]
    rw [Prog.obeys_monitor_call]
    refine ⟨by simp, fun i => ?_⟩
    rw [Prog.obeys_monitor_call]
    refine ⟨by simp, fun dest => ?_⟩
    cases dest with
    | none => exact given_of_only _ (by simpa using Or.inl (Or.inl hs))
    | some d =>
      have hd : Gives (.mem (.findUser msg.usernameDes)) (some d) d := rfl
      dsimp only
      rw [Prog.obeys_monitor_call]
      refine ⟨by simp, fun j => ?_⟩
      split
      · refine given_of_only _ ⟨?_, fun _ => ⟨?_, fun _ => trivial⟩⟩
        · intro y hy
          rw [uses_sendLocked] at hy
          exact Or.inl (Or.inr (hy ▸ hd))
        · intro y hy
          rw [uses_sendLocked] at hy
          exact Or.inl (Or.inl (Or.inl (hy ▸ hs)))
      · refine given_of_only _ ⟨?_, fun _ => trivial⟩
        intro y hy
        rw [uses_sendLocked] at hy
        exact Or.inl (Or.inl (Or.inl (hy ▸ hs)))

theorem handleChangeStatus_given : Given (handleChangeStatus cfg fd payload) K :=
  (handleChangeStatus_only cfg fd payload).given fd K fun _ _ ho _ hy => ho.writes hy

theorem handleListUsers_given : Given (handleListUsers cfg fd payload) K :=
  (handleListUsers_only cfg fd payload).given fd K fun _ _ ho _ hy =>
    ho.elim (fun ho => ho.writes hy) fun ho => ho.writes hy

theorem handleGetUserInfo_given : Given (handleGetUserInfo cfg fd payload) K :=
  (handleGetUserInfo_only cfg fd payload).given fd K fun _ _ ho _ hy => ho.writes hy

theorem handleQuit_given : Given (handleQuit cfg fd payload) K := by
  simp only [handleQuit, mem_eq, Prog.call_bind, Prog.ret_bind, Given]
  rw [Prog.obeys_monitor_call]
  refine ⟨by simp, fun session => given_of_only _ ?_⟩
  split
  · simp
  · cases session <;> simp [writers, Gives]

theorem handleFrame_given (msgType : UInt8) :
    Given (handleFrame cfg fd msgType payload) K :=
  handleFrame_cases (R := fun p => Given p K) msgType (handleRegister_given cfg fd payload K)
    (handleMessageGeneral_given cfg fd payload K) (handleMessageDm_given cfg fd payload K)
    (handleChangeStatus_given cfg fd payload K) (handleListUsers_given cfg fd payload K)
    (handleGetUserInfo_given cfg fd payload K) (handleQuit_given cfg fd payload K)
    (given_of_only K (by simp))

theorem recvMessage_only (P : ServerOp → Prop) (h : ∀ o : MemOp, P (.mem o)) :
    ((recvMessage fd).lift recvEmbedding).Only P :=
  (recvMessage_reads fd).lift fun _ _ => h _

theorem handleClient_given : Given (handleClient cfg fd) K := by
  simp only [handleClient, mem_eq, Prog.call_bind, Prog.ret_bind, Given]
  rw [Prog.obeys_monitor_call]
  refine ⟨by simp, fun running => ?_⟩
  split
  · trivial
  · refine (given_of_only _ (recvMessage_only fd _ (by simp))).bind fun frame K' _ => ?_
    cases frame with
    | none => trivial
    | some frame =>
      obtain ⟨msgType, payload⟩ := frame
      dsimp only
      rw [Prog.obeys_monitor_call]
      refine ⟨by simp, fun _ => ?_⟩
      rw [dispatch_eq]
      exact (handleFrame_given cfg fd payload _ msgType).bind fun _ _ _ => trivial

theorem watchdogLoop_given : Given (watchdogLoop cfg) K := by
  simp only [watchdogLoop, mem_eq, Prog.call_bind, Prog.ret_bind, Given]
  rw [Prog.obeys_monitor_call]
  refine ⟨by simp, fun _ => ?_⟩
  split
  · trivial
  rw [Prog.obeys_monitor_call]
  refine ⟨by simp, fun _ => ?_⟩
  split
  · trivial
  rw [Prog.obeys_monitor_call]
  refine ⟨by simp, fun now => ?_⟩
  rw [Prog.obeys_monitor_call]
  refine ⟨by simp, fun toNotify => ?_⟩
  refine Prog.Obeys.bind (given_of_only _ (.forM fun s hs => .perform ?_)) fun _ _ _ => trivial
  intro y hy
  rw [uses_sendLocked] at hy
  exact Or.inr (hy ▸ hs)

/-- A thread that passes a control point holds no session. -/
theorem program_given (c : Ctl) : Given (c.program cfg) K := by
  cases c with
  | loop fd => exact handleClient_given cfg fd K
  | cleanup fd => exact given_of_only K (by simp [Ctl.program, handleClientCleanup])
  | watchdog => exact watchdogLoop_given cfg K
  | ended => trivial

end Given

/-! ## The connection of a session -/

/-- The session was registered on connection `c`. -/
def RegisteredOn (log : List (Event Server Tid)) (s : SessionRef) (c : ConnId) : Prop :=
  ∃ fd u a, (⟨.handler c, .register fd u a, .registered s⟩ : Event Server Tid) ∈ log

/-- A write through the session reaches its own connection, or none. -/
structure Memory.Home (m : Memory) (s : SessionRef) : Prop where
  allocated : s < m.nextRef
  conn : ∀ c, m.fds (m.heap s).socketFd = some c → m.registeredOn s = c

/-- A session in the registry is at home. -/
theorem Memory.Owned.home {m : Memory} {qs : Tid → Phase} (h : m.Owned qs) {fd : Fd}
    {s : SessionRef} (hs : m.registry.sessions.lookup fd = some s) : m.Home s where
  allocated := h.consistent.allocated fd s hs
  conn c hc := by
    rw [h.consistent.socketFd fd s hs, (h.owner fd s hs).1, Option.some.injEq] at hc
    exact hc

/-- An operation of a thread leaves every session at home that was. -/
theorem exec_home {cfg : Config} {t : Tid} {w w' : World} {o : ServerOp} {ch : Choice}
    {r : o.Resp} {s : SessionRef} (he : w.exec cfg t o ch = some (r, w')) (h : w.mem.Home s) :
    w'.mem.Home s := by
  rcases World.exec_mem_cases he with ⟨hf, -⟩ | ⟨fd, -, hm⟩ | ⟨fd, -, hm⟩ | ⟨c, fd, u, a, -, -, hm⟩
  · exact ⟨hf.nextRef ▸ h.allocated, by rw [hf.fds, hf.socketFd, hf.registeredOn]; exact h.conn⟩
  · rw [hm]
    refine ⟨by simpa using h.allocated, fun c hc => ?_⟩
    rw [Memory.removeSession_socketFd, Memory.removeSession_fds] at hc
    rw [Memory.removeSession_registeredOn]
    exact h.conn c hc
  · rw [hm]
    refine ⟨h.allocated, fun c hc => h.conn c ?_⟩
    by_cases hfd : (w.mem.heap s).socketFd = fd
    · simp [Memory.close, hfd] at hc
    · simpa [Memory.close, hfd] using hc
  · rw [hm]
    rcases Memory.register_cases_created w.mem c fd u a with ⟨-, hr⟩ | ⟨-, -, -, hr⟩ <;> rw [hr]
    · exact h
    · have hne : s ≠ w.mem.nextRef := Nat.ne_of_lt h.allocated
      exact ⟨Nat.lt_succ_of_lt h.allocated, by simpa [hne] using h.conn⟩

/-- The session that the locked block of `handle_register` replies through is
the one of the descriptor. -/
theorem registerReply_via {m : Memory} {c : ConnId} {fd : Fd} {u a : String} {s : SessionRef}
    (h : (registerReply u a (m.register c fd u a).1).1 = some s) :
    (m.register c fd u a).2.registry.sessions.lookup fd = some s := by
  rcases Memory.register_cases m c fd u a with ⟨t, ht, hr⟩ | ⟨-, -, hr⟩ | ⟨-, -, -, hr⟩ |
    ⟨-, -, -, hr⟩ <;> rw [hr] at h ⊢
  · rw [← h]
    exact ht
  · cases h
  · cases h
  · rw [← h]
    exact Finmap.lookup_insert _

/-- The history knows on which connection each session was registered. -/
theorem registeredOn_iff {cfg : Config} {C : State → Step → Prop} {p : State}
    (h : (system cfg).Reaches C p) (s : SessionRef) (c : ConnId) :
    RegisteredOn p.log s c ↔ s < p.shared.mem.nextRef ∧ p.shared.mem.registeredOn s = c := by
  revert s c
  refine world_invariant (I := fun w log => ∀ s c, RegisteredOn log s c ↔
    s < w.mem.nextRef ∧ w.mem.registeredOn s = c) ?_ ?_ ?_ h
  · intro s c
    simp [RegisteredOn, Memory.init]
  · rintro p qs t o k ch r w hq hI hprog - he s c
    have happend : RegisteredOn (p.log ++ [⟨t, o, r⟩]) s c ↔ RegisteredOn p.log s c ∨
        ∃ fd u a, (⟨.handler c, .register fd u a, .registered s⟩ : Event Server Tid) = ⟨t, o, r⟩ := by
      simp only [RegisteredOn, List.mem_append, List.mem_singleton, exists_or]
    rw [happend, hI s c]
    rcases World.exec_mem_cases he with ⟨hf, -, -, h3⟩ | ⟨fd, rfl, hm⟩ | ⟨fd, rfl, hm⟩ |
      ⟨d, fd, u, a, rfl, rfl, hm⟩
    · rw [hf.nextRef, hf.registeredOn]
      refine or_iff_left ?_
      rintro ⟨fd, u, a, heq⟩
      cases heq
      exact h3 _ _ _ rfl
    · rw [hm]
      rw [Memory.removeSession_nextRef, Memory.removeSession_registeredOn]
      refine or_iff_left ?_
      rintro ⟨fd, u, a, heq⟩
      cases heq
    · rw [hm]
      refine or_iff_left ?_
      rintro ⟨fd, u, a, heq⟩
      cases heq
    · obtain ⟨rfl, -⟩ := World.exec_register.1 he
      rw [hm]
      rcases Memory.register_cases_created p.shared.mem d fd u a with ⟨hno, hr⟩ | ⟨-, -, -, hr⟩
      · rw [hr]
        refine or_iff_left ?_
        rintro ⟨fd', u', a', heq⟩
        injection heq with _ _ heq
        exact hno s heq.symm
      · rw [hr]
        dsimp only
        constructor
        · rintro (⟨hlt, rfl⟩ | ⟨fd', u', a', heq⟩)
          · exact ⟨Nat.lt_succ_of_lt hlt, update_of_ne (Nat.ne_of_lt hlt) _ _⟩
          · cases heq
            exact ⟨Nat.lt_succ_self _, update_self _ _ _⟩
        · rintro ⟨hlt, hc⟩
          rcases Nat.lt_succ_iff_lt_or_eq.1 hlt with hlt | rfl
          · rw [update_of_ne (Nat.ne_of_lt hlt)] at hc
            exact Or.inl ⟨hlt, hc⟩
          · rw [update_self] at hc
            subst hc
            exact Or.inr ⟨fd, u, a, rfl⟩
  · rintro p qs e w start - hI - he s c
    rw [hI s c]
    rcases World.env_mem_cases he with ⟨-, hf, -⟩ | ⟨fd, peerIp, -, -, -, rfl⟩
    · rw [hf.nextRef, hf.registeredOn]
    · rfl

/-! ## What is written stays written -/

theorem World.write_out_prefix (w : World) (fd : Fd) (via : Option SessionRef) (msg : ServerMsg)
    (c : ConnId) : w.out c <+: (w.write fd via msg).out c := by
  unfold write
  split
  · exact List.prefix_refl _
  · rename_i d hd
    by_cases hc : c = d
    · subst hc
      show _ <+: update w.out c _ c
      rw [update_self]
      exact List.prefix_append _ _
    · show _ <+: update w.out d _ c
      rw [update_of_ne hc]

theorem World.reply_out_prefix (w : World) (fd : Fd) (r : Option SessionRef × ServerMsg)
    (c : ConnId) : w.out c <+: (w.reply fd r).out c := by
  unfold reply
  split <;> exact write_out_prefix w _ _ _ c

/-- A step of the server takes no frame back. -/
theorem out_prefix {cfg : Config} {p p' : State} {l : Step} (h : (system cfg).step p l = some p')
    (c : ConnId) : p.shared.out c <+: p'.shared.out c := by
  cases l with
  | op t ch =>
    have ⟨o, k, r, w, _, he, hp'⟩ := Machine.step_op.1 h
    rw [hp', Pool.afterOp_shared]
    change p.shared.exec cfg t o ch = some (r, w) at he
    cases o with
    | mem o =>
      have ⟨x, _, hx⟩ := Option.map_eq_some_iff.1 he
      cases hx
      exact List.prefix_refl _
    | sendBare fd msg =>
      cases he
      exact World.write_out_prefix _ _ _ _ c
    | sendLocked s msg =>
      cases he
      exact World.write_out_prefix _ _ _ _ c
    | register fd u a =>
      cases t with
      | watchdog => cases he
      | handler d =>
        have ⟨_, hw⟩ := World.exec_register.1 he
        rw [hw]
        exact World.reply_out_prefix ⟨(p.shared.mem.register d fd u a).2, p.shared.out⟩ fd _ c
  | jump t =>
    have ⟨_, _, hp'⟩ := Machine.step_jump.1 h
    rw [hp']
    exact List.prefix_refl _
  | env e =>
    have ⟨w, start, he, hp'⟩ := Machine.step_env.1 h
    rw [hp', Pool.afterEnv_shared]
    rcases World.env_mem_cases he with ⟨_, _, hout⟩ | ⟨fd, peerIp, _, _, _, hw⟩
    · rw [hout]
    · rw [hw]

theorem steps_out_prefix {cfg : Config} {C : State → Step → Prop} {p p' : State}
    (h : (system cfg).Steps C p p') (c : ConnId) : p.shared.out c <+: p'.shared.out c :=
  h.invariant (I := fun q => p.shared.out c <+: q.shared.out c) (List.prefix_refl _)
    fun _ _ _ _ hI _ hs => hI.trans <| out_prefix hs c

/-! ## The runs in which every frame goes home -/

/-- Every frame written through a session is on the connection on which the
session was registered. -/
def WritesGoHome (p : State) : Prop :=
  ∀ c x s, x ∈ p.shared.out c → x.via = some s → ∀ d, RegisteredOn p.log s d ↔ d = c

/-- `accept` does not return the number of a session that some thread may still
write through. -/
def NoStaleWriter (p : State) : Step → Prop
  | .env (.accept fd _) => ∀ t s, Writes p t s → (p.shared.mem.heap s).socketFd ≠ fd
  | _ => True

/-- What a thread writes through a session, it may write through. -/
theorem exec_out {cfg : Config} {t : Tid} {w w' : World} {o : ServerOp} {ch : Choice}
    {r : o.Resp} {c : ConnId} {x : Written} {s : SessionRef}
    (he : w.exec cfg t o ch = some (r, w')) (hx : x ∈ w'.out c) (hvia : x.via = some s) :
    x ∈ w.out c ∨
      (w'.mem.fds (w'.mem.heap s).socketFd = some c ∧
        (writers.uses o s ∨ ∃ fd, w'.mem.registry.sessions.lookup fd = some s)) := by
  cases o with
  | mem o =>
    rw [World.exec, Option.map_eq_some_iff] at he
    obtain ⟨⟨_, m'⟩, -, hx'⟩ := he
    obtain ⟨-, rfl⟩ := Prod.mk.inj hx'
    exact Or.inl hx
  | sendBare fd msg =>
    cases he
    rcases World.mem_write_out _ hx with hx | ⟨rfl, -⟩
    · exact Or.inl hx
    · cases hvia
  | sendLocked s' msg =>
    cases he
    rcases World.mem_write_out _ hx with hx | ⟨rfl, hfd⟩
    · exact Or.inl hx
    · cases hvia
      rw [World.write_mem]
      exact Or.inr ⟨hfd, Or.inl ⟨msg, rfl⟩⟩
  | register fd u a =>
    cases t with
    | watchdog => cases he
    | handler d =>
      obtain ⟨rfl, rfl⟩ := World.exec_register.1 he
      rw [World.reply_mem]
      rw [World.reply] at hx
      split at hx
      · rcases World.mem_write_out _ hx with hx | ⟨rfl, -⟩
        · exact Or.inl hx
        · cases hvia
      · rename_i s' hs'
        rcases World.mem_write_out _ hx with hx | ⟨rfl, hfd⟩
        · exact Or.inl hx
        · cases hvia
          exact Or.inr ⟨hfd, Or.inr ⟨fd, registerReply_via hs'⟩⟩

theorem RegisteredOn.mono {log : List (Event Server Tid)} {s : SessionRef} {c : ConnId}
    (h : RegisteredOn log s c) (e : Event Server Tid) : RegisteredOn (log ++ [e]) s c := by
  obtain ⟨fd, u, a, he⟩ := h
  exact ⟨fd, u, a, List.mem_append_left _ he⟩

/-- `accept` leaves a session at home whose number it does not return. -/
theorem Memory.Home.accept {m : Memory} {s : SessionRef} {fd : Fd} (peerIp : String)
    (h : m.Home s) (hfd : (m.heap s).socketFd ≠ fd) : (m.accept fd peerIp).Home s :=
  ⟨h.allocated, by simpa [Memory.accept, hfd] using h.conn⟩

theorem Memory.Home.frame {m m' : Memory} {s : SessionRef} (h : m.Home s) (hf : m.Frame m') :
    m'.Home s :=
  ⟨hf.nextRef ▸ h.allocated, by rw [hf.fds, hf.socketFd, hf.registeredOn]; exact h.conn⟩

/-- In a run that meets the condition, the sessions that threads may still
write through are at home, and so are the frames that were written. -/
theorem writes_home {cfg : Config} {p : State} (h : (system cfg).Reaches NoStaleWriter p) :
    (∀ t s, Writes p t s → p.shared.mem.Home s) ∧
      ∀ c x s, x ∈ p.shared.out c → x.via = some s → RegisteredOn p.log s c := by
  refine h.invariant (I := fun p => (∀ t s, Writes p t s → p.shared.mem.Home s) ∧
    ∀ c x s, x ∈ p.shared.out c → x.via = some s → RegisteredOn p.log s c) ⟨?_, ?_⟩ ?_
  · intro t s hw
    exact absurd hw Prog.not_holds_ret
  · rintro c x s hx
    cases hx
  rintro p l p' hr ⟨hwrites, hout⟩ hCl hs
  obtain ⟨qs, hq⟩ := reachable_owned hr
  have hr' := hr.tail hCl hs
  cases l with
  | op t ch =>
    obtain ⟨o, k, r, w, hprog, he, rfl⟩ := Machine.step_op.1 hs
    change p.shared.exec cfg t o ch = some (r, w) at he
    have hgiven : ∀ s, Gives o r s → w.mem.Home s := by
      intro s hg
      cases o with
      | mem o =>
        have ⟨fd, hfd⟩ := exec_gives he hg
        exact exec_home he (hq.2.1.home hfd)
      | sendBare fd msg => exact hg.elim
      | sendLocked s' msg => exact hg.elim
      | register fd u a =>
        have ⟨qs', hq'⟩ := reachable_owned hr'
        cases t with
        | watchdog => cases he
        | handler d =>
          have ⟨hreg, hw⟩ := World.exec_register.1 he
          have hlookup : w.mem.registry.sessions.lookup fd = some s := by
            rw [hw, World.reply_mem]
            rw [hreg] at hg
            exact registerReply_via hg
          exact hq'.2.1.home hlookup
    refine ⟨fun u s hw => ?_, fun c x s hx hvia => ?_⟩
    · by_cases hu : u = t
      · subst hu
        rw [Writes, Pool.afterOp_prog, update_self] at hw
        rcases hw.of_cont with hg | hw
        · exact hgiven s hg
        · exact exec_home he (hwrites u s (by rw [Writes, hprog]; exact hw))
      · rw [Writes, Pool.afterOp_prog, update_of_ne hu] at hw
        exact exec_home he (hwrites u s hw)
    · rcases exec_out he hx hvia with hx | ⟨hfd, hw⟩
      · exact (hout c x s hx hvia).mono _
      · -- The session is at home after the operation, and the frame went there.
        have hhome : w.mem.Home s := by
          rcases hw with hw | ⟨fd, hfd⟩
          · exact exec_home he (hwrites t s (by rw [Writes, hprog]; exact .here hw))
          · obtain ⟨qs', hq'⟩ := reachable_owned hr'
            exact hq'.2.1.home hfd
        exact (registeredOn_iff hr' s c).2 ⟨hhome.allocated, hhome.conn c hfd⟩
  | jump t =>
    obtain ⟨c, -, rfl⟩ := Machine.step_jump.1 hs
    refine ⟨fun u s hw => ?_, hout⟩
    by_cases hu : u = t
    · subst hu
      rw [Writes, Pool.withProg_prog, update_self] at hw
      exact (hw.given (program_given cfg (fun _ => False) c)).elim
    · rw [Writes, Pool.withProg_prog, update_of_ne hu] at hw
      exact hwrites u s hw
  | env e =>
    obtain ⟨w, start, he, rfl⟩ := Machine.step_env.1 hs
    change p.shared.env e = some (w, start) at he
    rcases World.env_mem_cases he with ⟨rfl, hf, hwout⟩ | ⟨fd, peerIp, rfl, -, rfl, rfl⟩
    · refine ⟨fun u s hw => (hwrites u s hw).frame (by simpa using hf), ?_⟩
      simpa [hwout] using hout
    · refine ⟨fun u s hw => ?_, by simpa using hout⟩
      rw [Writes, Pool.afterEnv_some_prog] at hw
      by_cases hu : u = .handler p.shared.mem.nextConn
      · rw [hu, update_self] at hw
        exact absurd hw Prog.not_holds_ret
      · rw [update_of_ne hu] at hw
        simpa using (hwrites u s hw).accept peerIp (hCl u s hw)

/-- In every run in which no `accept` returns the number of a session that a
thread may still write through, each frame written through a session is on the
connection on which the session was registered. -/
theorem writes_go_home {cfg : Config} {p : State}
    (h : (system cfg).Reaches NoStaleWriter p) : WritesGoHome p := by
  intro c x s hx hvia d
  have hreg := (writes_home h).2 c x s hx hvia
  constructor
  · intro hd
    rw [registeredOn_iff h] at hreg hd
    exact hd.2.symm.trans hreg.2
  · rintro rfl
    exact hreg

/-- The threads are between two turns when a connection is accepted, for evaluation. -/
def AcceptsBetweenTurns (p : State) : Step → Prop
  | .env (.accept _ _) => (p.prog .watchdog).returned ≠ none ∧
      ∀ c < p.shared.mem.nextConn, (p.prog (.handler c)).returned ≠ none
  | _ => True

instance (p : State) (l : Step) : Decidable (AcceptsBetweenTurns p l) := by
  unfold AcceptsBetweenTurns
  split <;> infer_instance

theorem noStaleWriter_of_between {cfg : Config} {p : State}
    (h : (system cfg).Reaches AcceptsBetweenTurns p) : (system cfg).Reaches NoStaleWriter p := by
  refine h.strengthen fun q l _ hq hC _ => ?_
  unfold NoStaleWriter
  split
  · intro t s hw
    obtain ⟨qs, hown⟩ := reachable_owned hq
    cases hprog : q.prog t with
    | ret c =>
      rw [Writes, hprog] at hw
      exact absurd hw Prog.not_holds_ret
    | call o k =>
      have hbusy : (q.prog t).returned = none := by rw [hprog]; rfl
      cases t with
      | watchdog => exact absurd hbusy hC.1
      | handler c => exact absurd hbusy (hC.2 c (hown.lt_nextConn hprog))
  · trivial

/-- In `reuseRun` nobody may write through the session of "a" any more when its
descriptor is reused, and the frames of the three clients go home. -/
theorem writes_go_home_registered :
    ∃ p, (system sampleConfig).Reaches NoStaleWriter p ∧
      (p.shared.out 0).map Written.via = [some 0, some 0] ∧
      (p.shared.out 1).map Written.via = [none, some 1] ∧
      (p.shared.out 2).map Written.via = [some 2] ∧
      (p.shared.mem.conns 0).fd = (p.shared.mem.conns 2).fd ∧ WritesGoHome p := by
  obtain ⟨p, hp, hrun⟩ := Lts.exists_reaches_of_runIf (L := system sampleConfig)
    (C := AcceptsBetweenTurns) reuseRun
    (fun p => decide ((p.shared.out 0).map Written.via = [some 0, some 0] ∧
      (p.shared.out 1).map Written.via = [none, some 1] ∧
      (p.shared.out 2).map Written.via = [some 2] ∧
      (p.shared.mem.conns 0).fd = (p.shared.mem.conns 2).fd))
    (by decide +kernel)
  have hreach := noStaleWriter_of_between hp
  obtain ⟨h0, h1, h2, hfd⟩ := of_decide_eq_true hrun
  exact ⟨p, hreach, h0, h1, h2, hfd, writes_go_home hreach⟩

/-- Client 0 broadcasts "hi".  Its handler takes the targets; client 1 closes,
and its handler removes the session and closes descriptor 5; a third connection
is accepted under 5; then the handler of client 0 sends. -/
def strayRun : List Step :=
  [.env (.accept 4 "10.0.0.1"), .env (.clientSend 0 [1, 0, 0, 0, 3, 10, 1, 97])] ++
    turn (.handler 0) 6 ++
  [.env (.accept 5 "10.0.0.2"), .env (.clientSend 1 [1, 0, 0, 0, 3, 10, 1, 98])] ++
    turn (.handler 1) 6 ++
  [.env (.clientSend 0 [2, 0, 0, 0, 4, 10, 2, 104, 105])] ++ turn (.handler 0) 8 ++
  [.op (.handler 0) { order := [4, 5] }, .env (.clientClose 1)] ++ turn (.handler 1) 2 ++
    turn (.handler 1) 2 ++
  [.env (.accept 5 "10.0.0.3"), .op (.handler 0) {}, .op (.handler 0) {}]

/-- The third connection receives the broadcast through the session of "b". -/
theorem writes_go_astray :
    ¬ ∀ p, (system sampleConfig).Reaches Lts.Any p → WritesGoHome p := by
  intro hall
  obtain ⟨p, hp, hrun⟩ := Lts.exists_reaches_of_run (L := system sampleConfig) strayRun
    (fun p =>
      p.shared.out 2 == [⟨some 1, .broadcastDelivery { message := "hi", usernameOrigin := "a" }⟩] &&
        p.shared.mem.registeredOn 1 == 1)
    (by decide +kernel)
  simp only [Bool.and_eq_true, beq_iff_eq] at hrun
  have hreg := (hall p hp 2 _ 1 (by rw [hrun.1]; exact List.mem_cons_self) rfl 2).2 rfl
  rw [registeredOn_iff hp, hrun.2] at hreg
  exact absurd hreg.2 (by decide)

end SimpleChat
