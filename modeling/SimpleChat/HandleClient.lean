import SimpleChat.Framing
import SimpleChat.Ownership

/-!
# The loop of `handle_client`

What a handler dispatches, compared with the bytes that its client sent.
`turnMonitor` carries the reader of `recv_message` over the turns of the loop:
a handler dispatches the frame that it has just read, and reaches the label
`cleanup` only where no frame is left to read.  `ReadSoFar` is the invariant:
the bytes received are the frames dispatched, and what was read since.

`dispatched_frames` is the result for every reachable state.  Parsing a payload
plays no part in it: no statement here mentions the protobuf code.
-/

namespace SimpleChat

open Conc Function Data

/-! ## What a handler dispatches -/

/-- The frames that the handler of connection `c` has dispatched. -/
def dispatched (c : ConnId) (log : List (Event Server Tid)) : List (UInt8 × Bytes) :=
  log.filterMap fun e =>
    match e.tid, e.op with
    | .handler d, .mem (.dispatch msgType payload) => if d = c then some (msgType, payload) else none
    | _, _ => none

/-- The bytes that a client has sent so far. -/
def Memory.sentBytes (m : Memory) (c : ConnId) : Bytes :=
  (m.conns c).received ++ (m.conns c).pending

/-- A frame after which the handler reads no more. -/
def isQuit (f : WireFrame) : Bool := f.1.1 = MsgType.QUIT

/-- The handler is at the label `cleanup`, or behind it. -/
def LoopEnded : Prog Server Ctl → Prop
  | .ret (.cleanup _) => True
  | .ret .ended => True
  | .call (.mem (.removeSession _)) _ => True
  | .call (.mem (.close _)) _ => True
  | _ => False

/-- The handler waits in `recv` for bytes that its client has not sent. -/
def Starved (p : State) (c : ConnId) : Prop :=
  (p.shared.mem.conns c).pending = [] ∧
    ∃ fd len k, p.prog (.handler c) = .call (.mem (.recv fd len)) k

theorem dispatched_append (c : ConnId) (L R : List (Event Server Tid)) :
    dispatched c (L ++ R) = dispatched c L ++ dispatched c R := List.filterMap_append

/-! ## The discipline of the loop -/

/-- The effect of an operation on the reader of a handler. -/
def Reading.afterOp (q : Reading) : (o : ServerOp) → o.Resp → Reading
  | .mem (.recv _ _), r => q.after r
  | .mem (.dispatch msgType _), _ => ⟨[], if msgType = MsgType.QUIT then some .quit else none⟩
  | .mem .running, false => { q with ending := some .error }
  | _, _ => q

/-- What a handler may do with what it has read. -/
def Reading.Allows (q : Reading) : ServerOp → Prop
  | .mem (.recv _ len) => 0 < len ∧ frameCode.Stuck q.got ∧ q.ending = none
  | .mem (.dispatch msgType payload) =>
    payload.length ≤ MAX_PAYLOAD ∧ q = ⟨encodeFrame msgType payload, none⟩
  | .mem (.removeSession _) => q.Done
  | .mem (.close _) => q.Done
  | _ => True

/-- A handler dispatches the frame that it has read, and cleans up where no
frame can be read any more. -/
def turnMonitor : Prog.Monitor Server Reading where
  guard q o := q.Allows o
  next q o r q' := q' = q.afterOp o r

/-- What has been read where a thread passes a control point. -/
def TurnAt : Ctl → Reading → Prop
  | .loop _, q => q = ⟨[], none⟩
  | .cleanup _, q => q.Done
  | .ended, q => q.Done
  | .watchdog, _ => True

theorem obeys_turn_call {α : Type} {o : ServerOp} {k : o.Resp → Prog Server α} {q : Reading}
    {post : α → Reading → Prop} :
    (Prog.call (S := Server) o k).Obeys turnMonitor post q ↔
      q.Allows o ∧ ∀ r, (k r).Obeys turnMonitor post (q.afterOp o r) :=
  Prog.obeys_det_call

/-- An operation that has nothing to do with reading. -/
def ReadsNothing : ServerOp → Prop
  | .mem (.recv _ _) => False
  | .mem (.dispatch _ _) => False
  | .mem (.removeSession _) => False
  | .mem (.close _) => False
  | .mem .running => False
  | _ => True

theorem ReadsNothing.allows {o : ServerOp} (h : ReadsNothing o) (q : Reading) : q.Allows o := by
  unfold ReadsNothing at h
  unfold Reading.Allows
  split at h <;> simp_all

theorem ReadsNothing.afterOp {o : ServerOp} (h : ReadsNothing o) (q : Reading) (r : o.Resp) :
    q.afterOp o r = q := by
  unfold ReadsNothing at h
  unfold Reading.afterOp
  split at h <;> simp_all

theorem readsNothing_obeys {α : Type} {p : Prog Server α} (h : p.Only ReadsNothing) (q : Reading) :
    p.Obeys turnMonitor (fun _ q' => q' = q) q :=
  h.obeys (fun _ ho => ho.allows q) fun _ r ho => (ho.afterOp q r).symm

theorem ServesOp.readsNothing {fd : Fd} {o : ServerOp} (h : ServesOp fd o) : ReadsNothing o := by
  unfold ServesOp at h
  unfold ReadsNothing
  split at h <;> simp_all

/-- `recv_message` keeps the discipline of the loop. -/
theorem liftedRecv_obeys (fd : Fd) :
    ((recvMessage fd).lift recvEmbedding).Obeys turnMonitor ReadsFrame ⟨[], none⟩ :=
  (recvMessage_obeys fd).lift (fun _ _ h => h) fun _ _ _ _ h => h

section Programs

variable (cfg : Config) (fd : Fd)

theorem handleClient_turn : (handleClient cfg fd).Obeys turnMonitor TurnAt ⟨[], none⟩ := by
  simp only [handleClient, mem_eq, Prog.call_bind, Prog.ret_bind]
  rw [obeys_turn_call]
  refine ⟨trivial, fun running => ?_⟩
  cases running with
  | false => trivial
  | true =>
    show Prog.Obeys _ _ (_ >>= _) (Reading.mk [] none)
    refine (liftedRecv_obeys fd).bind fun frame q hq => ?_
    cases frame with
    | none => exact hq
    | some frame =>
      obtain ⟨msgType, payload⟩ := frame
      rw [obeys_turn_call]
      refine ⟨hq, fun _ => ?_⟩
      rw [dispatch_eq]
      have hhandle := (handleFrame_serves cfg fd payload msgType).mono
        fun _ ho => ServesOp.readsNothing ho
      refine (readsNothing_obeys hhandle _).bind fun _ q hq => ?_
      show TurnAt (if msgType = MsgType.QUIT then _ else _) q
      rw [hq]
      by_cases hquit : msgType = MsgType.QUIT
      · rw [if_pos hquit]
        simp [TurnAt, Reading.Done, Reading.afterOp, hquit]
      · rw [if_neg hquit]
        simp [TurnAt, Reading.afterOp, hquit]

theorem handleClientCleanup_turn {q : Reading} (h : q.Done) :
    (handleClientCleanup fd).Obeys turnMonitor TurnAt q := by
  simp only [handleClientCleanup, mem_eq, Prog.call_bind, Prog.ret_bind]
  rw [obeys_turn_call]
  refine ⟨h, fun _ => ?_⟩
  rw [obeys_turn_call]
  exact ⟨h, fun _ => h⟩

theorem watchdogLoop_turn (q : Reading) : (watchdogLoop cfg).Obeys turnMonitor TurnAt q := by
  simp only [watchdogLoop, mem_eq, Prog.call_bind, Prog.ret_bind]
  rw [obeys_turn_call]
  refine ⟨trivial, fun r => ?_⟩
  cases r with
  | false => trivial
  | true =>
    show Prog.Obeys _ _ (Prog.call _ _) q
    rw [obeys_turn_call]
    refine ⟨trivial, fun r => ?_⟩
    cases r with
    | false => trivial
    | true =>
      show Prog.Obeys _ _ (Prog.call _ _) q
      rw [obeys_turn_call]
      refine ⟨trivial, fun now => ?_⟩
      rw [obeys_turn_call]
      refine ⟨trivial, fun toNotify => ?_⟩
      refine (readsNothing_obeys (Prog.Only.forM fun s _ => ?_) _).bind fun _ _ _ => trivial
      exact .perform trivial

/-- Every turn of a thread keeps the discipline. -/
theorem program_turn (ctl : Ctl) {q : Reading} (h : TurnAt ctl q) :
    (ctl.program cfg).Obeys turnMonitor TurnAt q := by
  cases ctl with
  | loop fd =>
    rw [show q = ⟨[], none⟩ from h]
    exact handleClient_turn cfg fd
  | cleanup fd => exact handleClientCleanup_turn fd h
  | watchdog => exact watchdogLoop_turn cfg q
  | ended => exact h

end Programs

/-! ## What the steps do to the streams -/

section Conns

variable (m : Memory) (c : ConnId) (f : Conn → Conn)

theorem modifyConn_self : (m.modifyConn c f).conns c = f (m.conns c) := update_self _ _ _

theorem modifyConn_of_ne {d : ConnId} (h : d ≠ c) : (m.modifyConn c f).conns d = m.conns d :=
  update_of_ne h _ _

theorem accept_conns_self (fd : Fd) (peerIp : String) :
    (m.accept fd peerIp).conns m.nextConn = ⟨fd, peerIp, [], false, []⟩ := update_self _ _ _

theorem accept_conns_of_ne (fd : Fd) (peerIp : String) {d : ConnId} (h : d ≠ m.nextConn) :
    (m.accept fd peerIp).conns d = m.conns d := update_of_ne h _ _

end Conns

theorem markIdle_conns (idle now : Int) (todo : List SessionRef) (m : Memory) :
    (Memory.markIdle idle now todo m).2.conns = m.conns := by
  induction todo generalizing m with
  | nil => rfl
  | cons s todo ih =>
    show (Memory.markIdle idle now todo (m.markIdleOne idle now s).2).2.conns = m.conns
    rw [ih]
    unfold Memory.markIdleOne
    split <;> rfl

theorem restore_conns (m : Memory) (s : SessionRef) : (m.restore s).2.conns = m.conns := by
  unfold Memory.restore
  split <;> rfl

/-- Only `recv` changes the streams. -/
theorem exec_conns {cfg : Config} {t : Tid} {w w' : World} {o : ServerOp} {ch : Choice}
    {r : o.Resp} (h : w.exec cfg t o ch = some (r, w')) (ho : ∀ fd len, o ≠ .mem (.recv fd len)) :
    w'.mem.conns = w.mem.conns := by
  cases o with
  | sendBare fd msg =>
    cases h
    rw [World.write_mem]
  | sendLocked s msg =>
    cases h
    rw [World.write_mem]
  | register fd u a =>
    cases t with
    | watchdog => cases h
    | handler c =>
      cases h
      rw [World.reply_mem]
      exact Memory.register_conns _ _ _ _ _
  | mem o =>
    rw [World.exec, Option.map_eq_some_iff] at h
    obtain ⟨⟨r', m'⟩, he, hx⟩ := h
    obtain ⟨hr, hw⟩ := Prod.mk.inj hx
    subst hr hw
    show m'.conns = w.mem.conns
    cases o with
    | recv fd len => exact absurd rfl (ho fd len)
    | removeSession fd =>
      cases he
      exact Memory.removeSession_conns _ _
    | restore s =>
      have hm : (w.mem.restore s).2 = m' := congrArg Prod.snd (Option.some.inj he)
      rw [← hm]
      exact restore_conns _ _
    | markIdle now =>
      rw [Memory.exec] at he
      split at he
      · have hm : (Memory.markIdle cfg.idleTimeoutSec now (w.mem.visited ch.order) w.mem).2 = m' :=
          congrArg Prod.snd (Option.some.inj he)
        rw [← hm]
        exact markIdle_conns _ _ _ _
      · cases he
    | aliveSessions | listSessions =>
      rw [Memory.exec] at he
      split at he
      · cases he
        rfl
      · cases he
    | dispatch | running | getPeerIp | getSession | findUser | read | setStatus | touch | now
      | close =>
      cases he
      rfl

/-- A handler that serves reads from its own connection. -/
theorem Owned.recv_own {p : State} {qs : Tid → Phase} (h : Owned p qs) {t : Tid} {fd : Fd}
    {len : Nat} {k : Option {bs : Bytes // bs.length ≤ len} → Prog Server Ctl}
    (hprog : p.prog t = .call (S := Server) (.mem (.recv fd len)) k) :
    ∃ c, t = .handler c ∧ p.shared.mem.fds fd = some c := by
  have hallows := h.allows hprog
  cases t with
  | watchdog => exact hallows.elim
  | handler c =>
    have hlife : (qs (.handler c)).life = .serving := hallows.1
    have hfd : fd = (qs (.handler c)).fd := hallows.2
    have hserves := h.2.1.serves c (by rw [hlife]; decide)
    exact ⟨c, rfl, by rw [hfd, hserves.1, hserves.2]⟩

/-- No thread changes the stream of another handler. -/
theorem exec_conns_other {cfg : Config} {p : State} {qs : Tid → Phase} (hown : Owned p qs)
    {t : Tid} {o : ServerOp} {k : o.Resp → Prog Server Ctl} {ch : Choice} {r : o.Resp} {w : World}
    (hprog : p.prog t = .call o k) (he : p.shared.exec cfg t o ch = some (r, w)) {c : ConnId}
    (hc : t ≠ .handler c) : w.mem.conns c = p.shared.mem.conns c := by
  by_cases ho : ∃ fd len, o = .mem (.recv fd len)
  · obtain ⟨fd, len, hrecv⟩ := ho
    subst hrecv
    obtain ⟨d, ht, hd⟩ := hown.recv_own hprog
    subst ht
    have hcd : c ≠ d := fun heq => hc (by rw [heq])
    rw [World.exec, Option.map_eq_some_iff] at he
    obtain ⟨⟨r', m'⟩, hm, hx⟩ := he
    obtain ⟨hr, hw⟩ := Prod.mk.inj hx
    subst hr hw
    rcases Memory.recv_cases hm with ⟨_, _, hsame⟩ | ⟨_, _, _, _, _, hsame⟩ |
      ⟨d', bs, hd', _, _, _, hmoved⟩
    · show m'.conns c = _
      rw [hsame]
    · show m'.conns c = _
      rw [hsame]
    · rw [hd, Option.some.injEq] at hd'
      subst hd'
      show m'.conns c = _
      rw [hmoved, modifyConn_of_ne _ _ _ hcd]
  · have hnot : ∀ fd len, o ≠ .mem (.recv fd len) := fun fd len heq => ho ⟨fd, len, heq⟩
    rw [exec_conns he hnot]

/-! ## What has arrived -/

/-- `recv` moves bytes, and nothing else touches them. -/
theorem exec_sentBytes {cfg : Config} {t : Tid} {w w' : World} {o : ServerOp} {ch : Choice}
    {r : o.Resp} (h : w.exec cfg t o ch = some (r, w')) (c : ConnId) :
    w'.mem.sentBytes c = w.mem.sentBytes c := by
  by_cases hrecv : ∃ fd len, o = .mem (.recv fd len)
  · obtain ⟨fd, len, rfl⟩ := hrecv
    have ⟨x, hx, heq⟩ := Option.map_eq_some_iff.1 h
    cases heq
    rcases Memory.recv_cases hx with ⟨_, _, hm⟩ | ⟨_, _, _, _, _, hm⟩ | ⟨d, bs, _, _, hprefix, _, hm⟩
    · exact congrArg (Memory.sentBytes · c) hm
    · exact congrArg (Memory.sentBytes · c) hm
    · show x.2.sentBytes c = _
      rw [hm]
      by_cases hcd : c = d
      · subst hcd
        unfold Memory.sentBytes
        rw [modifyConn_self]
        show (_ ++ _) ++ _ = _
        rw [List.append_assoc, List.prefix_iff_eq_append.1 hprefix]
      · unfold Memory.sentBytes
        rw [modifyConn_of_ne _ _ _ hcd]
  · unfold Memory.sentBytes
    rw [exec_conns h fun fd len ho => hrecv ⟨fd, len, ho⟩]

/-- Nothing has arrived on a connection that is not accepted yet. -/
theorem sentBytes_fresh {cfg : Config} {C : State → Step → Prop} {p : State}
    (h : (system cfg).Reaches C p) :
    ∀ c, p.shared.mem.nextConn ≤ c → p.shared.mem.sentBytes c = [] := by
  refine world_invariant (I := fun w _ => ∀ c, w.mem.nextConn ≤ c → w.mem.sentBytes c = []) ?_ ?_ ?_ h
  · exact fun _ _ => rfl
  · intro p phases t o k ch r w _ hI _ _ he c hc
    rw [exec_sentBytes he c]
    exact hI c ((exec_later he).nextConn.trans hc)
  · intro p phases e w start _ hI _ he c hc
    cases e with
    | accept fd peerIp =>
      have ⟨_, he⟩ := Option.ite_none_right_eq_some.1 he
      cases he
      have hlt : p.shared.mem.nextConn < c := hc
      unfold Memory.sentBytes
      rw [accept_conns_of_ne _ fd peerIp (Nat.ne_of_gt hlt)]
      exact hI c (Nat.le_of_lt hlt)
    | clientSend d bs =>
      have ⟨hd, he⟩ := Option.ite_none_right_eq_some.1 he
      cases he
      unfold Memory.sentBytes
      rw [modifyConn_of_ne _ _ _ (Nat.ne_of_gt (Nat.lt_of_lt_of_le hd.1 hc))]
      exact hI c hc
    | clientClose d =>
      have ⟨hd, he⟩ := Option.ite_none_right_eq_some.1 he
      cases he
      unfold Memory.sentBytes
      rw [modifyConn_of_ne _ _ _ (Nat.ne_of_gt (Nat.lt_of_lt_of_le hd hc))]
      exact hI c hc
    | tick d =>
      cases he
      exact hI c hc

/-- The bytes that a step lets arrive on a connection. -/
def arrivals (c : ConnId) : Step → Bytes
  | .env (.clientSend d bs) => if d = c then bs else []
  | _ => []

theorem step_sentBytes {cfg : Config} {p p' : State} {l : Step}
    (hp : (system cfg).Reaches Lts.Any p) (h : (system cfg).step p l = some p') (c : ConnId) :
    p'.shared.mem.sentBytes c = p.shared.mem.sentBytes c ++ arrivals c l := by
  cases l with
  | op t ch =>
    have ⟨o, k, r, w, _, he, hp'⟩ := Machine.step_op.1 h
    rw [hp', Pool.afterOp_shared]
    exact (exec_sentBytes he c).trans (List.append_nil _).symm
  | jump t =>
    have ⟨_, _, hp'⟩ := Machine.step_jump.1 h
    rw [hp']
    exact (List.append_nil _).symm
  | env e =>
    have ⟨w, start, he, hp'⟩ := Machine.step_env.1 h
    rw [hp', Pool.afterEnv_shared]
    unfold arrivals
    cases e with
    | accept fd peerIp =>
      have ⟨_, he⟩ := Option.ite_none_right_eq_some.1 he
      cases he
      rw [List.append_nil]
      by_cases hc : c = p.shared.mem.nextConn
      · subst hc
        rw [sentBytes_fresh hp _ (Nat.le_refl _)]
        unfold Memory.sentBytes
        rw [accept_conns_self]
        rfl
      · unfold Memory.sentBytes
        rw [accept_conns_of_ne _ fd peerIp hc]
    | clientSend d bs =>
      have ⟨_, he⟩ := Option.ite_none_right_eq_some.1 he
      cases he
      by_cases hd : d = c
      · subst hd
        dsimp only
        rw [if_pos rfl]
        unfold Memory.sentBytes
        rw [modifyConn_self, List.append_assoc]
      · dsimp only
        rw [if_neg hd, List.append_nil]
        unfold Memory.sentBytes
        rw [modifyConn_of_ne _ _ _ (Ne.symm hd)]
    | clientClose d =>
      have ⟨_, he⟩ := Option.ite_none_right_eq_some.1 he
      cases he
      rw [List.append_nil]
      unfold Memory.sentBytes
      by_cases hd : c = d
      · subst hd
        rw [modifyConn_self]
      · rw [modifyConn_of_ne _ _ _ hd]
    | tick d =>
      cases he
      exact (List.append_nil _).symm

/-! ## The invariant -/

/-- The handler of connection `c` has dispatched the frames `fs`, and has read
`q.got` since. -/
structure ReadSoFar (m : Memory) (log : List (Event Server Tid)) (c : ConnId) (q : Reading)
    (fs : List WireFrame) : Prop where
  frames : dispatched c log = fs.map Subtype.val
  received : (m.conns c).received = frameCode.concat fs ++ q.got
  /-- A frame of type QUIT is the last one. -/
  quit : q.ending = some .quit →
    ∃ gs f, fs = gs ++ [f] ∧ isQuit f = true ∧ ∀ g ∈ gs, isQuit g = false
  noQuit : q.ending ≠ some .quit → ∀ f ∈ fs, isQuit f = false
  /-- After the end of the stream no byte comes. -/
  eof : q.ending = some .eof → (m.conns c).eof = true ∧ (m.conns c).pending = []
  noError : q.ending ≠ some .error

theorem ReadSoFar.frame {m m' : Memory} {log log' : List (Event Server Tid)} {c : ConnId}
    {q : Reading} {fs : List WireFrame} (h : ReadSoFar m log c q fs)
    (hconn : m'.conns c = m.conns c) (hlog : dispatched c log' = dispatched c log) :
    ReadSoFar m' log' c q fs where
  frames := hlog.trans h.frames
  received := by rw [hconn, h.received]
  quit := h.quit
  noQuit := h.noQuit
  eof := by rw [hconn]; exact h.eof
  noError := h.noError

/-- An event that is no dispatch of the handler of `c`. -/
theorem dispatched_other {c : ConnId} {log : List (Event Server Tid)} {e : Event Server Tid}
    (h : ∀ msgType payload, e.tid = .handler c → e.op ≠ .mem (.dispatch msgType payload)) :
    dispatched c (log ++ [e]) = dispatched c log := by
  have hnone : dispatched c [e] = [] := by
    unfold dispatched
    rw [List.filterMap_cons_none, List.filterMap_nil]
    split
    · rename_i d msgType payload htid hop
      by_cases hd : d = c
      · subst hd
        exact absurd hop (h msgType payload htid)
      · exact if_neg hd
    · rfl
  rw [dispatched_append, hnone, List.append_nil]

/-- A read moves bytes from the stream to what was read. -/
theorem ReadSoFar.recv {m m' : Memory} {log log' : List (Event Server Tid)} {c : ConnId}
    {q : Reading} {fs : List WireFrame} {fd : Fd} {len want : Nat}
    {r : Option {bs : Bytes // bs.length ≤ len}} (h : ReadSoFar m log c q fs)
    (hfd : m.fds fd = some c) (hlen : 0 < len) (hopen : q.ending = none)
    (he : m.recv fd len want = some (r, m')) (hlog : dispatched c log' = dispatched c log) :
    ReadSoFar m' log' c (q.after r) fs := by
  have hnoQuit := h.noQuit (by rw [hopen]; decide)
  rcases Memory.recv_cases he with ⟨hnone, _, _⟩ | ⟨d, hd, hpending, heof, hr, hm⟩ |
    ⟨d, bs, hd, hr, _, hbs, hm⟩
  · rw [hfd] at hnone
    cases hnone
  · rw [hfd, Option.some.injEq] at hd
    subst hd hr hm
    exact ⟨hlog.trans h.frames, h.received, fun hq => (nomatch hq), fun _ => hnoQuit,
      fun _ => ⟨heof, hpending⟩, fun hq => (nomatch hq)⟩
  · rw [hfd, Option.some.injEq] at hd
    subst hd hr hm
    have hne := hbs hlen
    match bs, hne with
    | ⟨b :: bs, hle⟩, _ =>
      refine ⟨hlog.trans h.frames, ?_, ?_, fun _ => hnoQuit, ?_, ?_⟩
      · rw [modifyConn_self, h.received]
        exact List.append_assoc _ _ _
      · exact fun hq => absurd (hopen.symm.trans hq) (by decide)
      · exact fun hq => absurd (hopen.symm.trans hq) (by decide)
      · exact h.noError

/-- A dispatch takes the frame that was read. -/
theorem ReadSoFar.dispatch {m : Memory} {log : List (Event Server Tid)} {c : ConnId}
    {q : Reading} {fs : List WireFrame} {msgType : UInt8} {payload : Bytes}
    (h : ReadSoFar m log c q fs) (hle : payload.length ≤ MAX_PAYLOAD)
    (hq : q = ⟨encodeFrame msgType payload, none⟩) :
    ReadSoFar m (log ++ [⟨.handler c, .mem (.dispatch msgType payload), ()⟩]) c
      ⟨[], if msgType = MsgType.QUIT then some .quit else none⟩
      (fs ++ [⟨(msgType, payload), hle⟩]) := by
  have hnoQuit := h.noQuit (by rw [hq]; simp)
  have hone : dispatched c [⟨.handler c, .mem (.dispatch msgType payload), ()⟩] =
      [(msgType, payload)] := by
    simp [dispatched]
  refine ⟨?_, ?_, fun hquit => ?_, fun hquit f hf => ?_, fun heof => ?_, fun herror => ?_⟩
  · rw [dispatched_append, hone, h.frames, List.map_append]
    rfl
  · rw [h.received, hq, PrefixCode.concat_append, List.append_nil]
    simp [frameCode]
  · have htype : msgType = MsgType.QUIT := by
      by_contra hne
      rw [if_neg hne] at hquit
      cases hquit
    exact ⟨fs, _, rfl, by simp [isQuit, htype], hnoQuit⟩
  · have htype : msgType ≠ MsgType.QUIT := fun heq => hquit (by rw [if_pos heq])
    rcases List.mem_append.1 hf with hf | hf
    · exact hnoQuit f hf
    · rw [List.mem_singleton.1 hf]
      simp [isQuit, htype]
  · split at heof <;> cases heof
  · split at herror <;> cases herror

/-- The invariant of the loops: what each handler has read is what it has
dispatched and what it holds. -/
structure AllRead (p : State) (qs : Tid → Reading) : Prop where
  running : p.shared.mem.running = true
  fresh : ∀ c, p.shared.mem.nextConn ≤ c → dispatched c p.log = []
  read : ∀ c, c < p.shared.mem.nextConn →
    ∃ fs, ReadSoFar p.shared.mem p.log c (qs (.handler c)) fs

/-- No operation stops the server, or accepts a connection. -/
theorem exec_running {cfg : Config} {t : Tid} {w w' : World} {o : ServerOp} {ch : Choice}
    {r : o.Resp} (h : w.exec cfg t o ch = some (r, w')) :
    w'.mem.running = w.mem.running ∧ w'.mem.nextConn = w.mem.nextConn := by
  rcases World.exec_mem_cases h with ⟨hf, _⟩ | ⟨fd, _, hm⟩ | ⟨fd, _, hm⟩ | ⟨c, fd, u, a, _, _, hm⟩
  · exact ⟨hf.running, hf.nextConn⟩
  · rw [hm]
    exact ⟨Memory.removeSession_running _ _, Memory.removeSession_nextConn _ _⟩
  · rw [hm]
    exact ⟨rfl, rfl⟩
  · rw [hm]
    exact ⟨Memory.register_running _ _ _ _ _, Memory.register_nextConn _ _ _ _ _⟩

/-- An operation of the handler itself. -/
theorem readSoFar_op {cfg : Config} {p : State} {phases : Tid → Phase} (hown : Owned p phases)
    {c : ConnId} {q : Reading} {fs : List WireFrame} {o : ServerOp}
    {k : o.Resp → Prog Server Ctl} {ch : Choice} {r : o.Resp} {w : World}
    (h : ReadSoFar p.shared.mem p.log c q fs) (hrunning : p.shared.mem.running = true)
    (hprog : p.prog (.handler c) = .call o k)
    (he : p.shared.exec cfg (.handler c) o ch = some (r, w)) (hguard : q.Allows o) :
    ∃ fs', ReadSoFar w.mem (p.log ++ [⟨.handler c, o, r⟩]) c (q.afterOp o r) fs' := by
  by_cases hnothing : ∃ m, o = .mem m ∧
      ((∃ fd len, m = .recv fd len) ∨ (∃ msgType payload, m = .dispatch msgType payload) ∨
        m = .running)
  · obtain ⟨m, ho, hm⟩ := hnothing
    subst ho
    rw [World.exec, Option.map_eq_some_iff] at he
    obtain ⟨⟨r', m'⟩, hexec, hx⟩ := he
    obtain ⟨hr, hw⟩ := Prod.mk.inj hx
    subst hr hw
    rcases hm with ⟨fd, len, hm⟩ | ⟨msgType, payload, hm⟩ | hm
    · subst hm
      obtain ⟨d, hd, hfd⟩ := hown.recv_own hprog
      have hcd : c = d := Tid.handler.inj hd
      subst hcd
      refine ⟨fs, h.recv hfd hguard.1 hguard.2.2 hexec (dispatched_other ?_)⟩
      exact fun _ _ _ hop => by cases hop
    · subst hm
      cases hexec
      exact ⟨_, h.dispatch hguard.1 hguard.2⟩
    · subst hm
      cases hexec
      refine ⟨fs, ?_⟩
      show ReadSoFar _ (p.log ++ [⟨.handler c, .mem .running, p.shared.mem.running⟩]) c
        (q.afterOp (.mem .running) p.shared.mem.running) fs
      rw [hrunning]
      exact h.frame rfl (dispatched_other fun _ _ _ hop => by cases hop)
  · have hrecv : ∀ fd len, o ≠ .mem (.recv fd len) :=
      fun fd len ho => hnothing ⟨_, ho, Or.inl ⟨fd, len, rfl⟩⟩
    have hdispatch : ∀ msgType payload, o ≠ .mem (.dispatch msgType payload) :=
      fun msgType payload ho => hnothing ⟨_, ho, Or.inr (Or.inl ⟨msgType, payload, rfl⟩)⟩
    have hrun : o ≠ .mem .running := fun ho => hnothing ⟨_, ho, Or.inr (Or.inr rfl)⟩
    have hsame : q.afterOp o r = q := by
      unfold Reading.afterOp
      split
      · exact absurd rfl (hrecv _ _)
      · exact absurd rfl (hdispatch _ _)
      · exact absurd rfl hrun
      · rfl
    rw [hsame]
    refine ⟨fs, h.frame (by rw [exec_conns he hrecv]) (dispatched_other ?_)⟩
    exact fun msgType payload _ => hdispatch msgType payload

/-- What a step of the environment does to the streams: it may append to one,
end one, or start a new one. -/
theorem ReadSoFar.env {w w' : World} {e : Env} {start : Option (Tid × Ctl)} {c : ConnId}
    {q : Reading} {fs : List WireFrame} {log : List (Event Server Tid)}
    (h : ReadSoFar w.mem log c q fs) (he : w.env e = some (w', start)) (hc : c < w.mem.nextConn) :
    ReadSoFar w'.mem log c q fs := by
  cases e with
  | accept fd peerIp =>
    rw [World.env] at he
    split at he
    · cases he
      exact h.frame (accept_conns_of_ne _ _ _ (Nat.ne_of_lt hc)) rfl
    · cases he
  | clientSend d bs =>
    rw [World.env] at he
    split at he
    · rename_i hopen
      cases he
      by_cases hcd : c = d
      · subst hcd
        refine ⟨h.frames, ?_, h.quit, h.noQuit, fun heof => ?_, h.noError⟩
        · rw [modifyConn_self, h.received]
        · have hend := (h.eof heof).1
          rw [hopen.2] at hend
          cases hend
      · exact h.frame (by rw [modifyConn_of_ne _ _ _ hcd]) rfl
    · cases he
  | clientClose d =>
    rw [World.env] at he
    split at he
    · cases he
      by_cases hcd : c = d
      · subst hcd
        refine ⟨h.frames, ?_, h.quit, h.noQuit, fun heof => ?_, h.noError⟩
        · rw [modifyConn_self, h.received]
        · rw [modifyConn_self]
          exact ⟨rfl, (h.eof heof).2⟩
      · exact h.frame (by rw [modifyConn_of_ne _ _ _ hcd]) rfl
    · cases he
  | tick d =>
    cases he
    exact h.frame rfl rfl

theorem allRead_keeps (cfg : Config) :
    Machine.Keeps (machine cfg) (fun _ => turnMonitor) (fun _ => TurnAt) AllRead
      (fun p _ => (system cfg).Reaches Lts.Any p) where
  op p qs t ch o k r w q' hJ hC hprog he hguard hnext := by
    have ⟨phases, hown⟩ := reachable_owned hC
    have ⟨hrunning, hnextConn⟩ := exec_running he
    rw [show q' = (qs t).afterOp o r from hnext]
    refine ⟨hrunning.trans hJ.running, fun c hc => ?_, fun c hc => ?_⟩
    · rw [Pool.afterOp_shared, hnextConn] at hc
      rw [Pool.afterOp_log, dispatched_other, hJ.fresh c hc]
      intro msgType payload ht
      have ht' : t = .handler c := ht
      subst ht'
      exact absurd (hown.lt_nextConn hprog) (Nat.not_lt.2 hc)
    · rw [Pool.afterOp_shared, hnextConn] at hc
      have ⟨fs, hread⟩ := hJ.read c hc
      by_cases ht : t = .handler c
      · subst ht
        rw [update_self]
        exact readSoFar_op hown hread hJ.running hprog he hguard
      · rw [update_of_ne (Ne.symm ht)]
        refine ⟨fs, hread.frame (exec_conns_other hown hprog he ht) (dispatched_other ?_)⟩
        exact fun _ _ htid => absurd htid ht
  jump p qs t c hJ _ _ hpost := by
    refine ⟨qs t, program_turn cfg c hpost, ?_⟩
    rw [update_eq_self]
    exact ⟨hJ.running, hJ.fresh, hJ.read⟩
  env p qs e w start hJ _ he := by
    change p.shared.env e = some (w, start) at he
    rcases World.env_mem_cases he with ⟨hstart, hf, _⟩ | ⟨fd, peerIp, hacc, hfd, hstart, hw⟩
    · subst hstart
      refine ⟨qs, fun _ _ => rfl, fun _ _ hc => (nomatch hc), ?_, fun c hc => ?_, fun c hc => ?_⟩
      · exact hf.running.trans hJ.running
      · exact hJ.fresh c (hf.nextConn ▸ hc)
      · have hlt : c < p.shared.mem.nextConn := hf.nextConn ▸ hc
        have ⟨fs, hread⟩ := hJ.read c hlt
        exact ⟨fs, hread.env he hlt⟩
    · subst hstart
      refine ⟨update qs (.handler p.shared.mem.nextConn) ⟨[], none⟩, fun t ht => ?_,
        fun t c hc => ?_, ?_, fun c hc => ?_, fun c hc => ?_⟩
      · rw [update_of_ne]
        exact fun heq => ht (.loop fd) (by rw [heq])
      · have ⟨ht, hctl⟩ := Prod.mk.inj (Option.some.inj hc)
        subst ht hctl
        exact update_self _ _ _
      · subst hw
        exact hJ.running
      · subst hw
        exact hJ.fresh c (Nat.le_of_succ_le hc)
      · by_cases hnew : c = p.shared.mem.nextConn
        · subst hnew hw
          rw [update_self]
          refine ⟨[], hJ.fresh _ (Nat.le_refl _), ?_, fun hq => (nomatch hq),
            fun _ f hf => (nomatch hf), fun hq => (nomatch hq), fun hq => (nomatch hq)⟩
          rw [Pool.afterEnv_shared, accept_conns_self]
          rfl
        · have hlt : c < p.shared.mem.nextConn := by
            subst hw
            exact Nat.lt_of_le_of_ne (Nat.le_of_lt_succ hc) hnew
          have ⟨fs, hread⟩ := hJ.read c hlt
          rw [update_of_ne (by simpa using hnew)]
          exact ⟨fs, hread.env he hlt⟩

/-- In every reachable state each handler keeps the discipline of its loop. -/
theorem reachable_allRead {cfg : Config} {p : State} (h : (system cfg).Reaches Lts.Any p) :
    ∃ qs, Machine.Monitored (fun _ => turnMonitor) (fun _ => TurnAt) AllRead p qs := by
  have hrun : (system cfg).Reaches (fun q _ => (system cfg).Reaches Lts.Any q) p :=
    Lts.Steps.strengthen h fun q _ _ hq _ _ => hq
  -- A handler that has not started has nothing left to read.
  have hinit : Machine.Monitored (fun _ => turnMonitor) (fun _ => TurnAt) AllRead
      (system cfg).init fun _ => ⟨[], some .quit⟩ := by
    refine ⟨fun t => ?_, rfl, fun _ _ => rfl, fun c hc => absurd hc (Nat.not_lt_zero c)⟩
    cases t with
    | watchdog => trivial
    | handler c => exact rfl
  exact (allRead_keeps cfg).steps hrun hinit

/-! ## The cleanup -/

/-- The descriptor of the connection has no session, and the name and address
under which it was registered are free. -/
def Memory.CleanedUp (m : Memory) (c : ConnId) : Prop :=
  m.registry.sessions.lookup (m.conns c).fd = none ∧
    ∀ s, s < m.nextRef → m.registeredOn s = c →
      (m.heap s).username ∉ m.registry.usernameToFd ∧ (m.heap s).ip ∉ m.registry.ipToFd

/-- `remove_session` cleans up after the connection of its handler. -/
theorem Memory.Owned.cleanedUp {m : Memory} {qs : Tid → Phase} (h : m.Owned qs) {c : ConnId}
    {fd : Fd} (hq : qs (.handler c) = ⟨fd, .serving⟩) : (m.removeSession fd).CleanedUp c := by
  have hlife : (qs (.handler c)).life = .serving := by rw [hq]
  have hserves := h.serves c (by rw [hlife]; decide)
  have hfd : (m.conns c).fd = fd := by rw [← hserves.1, hq]
  have hlive : ∀ s, s < m.nextRef → m.registeredOn s = c →
      m.registry.sessions.lookup fd = some s := by
    intro s hs hreg
    have hlook := h.live s hs (by rw [hreg, hlife])
    rwa [(h.registered s hs).2.1, hreg, hfd] at hlook
  refine ⟨?_, ?_⟩
  · rw [Memory.removeSession_conns, hfd, Memory.removeSession_lookup, if_pos rfl]
  · rcases Memory.removeSession_cases m fd with ⟨hnone, he⟩ | ⟨t, ht, he⟩ <;> rw [he]
    · intro s hs hreg
      have hlook := hlive s hs hreg
      rw [Finmap.lookup_eq_none.2 hnone] at hlook
      cases hlook
    · intro s hs hreg
      have hst : t = s := by
        have hlook := hlive s hs hreg
        rw [ht, Option.some.injEq] at hlook
        exact hlook
      subst hst
      simp [Finmap.mem_erase]

theorem Memory.CleanedUp.frame {m m' : Memory} {c : ConnId} (h : m.CleanedUp c) (hf : m.Frame m') :
    m'.CleanedUp c := by
  unfold Memory.CleanedUp
  rw [hf.registry, hf.connFd, hf.nextRef, hf.registeredOn]
  refine ⟨h.1, fun s hs hreg => ?_⟩
  rw [hf.username, hf.ip]
  exact h.2 s hs hreg

theorem Memory.CleanedUp.accept {m : Memory} {c : ConnId} (h : m.CleanedUp c) (fd : Fd)
    (peerIp : String) (hc : c < m.nextConn) : (m.accept fd peerIp).CleanedUp c := by
  unfold Memory.CleanedUp
  rw [accept_conns_of_ne _ _ _ (Nat.ne_of_lt hc)]
  exact h

/-- After the `remove_session` of a handler, and until the next operation of any
thread, its connection is cleaned up. -/
theorem reachable_cleanedUp {cfg : Config} {C : State → Step → Prop} {p : State}
    (h : (system cfg).Reaches C p) {L : List (Event Server Tid)} {c : ConnId} {fd : Fd}
    (hlog : p.log = L ++ [⟨.handler c, .mem (.removeSession fd), ()⟩]) :
    p.shared.mem.CleanedUp c := by
  have hinv : ∀ L c fd, p.log = L ++ [⟨.handler c, .mem (.removeSession fd), ()⟩] →
      c < p.shared.mem.nextConn ∧ p.shared.mem.CleanedUp c := by
    refine world_invariant (I := fun w log => ∀ L c fd,
      log = L ++ [⟨.handler c, .mem (.removeSession fd), ()⟩] →
        c < w.mem.nextConn ∧ w.mem.CleanedUp c) ?_ ?_ ?_ h
    · intro L c fd hnil
      simp at hnil
    · intro q qs t o k ch r w hown _ hprog _ he L c fd hlog
      have hlast := List.singleton_inj.1 (List.append_inj' hlog rfl).2
      cases hlast
      have hallows : (qs (.handler c)).life = .serving ∧ fd = (qs (.handler c)).fd :=
        hown.allows hprog
      have hlt := hown.lt_nextConn hprog
      cases he
      refine ⟨?_, hown.2.1.cleanedUp (by rw [hallows.2, ← hallows.1])⟩
      rw [Memory.removeSession_nextConn]
      exact hlt
    · intro q qs e w start _ hI _ he L c fd hlog
      have ⟨hlt, hclean⟩ := hI L c fd hlog
      rcases World.env_mem_cases he with ⟨_, hf, _⟩ | ⟨fd', peerIp, _, _, _, hw⟩
      · exact ⟨hf.nextConn ▸ hlt, hclean.frame hf⟩
      · subst hw
        exact ⟨Nat.lt_succ_of_lt hlt, hclean.accept fd' peerIp hlt⟩
  exact (hinv L c fd hlog).2

/-! ## The result -/

/-- Where the loop has ended, no frame can be read any more. -/
theorem done_of_loopEnded {p : Prog Server Ctl} {q : Reading} (h : p.Obeys turnMonitor TurnAt q)
    (hp : LoopEnded p) : q.Done := by
  unfold LoopEnded at hp
  split at hp
  · exact h
  · exact h
  · exact (obeys_turn_call.1 h).1
  · exact (obeys_turn_call.1 h).1
  · exact hp.elim

/-- What the reader dispatched, compared with the longest list of frames that
the stream starts with. -/
theorem ReadSoFar.isLongest {m : Memory} {log : List (Event Server Tid)} {c : ConnId}
    {q : Reading} {fs gs : List WireFrame} (h : ReadSoFar m log c q fs)
    (hgs : frameCode.IsLongest (m.sentBytes c) gs) :
    fs <+: cutAfter isQuit gs ∧
      (q.Done ∨ (m.conns c).pending = [] ∧ frameCode.Stuck q.got → fs = cutAfter isQuit gs) := by
  have hsent : m.sentBytes c = frameCode.concat fs ++ (q.got ++ (m.conns c).pending) := by
    rw [Memory.sentBytes, h.received, List.append_assoc]
  have hprefix : fs <+: gs := by
    apply hgs.prefix_of
    rw [hsent]
    exact List.prefix_append _ _
  by_cases hquit : q.ending = some .quit
  · have ⟨init, f, hfs, hf, hinit⟩ := h.quit hquit
    have ⟨rest, hrest⟩ := hprefix
    have hcut : cutAfter isQuit gs = fs := by
      rw [← hrest, hfs, List.append_assoc]
      exact cutAfter_concat hinit hf rest
    rw [hcut]
    exact ⟨List.prefix_rfl, fun _ => rfl⟩
  · have hnoQuit := h.noQuit hquit
    have hstuck : q.Done ∨ (m.conns c).pending = [] ∧ frameCode.Stuck q.got →
        frameCode.Stuck (q.got ++ (m.conns c).pending) := by
      intro hend
      rcases hend with hdone | ⟨hnil, hstuck⟩
      · unfold Reading.Done at hdone
        split at hdone
        · exact hdone _
        · rename_i heof
          rw [(h.eof heof).2, List.append_nil]
          exact hdone
        · rename_i herror
          exact absurd herror h.noError
        · rename_i heq
          exact absurd heq hquit
      · rw [hnil, List.append_nil]
        exact hstuck
    refine ⟨?_, fun hend => ?_⟩
    · have ⟨rest, hrest⟩ := hprefix
      rw [← hrest, cutAfter_append hnoQuit]
      exact List.prefix_append _ _
    · have hlongest : frameCode.IsLongest (m.sentBytes c) fs := by
        rw [hsent]
        exact PrefixCode.isLongest_of_stuck (hstuck hend)
      rw [hgs.unique hlongest, cutAfter_eq_self hnoQuit]

/-- What a handler has dispatched are frames of the longest prefix of its stream
that is a list of frames, and all of them once the loop has ended or waits for
more bytes. -/
theorem dispatched_cut {cfg : Config} {p : State} (h : (system cfg).Reaches Lts.Any p)
    {c : ConnId} (hc : c < p.shared.mem.nextConn) :
    ∃ fs, frameCode.IsLongest (p.shared.mem.sentBytes c) fs ∧
      dispatched c p.log <+: (cutAfter isQuit fs).map Subtype.val ∧
      (LoopEnded (p.prog (.handler c)) ∨ Starved p c →
        dispatched c p.log = (cutAfter isQuit fs).map Subtype.val) := by
  have ⟨qs, hturn, hread⟩ := reachable_allRead h
  have ⟨gs, hgs⟩ := PrefixCode.exists_isLongest frameCode (p.shared.mem.sentBytes c)
  have ⟨fs, hfs⟩ := hread.read c hc
  have ⟨hshort, hall⟩ := hfs.isLongest hgs
  rw [hfs.frames]
  refine ⟨gs, hgs, hshort.map _, fun hend => ?_⟩
  rw [← hall ?_]
  rcases hend with hend | ⟨hnil, fd, len, k, hprog⟩
  · exact Or.inl (done_of_loopEnded (hturn (.handler c)) hend)
  · have hguard := hturn (.handler c)
    rw [hprog] at hguard
    exact Or.inr ⟨hnil, (obeys_turn_call.1 hguard).1.2.1⟩

/-- What a handler dispatches are the frames of the longest prefix of its stream
that is a list of frames, up to the first QUIT: never anything else, and all of
them once the loop has ended or waits for more bytes.  A thread that has ended
has run `remove_session`.  That leaves the connection without a session and its
name and address free, and no session of the connection comes back. -/
theorem dispatched_frames {cfg : Config} {p : State} (h : (system cfg).Reaches Lts.Any p)
    {c : ConnId} (hc : c < p.shared.mem.nextConn) :
    (∃ fs, frameCode.IsLongest (p.shared.mem.sentBytes c) fs ∧
      dispatched c p.log <+: (cutAfter isQuit fs).map Subtype.val ∧
      (LoopEnded (p.prog (.handler c)) ∨ Starved p c →
        dispatched c p.log = (cutAfter isQuit fs).map Subtype.val)) ∧
    (p.prog (.handler c) = .ret .ended → HasLeft p.log c) ∧
    (∀ L fd, p.log = L ++ [⟨.handler c, .mem (.removeSession fd), ()⟩] →
      p.shared.mem.CleanedUp c) ∧
    (HasLeft p.log c → ∀ fd s, p.shared.mem.registry.sessions.lookup fd = some s →
      p.shared.mem.registeredOn s ≠ c) := by
  have ⟨phases, hobeys, hown, hleft⟩ := reachable_owned h
  refine ⟨dispatched_cut h hc, fun hended => ?_, fun L fd hlog => reachable_cleanedUp h hlog,
    fun hgone fd s hs heq => ?_⟩
  · have hclosed := hobeys (.handler c)
    rw [hended] at hclosed
    have hlife : (phases (.handler c)).life = .closed := hclosed
    rw [hleft, hlife]
    exact ⟨hc, by decide⟩
  · have hserving := (hown.owner fd s hs).2
    rw [heq] at hserving
    exact ((hleft c).1 hgone).2 hserving

/-- Client 0 registers as "a", sends a frame of unknown type 99, and stops in the
middle of the next header. -/
def truncatedRun : List Step :=
  [.env (.accept 4 "10.0.0.1"),
    .env (.clientSend 0 [1, 0, 0, 0, 3, 10, 1, 97, 99, 0, 0, 0, 1, 7, 2, 0, 0]),
    .env (.clientClose 0)] ++
  turn (.handler 0) 6 ++ turn (.handler 0) 5 ++ turn (.handler 0) 3 ++ turn (.handler 0) 2

/-- Two frames are dispatched, and the rest of the stream is not. -/
theorem dispatched_frames_truncated :
    ∃ p fs, (system sampleConfig).Reaches Lts.Any p ∧
      frameCode.IsLongest (p.shared.mem.sentBytes 0) fs ∧
      (cutAfter isQuit fs).map Subtype.val = [(1, [10, 1, 97]), (99, [7])] ∧ HasLeft p.log 0 := by
  have ⟨p, hp, hrun⟩ := Lts.exists_reaches_of_run (L := system sampleConfig) truncatedRun
    (fun p => decide ((p.prog (.handler 0)).returned = some .ended) &&
      decide (0 < p.shared.mem.nextConn) &&
      decide (dispatched 0 p.log = [(1, [10, 1, 97]), (99, [7])]))
    (by decide +kernel)
  simp only [Bool.and_eq_true, decide_eq_true_eq] at hrun
  have ⟨⟨hended, hc⟩, hframes⟩ := hrun
  rw [Prog.returned_eq_some] at hended
  have ⟨⟨fs, hfs, _, hall⟩, hgone, _⟩ := dispatched_frames hp hc
  refine ⟨p, fs, hp, hfs, ?_, hgone hended⟩
  rw [← hall (Or.inl (by rw [hended]; trivial)), hframes]

end SimpleChat
