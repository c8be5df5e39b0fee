import SimpleChat.Delivery
import SimpleChat.HandleClient

/-!
# What a connection sees of its handler

The transcript of a connection is what its own handler does with it, in order: the
reads, the requests that it dispatches, and the frames that it writes to the
connection.  It is read off the history of a run.

A handler also writes to other connections, through sessions that it found.  The
transcript leaves these frames out by the session that they go through, and
`transcript_grows` shows that this is right: the frames of the transcript are those
that the handler has put on the connection, although descriptor numbers are reused.
-/

namespace SimpleChat

open Conc Function

/-! ## Transcripts -/

/-- A frame that a handler dispatched, and whether its connection had a registration
of its own then. -/
structure Request where
  msgType : UInt8
  payload : Bytes
  registered : Bool
  deriving DecidableEq

inductive Entry where
  | read
  | request (q : Request)
  | wrote (msg : ServerMsg)
  deriving DecidableEq

def Entry.asRequest : Entry → Option (UInt8 × Bytes)
  | .request q => some (q.msgType, q.payload)
  | _ => none

def Entry.asFrame : Entry → Option ServerMsg
  | .wrote msg => some msg
  | _ => none

/-- What happened on a connection, and the session that its handler has registered and
not removed. -/
structure Transcript where
  mine : Option SessionRef := none
  entries : List Entry := []

/-- What an operation of the handler of a connection adds to the transcript. -/
def heard (mine : Option SessionRef) : (o : ServerOp) → o.Resp → List Entry
  | .mem (.recv _ _), _ => [.read]
  | .mem (.dispatch msgType payload), _ => [.request ⟨msgType, payload, mine.isSome⟩]
  | .sendBare _ msg, _ => [.wrote msg]
  | .sendLocked s msg, _ => if mine = some s then [.wrote msg] else []
  | .register _ username peerIp, r => [.wrote (registerReply username peerIp r).2]
  | _, _ => []

/-- The own session after an operation of the handler. -/
def nextMine (mine : Option SessionRef) : (o : ServerOp) → o.Resp → Option SessionRef
  | .register _ _ _, .registered s => some s
  | .mem (.removeSession _), _ => none
  | _, _ => mine

def Transcript.after (T : Transcript) (o : ServerOp) (r : o.Resp) : Transcript where
  mine := nextMine T.mine o r
  entries := T.entries ++ heard T.mine o r

def Transcript.track (c : ConnId) (T : Transcript) (e : Event Server Tid) : Transcript :=
  if e.tid = .handler c then T.after e.op e.resp else T

/-- The transcript of connection `c`. -/
def transcript (c : ConnId) (log : List (Event Server Tid)) : Transcript :=
  log.foldl (Transcript.track c) {}

section Append

variable {c : ConnId} {log : List (Event Server Tid)} {t : Tid} {o : ServerOp} {r : o.Resp}

theorem transcript_append (e : Event Server Tid) :
    transcript c (log ++ [e]) = (transcript c log).track c e := by
  rw [transcript, List.foldl_append]
  rfl

theorem transcript_own :
    transcript c (log ++ [⟨.handler c, o, r⟩]) = (transcript c log).after o r := by
  rw [transcript_append, Transcript.track, if_pos rfl]

theorem transcript_other (ht : t ≠ .handler c) :
    transcript c (log ++ [⟨t, o, r⟩]) = transcript c log := by
  rw [transcript_append, Transcript.track, if_neg ht]

theorem nextMine_eq_self {mine : Option SessionRef} (hregister : ∀ fd u a, o ≠ .register fd u a)
    (hremove : ∀ fd, o ≠ .mem (.removeSession fd)) : nextMine mine o r = mine := by
  unfold nextMine
  split
  · exact absurd rfl (hregister _ _ _)
  · exact absurd rfl (hremove _)
  · rfl

theorem nextMine_register {mine : Option SessionRef} {fd : Fd} {u a : String}
    {r : Memory.RegisterOutcome} (h : ∀ s, r ≠ .registered s) :
    nextMine mine (.register fd u a) r = mine := by
  cases r with
  | registered s => exact absurd rfl (h s)
  | alreadyRegistered | usernameTaken | ipTaken => rfl

/-- Only `handle_register` and `remove_session` of its own handler change the session of
a connection. -/
theorem transcript_mine_eq (h : t ≠ .handler c ∨
      (∀ fd u a, o ≠ .register fd u a) ∧ ∀ fd, o ≠ .mem (.removeSession fd)) :
    (transcript c (log ++ [⟨t, o, r⟩])).mine = (transcript c log).mine := by
  by_cases ht : t = .handler c
  · subst ht
    have ⟨hregister, hremove⟩ := h.resolve_left fun hne => hne rfl
    rw [transcript_own, Transcript.after]
    exact nextMine_eq_self hregister hremove
  · rw [transcript_other ht]

theorem hasLeft_append_iff (h : t ≠ .handler c ∨ ∀ fd, o ≠ .mem (.removeSession fd)) :
    HasLeft (log ++ [⟨t, o, r⟩]) c ↔ HasLeft log c := by
  rw [hasLeft_append]
  refine or_iff_left fun ⟨htid, fd, hop⟩ => ?_
  exact h.elim (fun hne => hne htid) fun hremove => hremove fd hop

end Append

theorem heard_requests {mine : Option SessionRef} {o : ServerOp} {r : o.Resp}
    (h : ∀ msgType payload, o ≠ .mem (.dispatch msgType payload)) :
    (heard mine o r).filterMap Entry.asRequest = [] := by
  unfold heard
  split
  · rfl
  · exact absurd rfl (h _ _)
  · rfl
  · split <;> rfl
  · rfl
  · rfl

/-- The requests of a transcript are the frames that were dispatched. -/
theorem transcript_requests (c : ConnId) (log : List (Event Server Tid)) :
    (transcript c log).entries.filterMap Entry.asRequest = dispatched c log := by
  induction log using List.reverseRecOn with
  | nil => rfl
  | append_singleton log e ih =>
    have ⟨t, o, r⟩ := e
    by_cases ht : t = .handler c
    · subst ht
      rw [transcript_own, Transcript.after, List.filterMap_append, ih]
      by_cases hdispatch : ∃ msgType payload, o = .mem (.dispatch msgType payload)
      · have ⟨msgType, payload, ho⟩ := hdispatch
        subst ho
        rw [dispatched_append]
        simp [heard, Entry.asRequest, dispatched]
      · have hnone : ∀ msgType payload, o ≠ .mem (.dispatch msgType payload) :=
          fun msgType payload ho => hdispatch ⟨msgType, payload, ho⟩
        rw [heard_requests hnone, List.append_nil]
        exact (dispatched_other fun msgType payload _ => hnone msgType payload).symm
    · rw [transcript_other ht, ih]
      exact (dispatched_other fun _ _ htid => absurd htid ht).symm

/-! ## The own session -/

section Mine

variable {cfg : Config} {p : State}

/-- A registration makes the new session the own session of its connection. -/
theorem mine_register {qs : Tid → Phase} (hq : Owned p qs) {c d : ConnId} {fd : Fd} {u a : String}
    {s : SessionRef} (hphase : qs (.handler d) = ⟨fd, .serving⟩)
    (hI : ∀ s, (transcript c p.log).mine = some s ↔
      s < p.shared.mem.nextRef ∧ p.shared.mem.registeredOn s = c ∧ ¬ HasLeft p.log c) :
    (transcript c (p.log ++ [⟨.handler d, .register fd u a,
        (p.shared.mem.register d fd u a).1⟩])).mine = some s ↔
      s < (p.shared.mem.register d fd u a).2.nextRef ∧
        (p.shared.mem.register d fd u a).2.registeredOn s = c ∧ ¬ HasLeft p.log c := by
  have hkeep : (∀ s, (p.shared.mem.register d fd u a).1 ≠ .registered s) →
      (transcript c (p.log ++ [⟨.handler d, .register fd u a,
        (p.shared.mem.register d fd u a).1⟩])).mine = (transcript c p.log).mine := by
    intro hno
    by_cases hd : d = c
    · subst hd
      rw [transcript_own]
      exact nextMine_register hno
    · exact transcript_mine_eq (Or.inl (by simpa using hd))
  rcases Memory.register_cases_created p.shared.mem d fd u a with ⟨hno, hr⟩ | ⟨hfd, _, _, hr⟩
  · rw [hkeep hno, hr]
    exact hI s
  · rw [hr]
    dsimp only
    have hold : s < p.shared.mem.nextRef → p.shared.mem.registeredOn s ≠ d := by
      intro hs hd
      have hlive := hq.2.1.live s hs (by rw [hd, hphase])
      have hfds : (p.shared.mem.heap s).socketFd = fd := by
        rw [(hq.2.1.registered s hs).2.1, hd, ← (hq.2.1.serves d (by rw [hphase]; simp)).1, hphase]
      rw [hfds] at hlive
      exact hfd (Finmap.mem_of_lookup_eq_some hlive)
    by_cases hs : s = p.shared.mem.nextRef
    · rw [hs, update_self]
      by_cases hd : d = c
      · subst hd
        have hleft : ¬ HasLeft p.log d := by
          rw [hq.2.2, hphase]
          simp
        rw [transcript_own]
        simp [Transcript.after, nextMine, hleft]
      · rw [transcript_mine_eq (Or.inl (by simpa using hd)), hI]
        simp [hd]
    · rw [update_of_ne hs, Nat.lt_succ_iff_lt_or_eq, or_iff_left hs]
      by_cases hd : d = c
      · subst hd
        rw [transcript_own]
        simp only [Transcript.after, nextMine, Option.some.injEq]
        exact ⟨fun heq => absurd heq.symm hs, fun hlt => absurd hlt.2.1 (hold hlt.1)⟩
      · rw [transcript_mine_eq (Or.inl (by simpa using hd))]
        exact hI s

/-- The own session of a connection is the one that is registered on it. -/
theorem mine_iff (h : (system cfg).Reaches Lts.Any p) (c : ConnId) (s : SessionRef) :
    (transcript c p.log).mine = some s ↔ s < p.shared.mem.nextRef ∧
      p.shared.mem.registeredOn s = c ∧ ¬ HasLeft p.log c := by
  revert c s
  refine world_invariant (I := fun w log => ∀ c s, (transcript c log).mine = some s ↔
    s < w.mem.nextRef ∧ w.mem.registeredOn s = c ∧ ¬ HasLeft log c) ?_ ?_ ?_ h
  · intro c s
    simp [transcript, Memory.init]
  · intro p qs t o k ch r w hq hI hprog _ he c s
    have hown := hq.2.1
    have hallows := hq.allows hprog
    rcases World.exec_mem_cases he with ⟨hf, hremove, _, hregister⟩ | ⟨fd, ho, hm⟩ |
      ⟨fd, ho, hm⟩ | ⟨d, fd, u, a, ht, ho, hm⟩
    · rw [transcript_mine_eq (Or.inr ⟨hregister, hremove⟩), hasLeft_append_iff (Or.inr hremove),
        hf.nextRef, hf.registeredOn]
      exact hI c s
    · subst ho
      rw [hm, Memory.removeSession_nextRef, Memory.removeSession_registeredOn]
      by_cases ht : t = .handler c
      · subst ht
        rw [transcript_own, hasLeft_append]
        simp [Transcript.after, nextMine, Leaves]
      · rw [transcript_mine_eq (Or.inl ht), hasLeft_append_iff (Or.inl ht)]
        exact hI c s
    · subst ho
      rw [transcript_mine_eq (Or.inr ⟨by simp, by simp⟩), hasLeft_append_iff (Or.inr (by simp)), hm]
      exact hI c s
    · subst ht
      subst ho
      obtain ⟨hserving, hfd, _⟩ : (qs (.handler d)).life = .serving ∧
        fd = (qs (.handler d)).fd ∧ u ≠ "" := hallows
      obtain ⟨hr, _⟩ := World.exec_register.1 he
      rw [hasLeft_append_iff (Or.inr (by simp)), hm, hr]
      exact mine_register hq (by rw [← hserving, hfd]) (hI c)
  · intro p qs e w start _ hI _ he c s
    obtain ⟨_, hnext, hreg⟩ := World.env_sessions he
    rw [hnext, hreg]
    exact hI c s

/-- The handler of a connection that is not accepted yet has done nothing. -/
theorem transcript_fresh (h : (system cfg).Reaches Lts.Any p) (c : ConnId)
    (hc : p.shared.mem.nextConn ≤ c) : transcript c p.log = {} := by
  revert c
  refine world_invariant (I := fun w log => ∀ c, w.mem.nextConn ≤ c → transcript c log = {})
    (fun _ _ => rfl) ?_ ?_ h
  · intro p qs t o k ch r w hq hI hprog _ he c hc
    have hold := Nat.le_trans (exec_later he).nextConn hc
    have ht : t ≠ .handler c := by
      intro ht
      subst ht
      exact Nat.not_le_of_lt (hq.lt_nextConn hprog) hold
    rw [transcript_other ht]
    exact hI c hold
  · intro p qs e w start _ hI _ he c hc
    have hlater : p.shared.mem.nextConn ≤ w.mem.nextConn := by
      rcases World.env_mem_cases he with ⟨_, hf, _⟩ | ⟨_, _, _, _, _, hw⟩
      · exact hf.nextConn.ge
      · rw [hw]
        exact Nat.le_succ _
    exact hI c (Nat.le_trans hlater hc)

end Mine

/-! ## The frames of a transcript -/

section Writes

variable {cfg : Config} {p : State}

/-- A write of the handler of connection `c` through the session does not go to `c`,
unless the session was registered on `c`. -/
structure Memory.Apart (m : Memory) (c : ConnId) (s : SessionRef) : Prop where
  allocated : s < m.nextRef
  own : (m.heap s).socketFd = (m.conns c).fd → m.registeredOn s = c

/-- What a serving handler finds in the registry. -/
theorem Memory.Owned.apart {m : Memory} {qs : Tid → Phase} (h : m.Owned qs) {c : ConnId} {fd : Fd}
    {s : SessionRef} (hserving : (qs (.handler c)).life = .serving)
    (hs : m.registry.sessions.lookup fd = some s) : m.Apart c s where
  allocated := h.consistent.allocated fd s hs
  own heq := by
    have hopen := (h.serves c (by rw [hserving]; decide)).2
    rw [← heq, h.consistent.socketFd fd s hs, (h.owner fd s hs).1, Option.some.injEq] at hopen
    exact hopen

theorem Memory.Apart.later {m m' : Memory} {c : ConnId} {s : SessionRef} (h : m.Apart c s)
    (hlater : m.Later m') (hfd : (m'.conns c).fd = (m.conns c).fd) : m'.Apart c s where
  allocated := Nat.lt_of_lt_of_le h.allocated hlater.nextRef
  own heq := by
    rw [hlater.socketFd s h.allocated, hfd] at heq
    rw [hlater.registeredOn s h.allocated]
    exact h.own heq

/-- Operations change no descriptor of a connection. -/
theorem exec_connFd {t : Tid} {w w' : World} {o : ServerOp} {ch : Choice} {r : o.Resp}
    (he : w.exec cfg t o ch = some (r, w')) (c : ConnId) :
    (w'.mem.conns c).fd = (w.mem.conns c).fd := by
  rcases World.exec_mem_cases he with ⟨hf, _⟩ | ⟨fd, _, hm⟩ | ⟨fd, _, hm⟩ |
    ⟨d, fd, u, a, _, _, hm⟩
  · exact hf.connFd c
  · rw [hm, Memory.removeSession_conns]
  · rw [hm]
    rfl
  · rw [hm, Memory.register_conns]

/-- What an operation hands out to a handler is apart from its connection. -/
theorem apart_of_gives {qs : Tid → Phase} (hq : Owned p qs) {c : ConnId} {o : ServerOp}
    {k : o.Resp → Prog Server Ctl} {ch : Choice} {r : o.Resp} {w : World} {s : SessionRef}
    (hprog : p.prog (.handler c) = .call (S := Server) o k)
    (he : p.shared.exec cfg (.handler c) o ch = some (r, w)) (hg : Gives o r s) :
    w.mem.Apart c s := by
  have hallows : (qs (.handler c)).Allows o := hq.allows hprog
  have hkeep : p.shared.mem.Apart c s → w.mem.Apart c s := fun h =>
    h.later (exec_later he) (exec_connFd he c)
  cases o with
  | sendBare fd msg | sendLocked t msg => exact hg.elim
  | register fd u a =>
    have ⟨hserving, hfd, _⟩ : (qs (.handler c)).life = .serving ∧
      fd = (qs (.handler c)).fd ∧ u ≠ "" := hallows
    have ⟨hr, hw⟩ := World.exec_register.1 he
    change (registerReply u a r).1 = some s at hg
    rcases Memory.register_cases p.shared.mem c fd u a with ⟨t, ht, hcase⟩ | ⟨_, _, hcase⟩ |
      ⟨_, _, _, hcase⟩ | ⟨_, _, _, hcase⟩ <;> rw [hr, hcase] at hg
    · cases hg
      exact hkeep (hq.2.1.apart hserving ht)
    · cases hg
    · cases hg
    · cases hg
      rw [hw, World.reply_mem, hcase]
      exact ⟨Nat.lt_succ_self _, fun _ => update_self _ _ _⟩
  | mem o =>
    have hserving : (qs (.handler c)).life = .serving := by
      cases o with
      | getSession | findUser | aliveSessions => first | exact hallows | exact hallows.1
      | markIdle => exact hallows.elim
      | recv | dispatch | running | getPeerIp | removeSession | listSessions | read | restore
        | setStatus | touch | now | close => exact hg.elim
    have ⟨fd, hfd⟩ := exec_gives he hg
    exact hkeep (hq.2.1.apart hserving hfd)

/-- In every run, the sessions that a handler may write through are apart from its
connection or its own. -/
theorem writes_apart (h : (system cfg).Reaches Lts.Any p) :
    ∀ c s, Writes p (.handler c) s → p.shared.mem.Apart c s := by
  refine h.invariant (I := fun p => ∀ c s, Writes p (.handler c) s → p.shared.mem.Apart c s)
    (fun c s hw => absurd hw Prog.not_holds_ret) ?_
  intro p l p' hr hI _ hs c s hw
  obtain ⟨qs, hq⟩ := reachable_owned hr
  cases l with
  | op t ch =>
    obtain ⟨o, k, r, w, hprog, he, hp'⟩ := Machine.step_op.1 hs
    subst hp'
    change p.shared.exec cfg t o ch = some (r, w) at he
    have hold : Writes p (.handler c) s → w.mem.Apart c s := fun hw =>
      (hI c s hw).later (exec_later he) (exec_connFd he c)
    by_cases ht : t = .handler c
    · subst ht
      rw [Writes, Pool.afterOp_prog, update_self] at hw
      rcases hw.of_cont with hg | hw
      · exact apart_of_gives hq hprog he hg
      · exact hold (by rw [Writes, hprog]; exact hw)
    · rw [Writes, Pool.afterOp_prog, update_of_ne (Ne.symm ht)] at hw
      exact hold hw
  | jump t =>
    obtain ⟨ctl, _, hp'⟩ := Machine.step_jump.1 hs
    subst hp'
    by_cases ht : t = .handler c
    · subst ht
      rw [Writes, Pool.withProg_prog, update_self] at hw
      exact (hw.given (program_given cfg (fun _ => False) ctl)).elim
    · rw [Writes, Pool.withProg_prog, update_of_ne (Ne.symm ht)] at hw
      exact hI c s hw
  | env e =>
    have hlater := step_later hs
    obtain ⟨w, start, he, hp'⟩ := Machine.step_env.1 hs
    subst hp'
    change p.shared.env e = some (w, start) at he
    rw [Pool.afterEnv_shared] at hlater ⊢
    rcases World.env_mem_cases he with ⟨hstart, hf, _⟩ | ⟨fd, peerIp, _, _, hstart, hw'⟩
    · subst hstart
      exact (hI c s hw).later hlater (hf.connFd c)
    · subst hstart
      by_cases hc : c = p.shared.mem.nextConn
      · subst hc
        rw [Writes, Pool.afterEnv_some_prog, update_self] at hw
        exact absurd hw Prog.not_holds_ret
      · rw [Writes, Pool.afterEnv_some_prog, update_of_ne (by simpa using hc)] at hw
        refine (hI c s hw).later hlater ?_
        rw [hw', accept_conns_of_ne _ _ _ hc]

/-- A handler that performs an operation other than the last two of `handle_client`
serves the descriptor of its connection. -/
theorem Owned.serving_open {qs : Tid → Phase} (hq : Owned p qs) {c : ConnId}
    (hserving : (qs (.handler c)).life = .serving) :
    (qs (.handler c)).fd = (p.shared.mem.conns c).fd ∧
      p.shared.mem.fds (p.shared.mem.conns c).fd = some c ∧ ¬ HasLeft p.log c := by
  have ⟨hfd, hopen⟩ := hq.2.1.serves c (by rw [hserving]; decide)
  refine ⟨hfd, hopen, ?_⟩
  rw [hq.2.2, hserving]
  simp

/-- The write of a handler through a session goes to its connection exactly if the
session is its own. -/
theorem sendLocked_home {qs : Tid → Phase} (h : (system cfg).Reaches Lts.Any p)
    (hq : Owned p qs) {c : ConnId} (hserving : (qs (.handler c)).life = .serving)
    {s : SessionRef} (hw : Writes p (.handler c) s) :
    p.shared.mem.fds (p.shared.mem.heap s).socketFd = some c ↔
      (transcript c p.log).mine = some s := by
  have ⟨_, hopen, hleft⟩ := hq.serving_open hserving
  have hapart := writes_apart h c s hw
  rw [mine_iff h]
  constructor
  · intro hfd
    exact ⟨hapart.allocated, hapart.own (hq.2.1.opened _ _ hfd).1.symm, hleft⟩
  · intro ⟨hlt, hc, _⟩
    rw [(hq.2.1.registered s hlt).2.1, hc, hopen]

/-- The locked block of `handle_register` replies on the connection of its handler. -/
theorem register_home {m : Memory} {qs : Tid → Phase} (hown : m.Owned qs) {c : ConnId} {fd : Fd}
    {u a : String} {s : SessionRef} (hs : (registerReply u a (m.register c fd u a).1).1 = some s) :
    ((m.register c fd u a).2.heap s).socketFd = fd := by
  rcases Memory.register_cases m c fd u a with ⟨t, ht, hr⟩ | ⟨_, _, hr⟩ | ⟨_, _, _, hr⟩ |
    ⟨_, _, _, hr⟩ <;> rw [hr] at hs ⊢
  · cases hs
    exact hown.consistent.socketFd fd _ ht
  · cases hs
  · cases hs
  · cases hs
    simp

/-- A frame to a descriptor of the connection. -/
theorem World.write_msgs {w : World} {fd : Fd} {c : ConnId} (h : w.mem.fds fd = some c)
    (via : Option SessionRef) (msg : ServerMsg) :
    ((w.write fd via msg).out c).map Written.msg = (w.out c).map Written.msg ++ [msg] := by
  rw [World.write_out _ h, update_self, List.map_append]
  rfl

/-- A frame to another descriptor. -/
theorem World.write_other {w : World} {fd : Fd} {c : ConnId} (h : w.mem.fds fd ≠ some c)
    (via : Option SessionRef) (msg : ServerMsg) : (w.write fd via msg).out c = w.out c := by
  rw [World.write]
  split
  · rfl
  · rename_i d hd
    refine update_of_ne (fun hcd => h ?_) _ _
    rw [hd, hcd]

/-- What an operation of the handler of a connection puts on the connection is what it
adds to the transcript. -/
theorem transcript_grows (h : (system cfg).Reaches Lts.Any p) {c : ConnId} {o : ServerOp}
    {k : o.Resp → Prog Server Ctl} {ch : Choice} {r : o.Resp} {w : World}
    (hprog : p.prog (.handler c) = .call (S := Server) o k)
    (he : p.shared.exec cfg (.handler c) o ch = some (r, w)) :
    (w.out c).map Written.msg = (p.shared.out c).map Written.msg ++
      (heard (transcript c p.log).mine o r).filterMap Entry.asFrame := by
  obtain ⟨qs, hq⟩ := reachable_owned h
  have hallows : (qs (.handler c)).Allows o := hq.allows hprog
  cases o with
  | mem o =>
    have hnone : (heard (transcript c p.log).mine (.mem o) r).filterMap Entry.asFrame = [] := by
      cases o <;> rfl
    obtain ⟨_, _, hx⟩ := Option.map_eq_some_iff.1 he
    cases hx
    rw [hnone, List.append_nil]
  | sendBare fd msg =>
    obtain ⟨hserving, hfd⟩ : (qs (.handler c)).life = .serving ∧ fd = (qs (.handler c)).fd := hallows
    obtain ⟨hconn, hopen, _⟩ := hq.serving_open hserving
    cases he
    exact World.write_msgs (by rw [hfd, hconn, hopen]) none msg
  | sendLocked s msg =>
    have hhome := sendLocked_home (s := s) h hq hallows (by
      rw [Writes, hprog]
      exact .here ⟨msg, rfl⟩)
    cases he
    by_cases hmine : (transcript c p.log).mine = some s
    · rw [heard, if_pos hmine]
      exact World.write_msgs (hhome.2 hmine) (some s) msg
    · rw [heard, if_neg hmine, World.write_other (mt hhome.1 hmine)]
      exact (List.append_nil _).symm
  | register fd u a =>
    obtain ⟨hserving, hfd, _⟩ : (qs (.handler c)).life = .serving ∧
      fd = (qs (.handler c)).fd ∧ u ≠ "" := hallows
    obtain ⟨hconn, hopen, _⟩ := hq.serving_open hserving
    obtain ⟨hr, hw⟩ := World.exec_register.1 he
    have hto : (p.shared.mem.register c fd u a).2.fds fd = some c := by
      have hfds : (p.shared.mem.register c fd u a).2.fds = p.shared.mem.fds := by
        rcases Memory.register_cases p.shared.mem c fd u a with ⟨_, _, hx⟩ | ⟨_, _, hx⟩ |
          ⟨_, _, _, hx⟩ | ⟨_, _, _, hx⟩ <;> rw [hx]
      rw [hfds, hfd, hconn, hopen]
    rw [hw, World.reply]
    cases hvia : (registerReply u a r).1 with
    | none => exact World.write_msgs (w := ⟨_, _⟩) hto none _
    | some s =>
      have hsocket := register_home hq.2.1 (hr ▸ hvia)
      exact World.write_msgs (w := ⟨_, _⟩) (by rw [hsocket]; exact hto) (some s) _

end Writes

end SimpleChat
