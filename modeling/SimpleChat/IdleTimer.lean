import SimpleChat.StatusHistory

/-!
# The idle timer

`last_activity` is written by two helpers that five handlers call at different
points.  `timedSystem` runs the server next to a clock of the requests:
`lastRequest` records for each session when it was registered, or when the
server dispatched its last acceptable request, and reads nothing but the frames
and the protobuf parsers.  `idle_marking` says that a scan goes by this clock.
-/

namespace SimpleChat

open Conc Function

/-! ## The requests of a session -/

/-- The frames that count as activity: requests of the types 2 to 6 that parse,
and for CHANGE_STATUS with a valid value. -/
def acceptable (cfg : Config) (f : UInt8 × Bytes) : Bool :=
  if f.1 = MsgType.MESSAGE_GENERAL then (cfg.pb.parseMessageGeneral f.2).isSome
  else if f.1 = MsgType.MESSAGE_DM then (cfg.pb.parseMessageDM f.2).isSome
  else if f.1 = MsgType.CHANGE_STATUS then
    (cfg.pb.parseChangeStatus f.2).any fun cs => validStatus cs.status
  else if f.1 = MsgType.LIST_USERS then (cfg.pb.parseListUsers f.2).isSome
  else if f.1 = MsgType.GET_USER_INFO then (cfg.pb.parseGetUserInfo f.2).isSome
  else false

/-- The frames of connection `c` that the server dispatched in a step. -/
def newFrames (c : ConnId) (p p' : State) : List (UInt8 × Bytes) :=
  (dispatched c p'.log).drop (dispatched c p.log).length

/-- Connection `c` made an acceptable request in a step. -/
def requestIn (cfg : Config) (c : ConnId) (p p' : State) : Bool :=
  (newFrames c p p').any (acceptable cfg)

/-- The times of the last requests after a step, from those before it.  A session
that the step registers starts with the time of the step. -/
def lastRequest (cfg : Config) (p p' : State) (req : SessionRef → Int) (s : SessionRef) : Int :=
  if s < p.shared.mem.nextRef then
    if requestIn cfg (p.shared.mem.registeredOn s) p p' then p.shared.mem.clock else req s
  else if s < p'.shared.mem.nextRef then p.shared.mem.clock
  else req s

/-- The server a turn at a time, with the times of the last requests. -/
def timedSystem (cfg : Config) : Lts (State × (SessionRef → Int)) (TurnLabel Tid Choice Env) where
  init := ((turnSystem cfg).init, fun _ => 0)
  step x l := ((turnSystem cfg).step x.1 l).map fun p' => (p', lastRequest cfg x.1 p' x.2)

variable {cfg : Config}

theorem timed_step {p p' : State} {req req' : SessionRef → Int} {l : TurnLabel Tid Choice Env} :
    (timedSystem cfg).step (p, req) l = some (p', req') ↔
      (turnSystem cfg).step p l = some p' ∧ req' = lastRequest cfg p p' req := by
  change ((turnSystem cfg).step p l).map _ = _ ↔ _
  rw [Option.map_eq_some_iff]
  constructor
  · intro ⟨q, hq, hx⟩
    cases hx
    exact ⟨hq, rfl⟩
  · intro ⟨hq, hreq⟩
    exact ⟨p', hq, by rw [hreq]⟩

/-- The times change nothing about the server. -/
theorem reaches_untimed {x : State × (SessionRef → Int)}
    (h : (timedSystem cfg).Reaches Lts.Any x) : (turnSystem cfg).Reaches Lts.Any x.1 := by
  refine h.invariant (I := fun x => (turnSystem cfg).Reaches Lts.Any x.1) .init ?_
  intro x l x' _ hI _ hs
  exact hI.tail trivial (timed_step.1 hs).1

/-! ## What the operations do to the timer -/

namespace Memory

variable (m : Memory)

theorem lastActivity_touch (t s : SessionRef) :
    ((m.touch t).heap s).lastActivity = if t = s then m.clock else (m.heap s).lastActivity := by
  by_cases hts : t = s
  · subst hts
    simp [touch, modify]
  · simp [touch, modify, hts, Ne.symm hts]

theorem lastActivity_setStatus (t s : SessionRef) (st : StatusEnum) :
    ((m.setStatus t st).heap s).lastActivity = (m.heap s).lastActivity := by
  by_cases hts : t = s
  · subst hts
    simp [setStatus, modify]
  · simp [setStatus, modify, Ne.symm hts]

theorem restore_timer (t : SessionRef) :
    (m.restore t).2.clock = m.clock ∧
      ∀ s, ((m.restore t).2.heap s).lastActivity = (m.heap s).lastActivity := by
  rw [restore]
  split
  · refine ⟨rfl, fun s => ?_⟩
    by_cases hts : t = s
    · subst hts
      simp [modify]
    · simp [modify, Ne.symm hts]
  · exact ⟨rfl, fun _ => rfl⟩

theorem lastActivity_active (t s : SessionRef) :
    ((m.active t).heap s).lastActivity = if t = s then m.clock else (m.heap s).lastActivity := by
  have ⟨hclock, hsame⟩ := m.restore_timer t
  rw [active, lastActivity_touch, hclock, hsame]

theorem lastActivity_removeSession (fd : Fd) (s : SessionRef) :
    ((m.removeSession fd).heap s).lastActivity = (m.heap s).lastActivity := by
  rw [removeSession_heap]
  split <;> rfl

/-- Registering starts the timer of the new session, and of no other. -/
theorem lastActivity_register (c : ConnId) (fd : Fd) (u a : String) (s : SessionRef) :
    ((m.register c fd u a).2.heap s).lastActivity =
      if m.nextRef ≤ s ∧ s < (m.register c fd u a).2.nextRef then m.clock
      else (m.heap s).lastActivity := by
  rcases register_cases_created m c fd u a with ⟨_, he⟩ | ⟨_, _, _, he⟩
  · rw [he]
    exact (if_neg fun h => absurd h.2 (Nat.not_lt.2 h.1)).symm
  · rw [he]
    by_cases hs : s = m.nextRef
    · subst hs
      simp
    · have hout : ¬ (m.nextRef ≤ s ∧ s < m.nextRef + 1) :=
        fun h => hs (Nat.le_antisymm (Nat.le_of_lt_succ h.2) h.1)
      rw [if_neg hout]
      simp [hs]

end Memory

/-! ## What a turn does to the timer -/

section Timed

variable {m m' : Memory} {ws : List Written} {c : ConnId} {fd : Fd} {payload : Bytes}
  {msgType : UInt8}

/-- The timer of session `s` after a turn in which its connection made an
acceptable request, or none. -/
structure Timed (m m' : Memory) (requested : Bool) (s : SessionRef) : Prop where
  clock : m'.clock = m.clock
  old : s < m.nextRef →
    (m'.heap s).lastActivity = if requested then m.clock else (m.heap s).lastActivity
  new : m.nextRef ≤ s → s < m'.nextRef → (m'.heap s).lastActivity = m.clock

/-- A turn that creates no session and leaves the timer as it is. -/
theorem Timed.same {s : SessionRef} (hclock : m'.clock = m.clock) (href : m'.nextRef = m.nextRef)
    (hs : (m'.heap s).lastActivity = (m.heap s).lastActivity) : Timed m m' false s :=
  ⟨hclock, fun _ => hs, fun hle hlt => absurd (href ▸ hlt) (Nat.not_lt.2 hle)⟩

/-- A turn that resets the timer of session `t`. -/
theorem Timed.reset {s t : SessionRef} (hclock : m'.clock = m.clock) (href : m'.nextRef = m.nextRef)
    (hs : (m'.heap s).lastActivity = if t = s then m.clock else (m.heap s).lastActivity) :
    Timed m m' (decide (t = s)) s := by
  refine ⟨hclock, fun _ => ?_, fun hle hlt => absurd (href ▸ hlt) (Nat.not_lt.2 hle)⟩
  rw [hs]
  simp

theorem Malformed.not_acceptable {text : String} (h : Malformed cfg payload msgType text) :
    acceptable cfg (msgType, payload) = false := by
  cases h with
  | general h => exact congrArg Option.isSome h
  | dm h => exact congrArg Option.isSome h
  | changeStatus h => exact congrArg (Option.any fun cs => validStatus cs.status) h
  | listUsers h => exact congrArg Option.isSome h
  | getUserInfo h => exact congrArg Option.isSome h

/-- A handler execution resets the timer of the session of its descriptor if it
handles an acceptable request, and no other. -/
theorem Handled.timed (h : Handled cfg c fd payload m msgType ws m') (s : SessionRef) :
    Timed m m' (decide (m.getSession fd = some s) && acceptable cfg (msgType, payload)) s := by
  have hactive : ∀ {t}, m.getSession fd = some t →
      Timed m (m.active t) (decide (m.getSession fd = some s)) s := by
    intro t ht
    have hclock : (m.active t).clock = m.clock := (m.restore_timer t).1
    have hreset := Timed.reset hclock (Memory.frame_active m t).nextRef (m.lastActivity_active t s)
    rw [ht]
    simpa using hreset
  have htouch : ∀ {t}, m.getSession fd = some t →
      Timed m (m.touch t) (decide (m.getSession fd = some s)) s := by
    intro t ht
    have hclock : (m.touch t).clock = m.clock := rfl
    have hreset := Timed.reset hclock rfl (m.lastActivity_touch t s)
    rw [ht]
    simpa using hreset
  have hnone : acceptable cfg (msgType, payload) = false → Timed m m
      (decide (m.getSession fd = some s) && acceptable cfg (msgType, payload)) s := by
    intro hno
    rw [hno, Bool.and_false]
    exact .same rfl rfl rfl
  have hyes : acceptable cfg (msgType, payload) = true → ∀ {m'},
      Timed m m' (decide (m.getSession fd = some s)) s →
      Timed m m' (decide (m.getSession fd = some s) && acceptable cfg (msgType, payload)) s := by
    intro hyes _ htimed
    rwa [hyes, Bool.and_true]
  cases h with
  | unknown htype =>
    refine hnone ?_
    simp only [List.mem_cons, not_or] at htype
    simp [acceptable, htype]
  | registerMalformed => exact hnone rfl
  | registerEmpty => exact hnone rfl
  | @register reg peerIp =>
    have hno : acceptable cfg (MsgType.REGISTER, payload) = false := rfl
    rw [hno, Bool.and_false]
    refine ⟨Memory.register_clock _ _ _ _ _, fun hlt => ?_, fun hle hlt => ?_⟩
    · rw [m.lastActivity_register, if_neg fun h => absurd hlt (Nat.not_lt.2 h.1)]
      rfl
    · rw [m.lastActivity_register, if_pos ⟨hle, hlt⟩]
  | notRegistered htype hs =>
    rw [hs]
    exact .same rfl rfl rfl
  | malformed hs hparse => exact hnone hparse.not_acceptable
  | general hs hparse => exact hyes (congrArg Option.isSome hparse) (hactive hs)
  | dmNotFound hs hparse => exact hyes (congrArg Option.isSome hparse) (hactive hs)
  | dm hs hparse => exact hyes (congrArg Option.isSome hparse) (hactive hs)
  | invalidStatus hs hparse hinvalid =>
    refine hnone ?_
    have hany := congrArg (Option.any fun cs => validStatus cs.status) hparse
    exact hany.trans hinvalid
  | @changeStatus cs t hs hparse hvalid =>
    have hany := congrArg (Option.any fun cs => validStatus cs.status) hparse
    have hclock : ((m.setStatus t cs.status).touch t).clock = m.clock := rfl
    have hlast := (m.setStatus t cs.status).lastActivity_touch t s
    rw [m.lastActivity_setStatus] at hlast
    have hreset := Timed.reset hclock rfl hlast
    refine hyes (hany.trans hvalid) ?_
    rw [hs]
    simpa using hreset
  | listUsers hs hparse => exact hyes (congrArg Option.isSome hparse) (htouch hs)
  | userNotFound hs hparse => exact hyes (congrArg Option.isSome hparse) (htouch hs)
  | userInfo hs hparse => exact hyes (congrArg Option.isSome hparse) (htouch hs)
  | quitSilent => exact hnone rfl
  | quit => exact hnone rfl

/-- The session that a serving handler finds is that of its connection. -/
theorem Memory.Owned.getSession_iff {qs : Tid → Phase} (hown : m.Owned qs)
    (hq : qs (.handler c) = ⟨fd, .serving⟩) {s : SessionRef} (hs : s < m.nextRef) :
    m.getSession fd = some s ↔ m.registeredOn s = c := by
  constructor
  · exact fun hfind => (hown.registeredOn_eq_iff hq hfind).2 rfl
  · intro hreg
    have hlive := hown.live s hs (by rw [hreg, hq])
    rwa [(hown.registeredOn_eq_iff hq hlive).1 hreg] at hlive

/-- A turn of a handler resets the timer of the session of its connection if it
handles an acceptable request, and no other. -/
theorem HandlerTurn.timed {l : List (Prog.Act Server)} {qs : Tid → Phase}
    (h : HandlerTurn cfg c fd m l m') (hown : m.Owned qs) (hq : qs (.handler c) = ⟨fd, .serving⟩)
    (s : SessionRef) :
    Timed m m' (decide (m.registeredOn s = c) && (dispatchedBy l).any (acceptable cfg)) s := by
  have hnone : dispatchedBy l = [] → ∀ {b}, Timed m m' false s →
      Timed m m' (b && (dispatchedBy l).any (acceptable cfg)) s := by
    intro hd b h
    rw [hd, List.any_nil, Bool.and_false]
    exact h
  cases h with
  | lost hm _ hd =>
    refine hnone hd (.same ?_ hm.frame.nextRef ?_)
    · rw [hm.eq]
    · rw [hm.eq]
  | cleanup hm _ hd =>
    subst hm
    exact hnone hd (.same (m.removeSession_clock fd) (m.removeSession_nextRef fd)
      (m.lastActivity_removeSession fd s))
  | @handled m₁ msgType payload hm hd h =>
    have htimed := h.timed s
    rw [hd, List.any_cons, List.any_nil, Bool.or_false]
    have hclock : m₁.clock = m.clock := by rw [hm.eq]
    have hheap : m₁.heap = m.heap := by rw [hm.eq]
    refine ⟨htimed.clock.trans hclock, fun hlt => ?_, fun hle hlt => ?_⟩
    · have hmine : m₁.getSession fd = some s ↔ m.registeredOn s = c := by
        unfold Memory.getSession
        rw [hm.frame.registry]
        exact hown.getSession_iff hq hlt
      rw [htimed.old (hm.frame.nextRef.symm ▸ hlt), hclock, hheap]
      simp only [hmine]
    · rw [htimed.new (hm.frame.nextRef.le.trans hle) hlt, hclock]

theorem markIdle_clock {idle now : Int} (todo : List SessionRef) (m : Memory) :
    (Memory.markIdle idle now todo m).2.clock = m.clock := by
  induction todo generalizing m with
  | nil => rfl
  | cons s todo ih =>
    rw [Memory.markIdle]
    dsimp only
    rw [ih, Memory.markIdleOne]
    split <;> rfl

/-- A scan resets no timer. -/
theorem Scan.timed {l : List (Prog.Act Server)} {order : List Fd} (h : Scan cfg m l m' order)
    (s : SessionRef) : Timed m m' false s := by
  rw [h.mem]
  refine .same (markIdle_clock _ _) (Memory.frame_markIdle _ _ _ m).nextRef ?_
  rw [Memory.markIdle_heap]
  split <;> rfl

end Timed

/-! ## Every run -/

theorem requestIn_eq {p p' : State} {R : List (Event Server Tid)} (hlog : p'.log = p.log ++ R)
    (c : ConnId) : requestIn cfg c p p' = (dispatched c R).any (acceptable cfg) := by
  unfold requestIn newFrames dispatched
  rw [hlog, List.filterMap_append, List.drop_left]

/-- What a turn of a thread does to the timers. -/
theorem turn_timed {p p' : State} (h : (turnSystem cfg).Reaches Lts.Any p) {t : Tid}
    {chs : List Choice} (hs : (turnSystem cfg).step p (.turn t chs) = some p') (s : SessionRef) :
    Timed p.shared.mem p'.shared.mem (requestIn cfg (p.shared.mem.registeredOn s) p p') s := by
  cases t with
  | watchdog =>
    have ⟨l, order, hlog, hscan⟩ := watchdog_turn h hs
    rw [requestIn_eq hlog, dispatched_scan]
    exact hscan.timed s
  | handler c =>
    have ⟨l, hlog, hcase⟩ := handler_turn h hs
    have hrequest : requestIn cfg (p.shared.mem.registeredOn s) p p' =
        (decide (p.shared.mem.registeredOn s = c) && (dispatchedBy l).any (acceptable cfg)) := by
      rw [requestIn_eq hlog, dispatched_turn]
      by_cases hc : c = p.shared.mem.registeredOn s
      · simp [hc]
      · simp [hc, Ne.symm hc]
    rw [hrequest]
    rcases hcase with ⟨_, hd, hm⟩ | ⟨fd, qs, hown, hq, hturn⟩
    · rw [hd, List.any_nil, Bool.and_false, hm]
      exact .same rfl rfl rfl
    · exact hturn.timed hown.2.1 hq s

/-- Time does not go back. -/
theorem env_clock {w w' : World} {e : Env} {start : Option (Tid × Ctl)}
    (h : w.env e = some (w', start)) : w.mem.clock ≤ w'.mem.clock := by
  cases e with
  | accept fd peerIp | clientSend c bs | clientClose c =>
    rw [World.env] at h
    split at h
    · cases h
      exact Int.le_refl _
    · cases h
  | tick d =>
    cases h
    exact Int.le_add_of_nonneg_right (Int.natCast_nonneg d)

/-- The timers of the sessions are the times of their last requests. -/
structure OnTime (m : Memory) (req : SessionRef → Int) : Prop where
  stored : ∀ s, s < m.nextRef → (m.heap s).lastActivity = req s
  past : ∀ s, s < m.nextRef → req s ≤ m.clock

theorem reachable_onTime {x : State × (SessionRef → Int)}
    (h : (timedSystem cfg).Reaches Lts.Any x) : OnTime x.1.shared.mem x.2 := by
  refine h.invariant (I := fun x => OnTime x.1.shared.mem x.2)
    ⟨fun s hs => absurd hs (Nat.not_lt_zero s), fun s hs => absurd hs (Nat.not_lt_zero s)⟩ ?_
  intro ⟨p, req⟩ l ⟨p', req'⟩ hx hI _ hs
  have hreach := reaches_untimed hx
  have ⟨hstep, hreq⟩ := timed_step.1 hs
  subst hreq
  cases l with
  | turn t chs =>
    have htimed := turn_timed hreach hstep
    have hnext : ∀ s, s < p'.shared.mem.nextRef →
        (p'.shared.mem.heap s).lastActivity = lastRequest cfg p p' req s ∧
          lastRequest cfg p p' req s ≤ p'.shared.mem.clock := by
      intro s hs
      unfold lastRequest
      rw [(htimed s).clock]
      by_cases hold : s < p.shared.mem.nextRef
      · rw [if_pos hold, (htimed s).old hold]
        split
        · exact ⟨rfl, Int.le_refl _⟩
        · exact ⟨hI.stored s hold, hI.past s hold⟩
      · rw [if_neg hold, if_pos hs]
        exact ⟨(htimed s).new (Nat.le_of_not_lt hold) hs, Int.le_refl _⟩
    exact ⟨fun s hs => (hnext s hs).1, fun s hs => (hnext s hs).2⟩
  | env e =>
    have ⟨w, start, he, hp'⟩ := Machine.step_env.1 hstep
    subst hp'
    have ⟨hheap, href, _⟩ := World.env_sessions he
    have hsame : ∀ s, s < p.shared.mem.nextRef →
        lastRequest cfg p (p.afterEnv w start) req s = req s := by
      intro s hs
      have hrequest : requestIn cfg (p.shared.mem.registeredOn s) p (p.afterEnv w start) = false := by
        rw [requestIn_eq (R := []) (by rw [Pool.afterEnv_log, List.append_nil])]
        rfl
      rw [lastRequest, if_pos hs, hrequest]
      rfl
    refine ⟨fun s hs => ?_, fun s hs => ?_⟩
    · rw [Pool.afterEnv_shared, href] at hs
      rw [Pool.afterEnv_shared, hheap]
      exact (hI.stored s hs).trans (hsame s hs).symm
    · rw [Pool.afterEnv_shared, href] at hs
      rw [Pool.afterEnv_shared]
      exact (hsame s hs).le.trans ((hI.past s hs).trans (env_clock he))

/-- A scan changes a session to `INVISIBLE` exactly if its status is another and
at least `idle_timeout_sec_` whole seconds separate the time of the scan from its
registration and from its last acceptable request.  A step in which its
connection makes no acceptable request does not touch its timer. -/
theorem idle_marking {p : State} {req : SessionRef → Int}
    (h : (timedSystem cfg).Reaches Lts.Any (p, req)) :
    (∀ chs x fd s, (timedSystem cfg).step (p, req) (.turn .watchdog chs) = some x →
      p.shared.mem.registry.sessions.lookup fd = some s →
      ((p.shared.mem.heap s).status ≠ .INVISIBLE ∧ (x.1.shared.mem.heap s).status = .INVISIBLE ↔
        (p.shared.mem.heap s).status ≠ .INVISIBLE ∧
          cfg.idleTimeoutSec ≤ (p.shared.mem.clock - req s) / 1000000000)) ∧
    ∀ l x s, (timedSystem cfg).step (p, req) l = some x → s < p.shared.mem.nextRef →
      requestIn cfg (p.shared.mem.registeredOn s) p x.1 = false →
      (x.1.shared.mem.heap s).lastActivity = (p.shared.mem.heap s).lastActivity := by
  have hreach := reaches_untimed h
  have honTime := reachable_onTime h
  refine ⟨?_, ?_⟩
  · rintro chs ⟨p', req'⟩ fd s hs hfd
    obtain ⟨_, hown⟩ := reachable_owned (reaches_system hreach)
    have hcons := hown.2.1.consistent
    have hlt := hcons.allocated fd s hfd
    obtain ⟨l, order, _, hscan⟩ := watchdog_turn hreach (timed_step.1 hs).1
    obtain ⟨hnodup, hmem⟩ := hcons.visited hscan.iterates
    have halive : (p.shared.mem.heap s).alive = true := by
      rw [hown.2.1.alive s hlt, hcons.socketFd fd s hfd]
      exact hfd
    -- The elapsed time is not negative, so that truncating it is rounding it down.
    have helapsed : Memory.elapsedSec p.shared.mem.clock (p.shared.mem.heap s) =
        (p.shared.mem.clock - req s) / 1000000000 := by
      rw [Memory.elapsedSec, honTime.stored s hlt]
      exact Int.tdiv_eq_ediv_of_nonneg (Int.sub_nonneg.2 (honTime.past s hlt))
    have hidle : s ∈ (Memory.markIdle cfg.idleTimeoutSec p.shared.mem.clock
        (p.shared.mem.visited order) p.shared.mem).1 ↔
        (p.shared.mem.heap s).status ≠ .INVISIBLE ∧
          cfg.idleTimeoutSec ≤ (p.shared.mem.clock - req s) / 1000000000 := by
      rw [Memory.markIdle_marked hnodup, List.mem_filter, hmem, and_iff_right ⟨fd, hfd⟩]
      simp [Memory.isIdle, halive, helapsed]
    rw [hscan.mem, Memory.markIdle_heap, ← hidle]
    constructor
    · rintro ⟨hbefore, hafter⟩
      by_contra hnot
      rw [if_neg hnot] at hafter
      exact hbefore hafter
    · intro hmarked
      rw [if_pos hmarked]
      exact ⟨(hidle.1 hmarked).1, rfl⟩
  · rintro l ⟨p', req'⟩ s hs hlt hnone
    obtain ⟨hstep, _⟩ := timed_step.1 hs
    cases l with
    | turn t chs =>
      have htimed := turn_timed hreach hstep s
      rw [show requestIn cfg _ p p' = false from hnone] at htimed
      exact htimed.old hlt
    | env e =>
      obtain ⟨w, start, he, hp'⟩ := Machine.step_env.1 hstep
      rw [hp', Pool.afterEnv_shared, (World.env_sessions he).1]

/-- The run before a scan that marks the session of "a". -/
def idleTurns : List (TurnLabel Tid Choice Env) :=
  [.env (.accept 4 "10.0.0.1"), .env (.clientSend 0 [1, 0, 0, 0, 3, 10, 1, 97]),
    wholeTurn (.handler 0) 6 [], .env (.tick 180000000000)]

/-- After 180 seconds without a request a scan changes the status, and the
theorem says so. -/
theorem idle_marking_after :
    ∃ p req x, (timedSystem sampleConfig).Reaches Lts.Any (p, req) ∧
      (timedSystem sampleConfig).step (p, req) (wholeTurn .watchdog 5 [4]) = some x ∧
      (p.shared.mem.heap 0).status ≠ .INVISIBLE ∧ (x.1.shared.mem.heap 0).status = .INVISIBLE ∧
      requestIn sampleConfig (p.shared.mem.registeredOn 0) p x.1 = false ∧
      (x.1.shared.mem.heap 0).lastActivity = (p.shared.mem.heap 0).lastActivity := by
  have ⟨⟨p, req⟩, hp, hrun⟩ := Lts.exists_reaches_of_run (L := timedSystem sampleConfig) idleTurns
    (fun y => ((timedSystem sampleConfig).step y (wholeTurn .watchdog 5 [4])).any fun x =>
      decide (y.1.shared.mem.registry.sessions.lookup 4 = some 0) &&
        decide (0 < y.1.shared.mem.nextRef) &&
        decide ((y.1.shared.mem.heap 0).status ≠ .INVISIBLE) &&
        decide (180 ≤ (y.1.shared.mem.clock - y.2 0) / 1000000000) &&
        !requestIn sampleConfig (y.1.shared.mem.registeredOn 0) y.1 x.1)
    (by decide +kernel)
  rw [Option.any_eq_true] at hrun
  have ⟨x, hx, hall⟩ := hrun
  simp only [Bool.and_eq_true, decide_eq_true_eq, Bool.not_eq_true'] at hall
  have ⟨⟨⟨⟨hlook, hlt⟩, hstatus⟩, hidle⟩, hnone⟩ := hall
  have ⟨hscan, hkept⟩ := idle_marking hp
  exact ⟨p, req, x, hp, hx, hstatus, ((hscan _ x 4 0 hx hlook).2 ⟨hstatus, hidle⟩).2, hnone,
    hkept _ x 0 hx hlt hnone⟩

end SimpleChat
