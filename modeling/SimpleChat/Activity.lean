import Mathlib.Data.List.DropRight
import SimpleChat.IdleTimer

/-!
# What ends auto-inactivity

Five kinds of requests reset the idle timer.  Three of them also end auto-inactivity:
`maybe_restore_activity` is called for MESSAGE_GENERAL and MESSAGE_DM, and
CHANGE_STATUS sets both statuses.  LIST_USERS resets the timer and leaves the statuses
as they are, so that the refreshes of a client do not show its user as active.

`auto_inactive_since` ties the statuses of a session to the history: since the last scan
that marked it, no request that ends auto-inactivity was handled.
-/

namespace SimpleChat

open Conc Function

/-- The event is a scan of the watchdog that marks session `s`. -/
def marks (s : SessionRef) : Event Server Tid → Bool
  | ⟨.watchdog, .mem (.markIdle _), marked⟩ => decide (s ∈ marked)
  | _ => false

/-- The history since the last scan that marked session `s`. -/
def sinceMarked (s : SessionRef) (log : List (Event Server Tid)) : List (Event Server Tid) :=
  log.rtakeWhile fun e => !marks s e

/-- The frames that end auto-inactivity. -/
def reactivating (cfg : Config) (f : UInt8 × Bytes) : Bool :=
  acceptable cfg f &&
    decide (f.1 ∈ [MsgType.MESSAGE_GENERAL, MsgType.MESSAGE_DM, MsgType.CHANGE_STATUS])

/-! ## The history since a mark -/

section Since

variable {s : SessionRef} {c : ConnId} {L R : List (Event Server Tid)}

theorem sinceMarked_append (h : R.any (marks s) = false) :
    sinceMarked s (L ++ R) = sinceMarked s L ++ R := by
  induction R using List.reverseRecOn with
  | nil => simp
  | append_singleton R e ih =>
    rw [List.any_append, Bool.or_eq_false_iff, List.any_cons, List.any_nil, Bool.or_false] at h
    rw [sinceMarked, ← List.append_assoc, List.rtakeWhile_concat_pos _ _ _ (by simp [h.2])]
    rw [← List.append_assoc]
    exact congrArg (· ++ [e]) (ih h.1)

/-- After a mark nothing older counts. -/
theorem mem_of_mem_sinceMarked (h : R.any (marks s) = true) {e : Event Server Tid}
    (he : e ∈ sinceMarked s (L ++ R)) : e ∈ R := by
  induction R using List.reverseRecOn with
  | nil => simp at h
  | append_singleton R x ih =>
    rw [sinceMarked, ← List.append_assoc, List.rtakeWhile_concat] at he
    split at he
    · rename_i hx
      have hold : R.any (marks s) = true := by
        rw [List.any_append, Bool.or_eq_true] at h
        rcases h with h | h
        · exact h
        · simp at h hx
          rw [h] at hx
          cases hx
      rcases List.mem_append.1 he with he | he
      · exact List.mem_append_left _ (ih hold he)
      · exact List.mem_append_right _ he
    · cases he

/-- The watchdog dispatches nothing. -/
theorem dispatched_watchdog (h : ∀ e ∈ R, e.tid = .watchdog) : dispatched c R = [] := by
  refine List.filterMap_eq_nil_iff.2 fun e he => ?_
  rw [h e he]

/-- A handler marks nothing. -/
theorem any_marks_handler (c : ConnId) (l : List (Prog.Act Server)) :
    (l.map fun a => (⟨.handler c, a.1, a.2⟩ : Event Server Tid)).any (marks s) = false := by
  rw [List.any_eq_false]
  intro e he
  have ⟨a, _, ha⟩ := List.mem_map.1 he
  rw [← ha]
  exact Bool.false_ne_true

end Since

/-! ## What a turn does to a marked session -/

theorem autoInactive_congr {i j : SessionInfo} (h : statuses i = statuses j) :
    Memory.autoInactive i = Memory.autoInactive j := by
  have h1 : i.status = j.status := congrArg Prod.fst h
  have h2 : i.manualStatus = j.manualStatus := congrArg Prod.snd h
  rw [Memory.autoInactive, Memory.autoInactive, h1, h2]

/-- A session whose two statuses are the same is not auto-inactive. -/
theorem not_autoInactive {i : SessionInfo} {st : StatusEnum} (h : statuses i = (st, st)) :
    Memory.autoInactive i = false := by
  have h1 : i.status = st := congrArg Prod.fst h
  have h2 : i.manualStatus = st := congrArg Prod.snd h
  rw [Memory.autoInactive, h1, h2, bne, Bool.and_not_self]

section Turn

variable {cfg : Config} {c : ConnId} {fd : Fd} {payload : Bytes} {msgType : UInt8}
  {ws : List Written} {m m' : Memory}

/-- A session that is auto-inactive after a handler execution was so before, and the
frame is not a request of its user that ends auto-inactivity. -/
theorem Handled.autoInactive (h : Handled cfg c fd payload m msgType ws m') (hfresh : m.Fresh)
    {s : SessionRef} (hauto : Memory.autoInactive (m'.heap s) = true) :
    Memory.autoInactive (m.heap s) = true ∧
      (m.getSession fd = some s → reactivating cfg (msgType, payload) = false) := by
  have hnot : acceptable cfg (msgType, payload) = false →
      reactivating cfg (msgType, payload) = false := fun hno => by rw [reactivating, hno]; rfl
  have hother : msgType ∉ [MsgType.MESSAGE_GENERAL, MsgType.MESSAGE_DM, MsgType.CHANGE_STATUS] →
      reactivating cfg (msgType, payload) = false := fun hno => by
    rw [reactivating, decide_eq_false hno, Bool.and_false]
  have hactive : ∀ {t}, m.getSession fd = some t →
      Memory.autoInactive ((m.active t).heap s) = true →
      Memory.autoInactive (m.heap s) = true ∧ m.getSession fd ≠ some s := by
    intro t ht hafter
    have hstatuses := m.statuses_active t s
    split at hstatuses
    · rw [not_autoInactive hstatuses] at hafter
      cases hafter
    · rename_i hnone
      rw [autoInactive_congr hstatuses] at hafter
      refine ⟨hafter, fun hs => hnone ?_⟩
      have hts := Option.some.inj (ht.symm.trans hs)
      exact ⟨hts, hts ▸ hafter⟩
  have htouch : ∀ {t}, Memory.autoInactive ((m.touch t).heap s) = true →
      Memory.autoInactive (m.heap s) = true := fun {t} hafter => by
    rwa [autoInactive_congr (m.statuses_touch t s)] at hafter
  cases h with
  | unknown htype =>
    refine ⟨hauto, fun _ => hother fun hmem => htype ?_⟩
    simp only [List.mem_cons, List.not_mem_nil, or_false] at hmem ⊢
    rcases hmem with h | h | h <;> simp [h]
  | registerMalformed | registerEmpty => exact ⟨hauto, fun _ => hother (by decide)⟩
  | @register reg peerIp =>
    rw [autoInactive_congr (m.statuses_register hfresh c fd reg.username peerIp s)] at hauto
    exact ⟨hauto, fun _ => hother (by decide)⟩
  | notRegistered _ hs => exact ⟨hauto, fun hfind => by rw [hs] at hfind; cases hfind⟩
  | malformed _ hparse => exact ⟨hauto, fun _ => hnot hparse.not_acceptable⟩
  | general hs | dmNotFound hs | dm hs =>
    have ⟨hbefore, hne⟩ := hactive hs hauto
    exact ⟨hbefore, fun hfind => absurd hfind hne⟩
  | invalidStatus _ hparse hinvalid =>
    have hany := congrArg (Option.any fun cs => validStatus cs.status) hparse
    exact ⟨hauto, fun _ => hnot (hany.trans hinvalid)⟩
  | @changeStatus cs t hs hparse hvalid =>
    have hstatuses : statuses (((m.setStatus t cs.status).touch t).heap s) = _ :=
      ((m.setStatus t cs.status).statuses_touch t s).trans (m.statuses_setStatus t s cs.status)
    split at hstatuses
    · rw [not_autoInactive hstatuses] at hauto
      cases hauto
    · rename_i hts
      rw [autoInactive_congr hstatuses] at hauto
      exact ⟨hauto, fun hfind => absurd (Option.some.inj (hs.symm.trans hfind)) hts⟩
  | listUsers | userNotFound | userInfo => exact ⟨htouch hauto, fun _ => hother (by decide)⟩
  | quitSilent | quit => exact ⟨hauto, fun _ => hother (by decide)⟩

end Turn

/-! ## Every run -/

section Steps

variable {cfg : Config} {p p' : State}

/-- The turn of a handler leaves no session marked that was not, and none for whose
user it handles a request that ends auto-inactivity. -/
theorem turn_autoInactive (h : (turnSystem cfg).Reaches Lts.Any p) {c : ConnId} {chs : List Choice}
    (hs : (turnSystem cfg).step p (.turn (.handler c) chs) = some p') {s : SessionRef}
    (hauto : Memory.autoInactive (p'.shared.mem.heap s) = true) :
    s < p.shared.mem.nextRef ∧ Memory.autoInactive (p.shared.mem.heap s) = true ∧
      ∃ l, p'.log = p.log ++ l.map (fun a => ⟨.handler c, a.1, a.2⟩) ∧
        (p.shared.mem.registeredOn s = c → (dispatchedBy l).any (reactivating cfg) = false) := by
  have hfresh := (reachable_histories h).fresh
  have ⟨l, hlog, hcase⟩ := handler_turn h hs
  have hold : Memory.autoInactive (p.shared.mem.heap s) = true →
      s < p.shared.mem.nextRef := by
    intro hbefore
    by_contra hge
    rw [not_autoInactive (hfresh s (Nat.le_of_not_lt hge))] at hbefore
    cases hbefore
  rcases hcase with ⟨_, hnone, hm⟩ | ⟨fd, qs, hown, hq, hturn⟩
  · rw [hm] at hauto
    exact ⟨hold hauto, hauto, l, hlog, fun _ => by rw [hnone]; rfl⟩
  · cases hturn with
    | lost hm _ hnone =>
      rw [autoInactive_congr (hm.statuses s)] at hauto
      exact ⟨hold hauto, hauto, l, hlog, fun _ => by rw [hnone]; rfl⟩
    | cleanup hm _ hnone =>
      rw [hm] at hauto
      change Memory.autoInactive ((p.shared.mem.removeSession fd).heap s) = true at hauto
      rw [autoInactive_congr (p.shared.mem.statuses_removeSession fd s)] at hauto
      exact ⟨hold hauto, hauto, l, hlog, fun _ => by rw [hnone]; rfl⟩
    | @handled m₁ msgType payload hm hdispatched hhandled =>
      have hfresh₁ : m₁.Fresh := by
        intro t ht
        rw [hm.frame.nextRef] at ht
        rw [hm.statuses]
        exact hfresh t ht
      have ⟨hbefore, hnone⟩ := hhandled.autoInactive hfresh₁ hauto
      rw [autoInactive_congr (hm.statuses s)] at hbefore
      refine ⟨hold hbefore, hbefore, l, hlog, fun hc => ?_⟩
      have hfind : m₁.getSession fd = some s := by
        unfold Memory.getSession
        rw [hm.frame.registry]
        exact (hown.2.1.getSession_iff hq (hold hbefore)).2 hc
      rw [hdispatched, List.any_cons, hnone hfind]
      rfl

/-- A scan marks the sessions that it leaves auto-inactive, or they were so before. -/
theorem scan_autoInactive (h : (turnSystem cfg).Reaches Lts.Any p) {chs : List Choice}
    (hs : (turnSystem cfg).step p (.turn .watchdog chs) = some p') {s : SessionRef}
    (hauto : Memory.autoInactive (p'.shared.mem.heap s) = true) :
    ∃ R, p'.log = p.log ++ R ∧ (∀ e ∈ R, e.tid = .watchdog) ∧
      (R.any (marks s) = true ∨ Memory.autoInactive (p.shared.mem.heap s) = true) := by
  have ⟨ctl, l, ctl', hctl, hruns, _, hlog⟩ := Machine.turnStep_turn hs
  cases hctl.symm.trans (watchdog_at h)
  have ⟨_, order, l₂, _, hl, _, _, hmem⟩ := watchdogLoop_acts (turn_running h) hruns
  refine ⟨_, hlog, fun e he => ?_, ?_⟩
  · have ⟨a, _, ha⟩ := List.mem_map.1 he
    rw [← ha]
  · rw [hmem, Memory.markIdle_heap] at hauto
    split at hauto
    · rename_i hmarked
      left
      rw [hl]
      simp [marks, hmarked]
    · exact Or.inr hauto

/-- What the history says of an auto-inactive session: a scan has marked it, and since
then the server handled no request of its user that ends auto-inactivity. -/
def AsleepSince (cfg : Config) (p : State) (s : SessionRef) : Prop :=
  p.log.any (marks s) = true ∧
    (dispatched (p.shared.mem.registeredOn s) (sinceMarked s p.log)).any (reactivating cfg) = false

theorem reachable_asleep (h : (turnSystem cfg).Reaches Lts.Any p) (s : SessionRef)
    (hauto : Memory.autoInactive (p.shared.mem.heap s) = true) : AsleepSince cfg p s := by
  refine h.invariant
    (I := fun p => Memory.autoInactive (p.shared.mem.heap s) = true → AsleepSince cfg p s)
    (fun hx => (nomatch hx)) ?_ hauto
  intro q l q' hq hI _ hs hauto
  have hlater : q.shared.mem.Later q'.shared.mem := steps_later (Machine.turnStep_steps hs)
  cases l with
  | turn t chs =>
    cases t with
    | handler c =>
      have ⟨hlt, hbefore, l, hlog, hnone⟩ := turn_autoInactive hq hs hauto
      have ⟨hmarked, hasleep⟩ := hI hbefore
      rw [AsleepSince, hlog, List.any_append, hmarked, hlater.registeredOn s hlt,
        sinceMarked_append (any_marks_handler c l), dispatched_append, List.any_append, hasleep,
        dispatched_turn]
      refine ⟨rfl, ?_⟩
      split
      · rename_i hc
        exact hnone hc.symm
      · rfl
    | watchdog =>
      have ⟨R, hlog, hwatchdog, hcase⟩ := scan_autoInactive hq hs hauto
      rw [AsleepSince, hlog, List.any_append]
      cases hmarks : R.any (marks s) with
      | true =>
        refine ⟨Bool.or_true _, ?_⟩
        rw [dispatched_watchdog fun e he => hwatchdog e (mem_of_mem_sinceMarked hmarks he)]
        rfl
      | false =>
        rw [hmarks] at hcase
        have hbefore := hcase.resolve_left Bool.false_ne_true
        have ⟨hmarked, hasleep⟩ := hI hbefore
        have hlt : s < q.shared.mem.nextRef := by
          by_contra hge
          rw [not_autoInactive ((reachable_histories hq).fresh s (Nat.le_of_not_lt hge))] at hbefore
          cases hbefore
        rw [sinceMarked_append hmarks, hlater.registeredOn s hlt, dispatched_append,
          List.any_append, hasleep, dispatched_watchdog hwatchdog, hmarked]
        exact ⟨rfl, rfl⟩
  | env e =>
    have ⟨w, start, he, hq'⟩ := Machine.step_env.1 hs
    subst hq'
    have ⟨hheap, _, hreg⟩ := World.env_sessions he
    rw [Pool.afterEnv_shared, hheap] at hauto
    rw [AsleepSince, Pool.afterEnv_log, Pool.afterEnv_shared, hreg]
    exact hI hauto

/-- LIST_USERS changes no status. -/
theorem Handled.listUsers_statuses {c : ConnId} {fd : Fd} {payload : Bytes} {msgType : UInt8}
    {ws : List Written} {m m' : Memory} (h : Handled cfg c fd payload m msgType ws m')
    (htype : msgType = MsgType.LIST_USERS) (s : SessionRef) :
    statuses (m'.heap s) = statuses (m.heap s) := by
  cases h with
  | unknown | notRegistered | malformed | registerMalformed | registerEmpty | invalidStatus
    | quitSilent | quit => rfl
  | register => exact absurd htype (by decide)
  | general | dmNotFound | dm | changeStatus => exact absurd htype (by decide)
  | listUsers | userNotFound | userInfo => exact m.statuses_touch _ s

/-- The frames of a turn. -/
theorem newFrames_eq {R : List (Event Server Tid)} (hlog : p'.log = p.log ++ R) (c : ConnId) :
    newFrames c p p' = dispatched c R := by
  rw [newFrames, hlog, dispatched_append, List.drop_left]

/-- The environment dispatches nothing. -/
theorem newFrames_env {e : Env} (hs : (turnSystem cfg).step p (.env e) = some p') (c : ConnId) :
    newFrames c p p' = [] := by
  have ⟨w, start, _, hp'⟩ := Machine.step_env.1 hs
  refine newFrames_eq (R := []) ?_ c
  rw [hp', Pool.afterEnv_log, List.append_nil]

/-- A step that handles a request which ends auto-inactivity leaves the session of its
user not auto-inactive. -/
theorem reactivated (h : (turnSystem cfg).Reaches Lts.Any p) {l : TurnLabel Tid Choice Env}
    (hs : (turnSystem cfg).step p l = some p') {s : SessionRef}
    (hframe : (newFrames (p.shared.mem.registeredOn s) p p').any (reactivating cfg) = true) :
    Memory.autoInactive (p'.shared.mem.heap s) = false := by
  refine Bool.eq_false_of_not_eq_true fun hauto => ?_
  cases l with
  | env e =>
    rw [newFrames_env hs] at hframe
    cases hframe
  | turn t chs =>
    cases t with
    | handler c =>
      have ⟨_, _, l, hlog, hnone⟩ := turn_autoInactive h hs hauto
      rw [newFrames_eq hlog, dispatched_turn] at hframe
      split at hframe
      · rename_i hc
        rw [hnone hc.symm] at hframe
        cases hframe
      · cases hframe
    | watchdog =>
      have ⟨R, hlog, hwatchdog, _⟩ := scan_autoInactive h hs hauto
      rw [newFrames_eq hlog, dispatched_watchdog hwatchdog] at hframe
      cases hframe

/-- A step that handles a LIST_USERS of a user leaves the statuses of the session. -/
theorem listed_statuses (h : (turnSystem cfg).Reaches Lts.Any p) {l : TurnLabel Tid Choice Env}
    (hs : (turnSystem cfg).step p l = some p') {s : SessionRef} {payload : Bytes}
    (hframe : newFrames (p.shared.mem.registeredOn s) p p' = [(MsgType.LIST_USERS, payload)]) :
    statuses (p'.shared.mem.heap s) = statuses (p.shared.mem.heap s) := by
  cases l with
  | env e =>
    rw [newFrames_env hs] at hframe
    cases hframe
  | turn t chs =>
    cases t with
    | watchdog =>
      have ⟨l, order, hlog, _⟩ := watchdog_turn h hs
      rw [newFrames_eq hlog, dispatched_scan] at hframe
      cases hframe
    | handler c =>
      have ⟨l, hlog, hcase⟩ := handler_turn h hs
      have hdispatched : dispatchedBy l = [(MsgType.LIST_USERS, payload)] := by
        rw [newFrames_eq hlog, dispatched_turn] at hframe
        split at hframe
        · exact hframe
        · cases hframe
      rcases hcase with ⟨_, hnone, _⟩ | ⟨fd, qs, _, _, hturn⟩
      · rw [hnone] at hdispatched
        cases hdispatched
      · cases hturn with
        | lost _ _ hnone | cleanup _ _ hnone =>
          rw [hnone] at hdispatched
          cases hdispatched
        | @handled m₁ msgType payload' hm hd hhandled =>
          rw [hd] at hdispatched
          have htype : msgType = MsgType.LIST_USERS :=
            congrArg Prod.fst (List.singleton_inj.1 hdispatched)
          exact (hhandled.listUsers_statuses htype s).trans (hm.statuses s)

/-- In every reachable state in which handlers and scans take their turns in one step,
a session that is auto-inactive has had no accepted MESSAGE_GENERAL, MESSAGE_DM or
CHANGE_STATUS of its user handled since the last scan that marked it: each of these
brings it back.  An accepted LIST_USERS resets the idle timer and leaves both statuses
as they are. -/
theorem auto_inactive_since (h : (turnSystem cfg).Reaches Lts.Any p) :
    (∀ s, Memory.autoInactive (p.shared.mem.heap s) = true →
      p.log.any (marks s) = true ∧
        ∀ f ∈ dispatched (p.shared.mem.registeredOn s) (sinceMarked s p.log),
          reactivating cfg f = false) ∧
    ∀ l p' s, (turnSystem cfg).step p l = some p' → s < p.shared.mem.nextRef →
      ((newFrames (p.shared.mem.registeredOn s) p p').any (reactivating cfg) = true →
        Memory.autoInactive (p'.shared.mem.heap s) = false) ∧
      ∀ payload, newFrames (p.shared.mem.registeredOn s) p p' = [(MsgType.LIST_USERS, payload)] →
        acceptable cfg (MsgType.LIST_USERS, payload) = true →
        statuses (p'.shared.mem.heap s) = statuses (p.shared.mem.heap s) ∧
          (p'.shared.mem.heap s).lastActivity = p.shared.mem.clock := by
  refine ⟨fun s hauto => ?_, fun l p' s hs hlt => ⟨reactivated h hs, fun payload hframe haccept => ?_⟩⟩
  · have ⟨hmarked, hnone⟩ := reachable_asleep h s hauto
    exact ⟨hmarked, fun f hf => Bool.eq_false_of_not_eq_true (List.any_eq_false.1 hnone f hf)⟩
  · refine ⟨listed_statuses h hs hframe, ?_⟩
    cases l with
    | env e =>
      rw [newFrames_env hs] at hframe
      cases hframe
    | turn t chs =>
      have htimed := (turn_timed h hs s).old hlt
      have hrequest : requestIn cfg (p.shared.mem.registeredOn s) p p' = true := by
        rw [requestIn, hframe, List.any_cons, haccept]
        rfl
      rw [hrequest] at htimed
      exact htimed

end Steps

/-- "a" is marked, and has sent a LIST_USERS and a MESSAGE_GENERAL. -/
def pendingTurns : List (TurnLabel Tid Choice Env) :=
  markedTurns ++ [.env (.tick 5), .env (.clientSend 0 [5, 0, 0, 0, 0]),
    .env (.clientSend 0 [2, 0, 0, 0, 4, 10, 2, 104, 105])]

/-- "a" is marked, stays auto-inactive when its LIST_USERS is handled, and comes back with
its message. -/
theorem auto_inactive_since_marked :
    ∃ p q r, (turnSystem sampleConfig).Reaches Lts.Any p ∧
      (turnSystem sampleConfig).step p (wholeTurn (.handler 0) 7 [4]) = some q ∧
      (turnSystem sampleConfig).step q (wholeTurn (.handler 0) 11 [4]) = some r ∧
      Memory.autoInactive (p.shared.mem.heap 0) = true ∧ p.log.any (marks 0) = true ∧
      newFrames 0 p q = [(MsgType.LIST_USERS, [])] ∧
      Memory.autoInactive (q.shared.mem.heap 0) = true ∧
      (p.shared.mem.heap 0).lastActivity ≠ p.shared.mem.clock ∧
      (q.shared.mem.heap 0).lastActivity = p.shared.mem.clock ∧
      newFrames 0 q r = [(MsgType.MESSAGE_GENERAL, [10, 2, 104, 105])] ∧
      Memory.autoInactive (r.shared.mem.heap 0) = false := by
  have ⟨p, hp, hrun⟩ := Lts.exists_reaches_of_run (L := turnSystem sampleConfig) pendingTurns
    (fun p => decide (Memory.autoInactive (p.shared.mem.heap 0) = true ∧
      p.shared.mem.registeredOn 0 = 0 ∧ 0 < p.shared.mem.nextRef ∧
      (p.shared.mem.heap 0).lastActivity ≠ p.shared.mem.clock) &&
      ((turnSystem sampleConfig).step p (wholeTurn (.handler 0) 7 [4])).any fun q =>
        decide (newFrames 0 p q = [(MsgType.LIST_USERS, [])] ∧
          q.shared.mem.registeredOn 0 = 0 ∧ 0 < q.shared.mem.nextRef) &&
        ((turnSystem sampleConfig).step q (wholeTurn (.handler 0) 11 [4])).any fun r =>
          decide (newFrames 0 q r = [(MsgType.MESSAGE_GENERAL, [10, 2, 104, 105])]))
    (by decide +kernel)
  simp only [Bool.and_eq_true, decide_eq_true_eq, Option.any_eq_true] at hrun
  obtain ⟨⟨hauto, hconn, hlt, hold⟩, q, hq, ⟨hlist, hconn', hlt'⟩, r, hr, hgeneral⟩ := hrun
  obtain ⟨hasleep, hnext⟩ := auto_inactive_since hp
  obtain ⟨-, hlisted⟩ := hnext _ q 0 hq hlt
  rw [hconn] at hlisted
  obtain ⟨hsame, htouched⟩ := hlisted [] hlist rfl
  obtain ⟨-, hnext'⟩ := auto_inactive_since (hp.tail trivial hq)
  obtain ⟨hback, -⟩ := hnext' _ r 0 hr hlt'
  rw [hconn', hgeneral] at hback
  have hstill := (autoInactive_congr hsame).trans hauto
  exact ⟨p, q, r, hp, hq, hr, hauto, (hasleep 0 hauto).1, hlist, hstill, hold, htouched, hgeneral,
    hback rfl⟩

/-- "a" is marked, asks for the list of users, and stays auto-inactive. -/
theorem listed_stays_auto_inactive :
    ∃ p, (turnSystem sampleConfig).Reaches Lts.Any p ∧
      Memory.autoInactive (p.shared.mem.heap 0) = true ∧
      ∃ f ∈ dispatched (p.shared.mem.registeredOn 0) (sinceMarked 0 p.log),
        acceptable sampleConfig f = true := by
  have ⟨p, hp, hrun⟩ := Lts.exists_reaches_of_run (L := turnSystem sampleConfig)
    (markedTurns ++ [.env (.clientSend 0 [5, 0, 0, 0, 0]), wholeTurn (.handler 0) 7 [4]])
    (fun p => Memory.autoInactive (p.shared.mem.heap 0) &&
      (dispatched (p.shared.mem.registeredOn 0) (sinceMarked 0 p.log)).any
        (acceptable sampleConfig)) (by decide +kernel)
  rw [Bool.and_eq_true, List.any_eq_true] at hrun
  exact ⟨p, hp, hrun.1, hrun.2⟩

end SimpleChat
