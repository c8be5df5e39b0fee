import SimpleChat.HandlerTurns
import SimpleChat.StatusNotices

/-!
# The status of a session and its notifications

A session is marked inactive by the server when its status is `INVISIBLE` and
its manual status is not.  Nothing stores this mark.  `StatusHistory` ties it to
the notifications that were written through the session: the mark is there
exactly when the last of them is a 602.

`StatusMove` is everything that one turn of a thread does to the two fields of a
session and to its notifications.  The invariant follows from it alone, and the
order of the notifications from the invariant (`status_history`).
-/

namespace SimpleChat

open Conc Function

/-! ## Notifications -/

/-- A status notification: a 201 with the status that its text names, a 602 or a
603. -/
inductive StatusEvent where
  | changed (st : Option StatusEnum)
  | autoInactive
  | restored
  deriving DecidableEq

def statusEvent : ServerMsg → Option StatusEvent
  | .serverResponse m =>
    if m.statusCode = StatusCode.OK_STATUS_CHANGED then some (.changed (namedStatus m.message))
    else if m.statusCode = StatusCode.AUTO_INACTIVE then some .autoInactive
    else if m.statusCode = StatusCode.STATUS_RESTORED then some .restored
    else none
  | _ => none

/-- The notifications among some frames that go through session `s`. -/
def eventsIn (s : SessionRef) (ws : List Written) : List StatusEvent :=
  ws.filterMap fun x => if x.via = some s then statusEvent x.msg else none

/-- The notifications that were written through session `s`. -/
def statusEvents (s : SessionRef) (log : List (Event Server Tid)) : List StatusEvent :=
  eventsIn s (writtenBy (log.map fun e => ⟨e.op, e.resp⟩))

theorem eventsIn_append (s : SessionRef) (ws ws' : List Written) :
    eventsIn s (ws ++ ws') = eventsIn s ws ++ eventsIn s ws' := List.filterMap_append

/-- The notifications of a turn come after the earlier ones. -/
theorem statusEvents_turn (s : SessionRef) (log : List (Event Server Tid)) (t : Tid)
    (l : List (Prog.Act Server)) :
    statusEvents s (log ++ l.map fun a => ⟨t, a.1, a.2⟩) =
      statusEvents s log ++ eventsIn s (writtenBy l) := by
  unfold statusEvents
  rw [List.map_append, writtenBy_append, eventsIn_append, List.map_map]
  congr 3
  exact List.map_id l

theorem statusEvent_response {code : Int} {text : String} {b : Bool}
    (h201 : code ≠ StatusCode.OK_STATUS_CHANGED) (h602 : code ≠ StatusCode.AUTO_INACTIVE)
    (h603 : code ≠ StatusCode.STATUS_RESTORED) : statusEvent (response code text b) = none := by
  simp [statusEvent, response, h201, h602, h603]

/-- The 201 of `handle_change_status`. -/
theorem statusEvent_changed {st : StatusEnum} (h : validStatus st = true) (b : Bool) :
    statusEvent (response StatusCode.OK_STATUS_CHANGED
      ("Status changed to " ++ statusToDisplay st) b) = some (.changed (some st)) := by
  cases st with
  | ACTIVE => rfl
  | DO_NOT_DISTURB => rfl
  | INVISIBLE => rfl
  | unrecognized value hv => simp [validStatus] at h

/-! ## The order of notifications -/

/-- The notification `e` may come after `last`. -/
def MayFollow (last : Option StatusEvent) : StatusEvent → Prop
  | .changed _ => True
  | .autoInactive => last ≠ some .autoInactive ∧ last ≠ some (.changed (some .INVISIBLE))
  | .restored => last = some .autoInactive

/-- Every notification may come after the one before it. -/
def InTurn (evs : List StatusEvent) : Prop :=
  ∀ L e R, evs = L ++ e :: R → MayFollow L.getLast? e

theorem InTurn.nil : InTurn [] := by
  intro L e R h
  simp at h

theorem InTurn.snoc {evs : List StatusEvent} {e : StatusEvent} (h : InTurn evs)
    (he : MayFollow evs.getLast? e) : InTurn (evs ++ [e]) := by
  intro L e' R heq
  rcases List.eq_nil_or_concat R with hR | ⟨R', x, hR⟩
  · rw [hR] at heq
    have ⟨hL, hx⟩ := List.append_inj' heq rfl
    rw [← hL, ← List.singleton_inj.1 hx]
    exact he
  · rw [hR, List.concat_eq_append, ← List.cons_append, ← List.append_assoc] at heq
    exact h L e' R' (List.append_inj' heq rfl).1

/-- Between two 602 there is a 201 or a 603. -/
theorem InTurn.between {evs L M R : List StatusEvent} (h : InTurn evs)
    (heq : evs = L ++ .autoInactive :: (M ++ .autoInactive :: R)) :
    ∃ e ∈ M, e = .restored ∨ ∃ st, e = .changed st := by
  have hsplit : evs = (L ++ .autoInactive :: M) ++ .autoInactive :: R := by
    rw [heq, List.append_assoc, List.cons_append]
  have hlast := (h _ _ _ hsplit).1
  rcases List.eq_nil_or_concat M with hM | ⟨M', e, hM⟩
  · rw [hM] at hlast
    simp at hlast
  · rw [List.concat_eq_append] at hM
    refine ⟨e, by simp [hM], ?_⟩
    cases e with
    | changed st => exact Or.inr ⟨st, rfl⟩
    | restored => exact Or.inl rfl
    | autoInactive =>
      rw [hM, ← List.cons_append, ← List.append_assoc, List.getLast?_concat] at hlast
      exact absurd rfl hlast

/-- After a 201 for `INVISIBLE` there is no 602 and no 603 before a 201 for
another status. -/
theorem InTurn.after_invisible {evs L M : List StatusEvent} (h : InTurn evs)
    (heq : evs = L ++ .changed (some .INVISIBLE) :: M)
    (hM : ∀ st, .changed st ∈ M → st = some .INVISIBLE) :
    .autoInactive ∉ M ∧ .restored ∉ M := by
  induction M generalizing L with
  | nil => exact ⟨fun hm => (nomatch hm), fun hm => (nomatch hm)⟩
  | cons e M ih =>
    have hsplit : evs = (L ++ [.changed (some .INVISIBLE)]) ++ e :: M := by
      rw [heq, List.append_assoc, List.singleton_append]
    have hfollow := h _ _ _ hsplit
    rw [List.getLast?_concat] at hfollow
    cases e with
    | autoInactive => exact absurd rfl hfollow.2
    | restored => cases hfollow
    | changed st =>
      have hst := hM st List.mem_cons_self
      subst hst
      have hrest := ih hsplit fun st' hst' => hM st' (List.mem_cons_of_mem _ hst')
      exact ⟨by simpa using hrest.1, by simpa using hrest.2⟩

/-! ## The invariant of one session -/

/-- The status and the manual status of a session. -/
def statuses (i : SessionInfo) : StatusEnum × StatusEnum := (i.status, i.manualStatus)

/-- Everything that one turn does to the two statuses of a session, and the
notifications that it writes. -/
inductive StatusMove : StatusEnum × StatusEnum → StatusEnum × StatusEnum → List StatusEvent → Prop
  | stay (v : StatusEnum × StatusEnum) : StatusMove v v []
  | change (v : StatusEnum × StatusEnum) (st : StatusEnum) :
    StatusMove v (st, st) [.changed (some st)]
  | restore {manual : StatusEnum} (h : manual ≠ .INVISIBLE) :
    StatusMove (.INVISIBLE, manual) (.ACTIVE, .ACTIVE) [.restored]
  | mark {status manual : StatusEnum} (h : status ≠ .INVISIBLE) :
    StatusMove (status, manual) (.INVISIBLE, manual) [.autoInactive]

/-- The two statuses of a session, and the notifications that were written
through it. -/
structure StatusHistory (v : StatusEnum × StatusEnum) (evs : List StatusEvent) : Prop where
  inTurn : InTurn evs
  marked : evs.getLast? = some .autoInactive → v.1 = .INVISIBLE ∧ v.2 ≠ .INVISIBLE
  settled : evs.getLast? ≠ some .autoInactive → v.1 = v.2
  chosen : ∀ st, evs.getLast? = some (.changed (some st)) → v.1 = st

theorem StatusHistory.start : StatusHistory (.ACTIVE, .ACTIVE) [] :=
  ⟨.nil, fun h => (nomatch h), fun _ => rfl, fun _ h => (nomatch h)⟩

/-- One turn keeps the invariant. -/
theorem StatusHistory.move {v v' : StatusEnum × StatusEnum} {evs new : List StatusEvent}
    (h : StatusHistory v evs) (hmove : StatusMove v v' new) : StatusHistory v' (evs ++ new) := by
  cases hmove with
  | stay =>
    rw [List.append_nil]
    exact h
  | change _ st =>
    refine ⟨h.inTurn.snoc trivial, ?_, fun _ => rfl, ?_⟩
    · intro hlast
      simp at hlast
    · intro st' hlast
      simpa using hlast
  | restore hmanual =>
    have hlast : evs.getLast? = some .autoInactive := by
      by_contra hne
      exact hmanual (h.settled hne).symm
    refine ⟨h.inTurn.snoc hlast, ?_, fun _ => rfl, ?_⟩
    · intro hlast
      simp at hlast
    · intro st hlast
      simp at hlast
  | @mark status manual hstatus =>
    have hne : evs.getLast? ≠ some .autoInactive := fun hlast => hstatus (h.marked hlast).1
    have hsame : status = manual := h.settled hne
    refine ⟨h.inTurn.snoc ⟨hne, fun hlast => hstatus (h.chosen _ hlast)⟩, ?_, ?_, ?_⟩
    · exact fun _ => ⟨rfl, fun hmanual => hstatus (hsame.trans hmanual)⟩
    · intro hlast
      simp at hlast
    · intro st hlast
      simp at hlast

/-! ## What the operations do to the statuses -/

namespace Memory

variable (m : Memory)

/-- The sessions that do not exist yet are as good as new. -/
def Fresh : Prop := ∀ s, m.nextRef ≤ s → statuses (m.heap s) = (.ACTIVE, .ACTIVE)

theorem statuses_modify (t s : SessionRef) (f : SessionInfo → SessionInfo) :
    statuses ((m.modify t f).heap s) =
      if t = s then statuses (f (m.heap t)) else statuses (m.heap s) := by
  by_cases hts : t = s
  · subst hts
    simp [modify]
  · simp [modify, hts, Ne.symm hts]

theorem statuses_touch (t s : SessionRef) :
    statuses ((m.touch t).heap s) = statuses (m.heap s) := by
  rw [touch, statuses_modify]
  split
  · rename_i hts
    rw [hts]
    rfl
  · rfl

theorem statuses_setStatus (t s : SessionRef) (st : StatusEnum) :
    statuses ((m.setStatus t st).heap s) = if t = s then (st, st) else statuses (m.heap s) := by
  rw [setStatus, statuses_modify]
  rfl

theorem statuses_active (t s : SessionRef) :
    statuses ((m.active t).heap s) =
      if t = s ∧ autoInactive (m.heap t) = true then (.ACTIVE, .ACTIVE)
      else statuses (m.heap s) := by
  rw [active, statuses_touch, restore]
  by_cases hauto : autoInactive (m.heap t) = true
  · rw [if_pos hauto]
    simp only [statuses_modify, hauto, and_true]
    rfl
  · rw [if_neg hauto, if_neg fun h => hauto h.2]

theorem statuses_removeSession (fd : Fd) (s : SessionRef) :
    statuses ((m.removeSession fd).heap s) = statuses (m.heap s) := by
  rw [removeSession_heap]
  split <;> rfl

/-- A new session is as good as new. -/
theorem statuses_register (hfresh : m.Fresh) (c : ConnId) (fd : Fd) (u a : String)
    (s : SessionRef) :
    statuses ((m.register c fd u a).2.heap s) = statuses (m.heap s) := by
  rcases register_cases_created m c fd u a with ⟨_, he⟩ | ⟨_, _, _, he⟩
  · rw [he]
  · rw [he]
    by_cases hs : s = m.nextRef
    · subst hs
      rw [hfresh _ (Nat.le_refl _)]
      simp [statuses]
    · simp [hs]

theorem Received.statuses {m m' : Memory} (h : m.Received m') (s : SessionRef) :
    statuses (m'.heap s) = statuses (m.heap s) := by
  rw [h.eq]

end Memory

/-- One turn moves the statuses of session `s`, and touches no session that did
not exist before. -/
structure Moved (m : Memory) (ws : List Written) (m' : Memory) (s : SessionRef) : Prop where
  move : StatusMove (statuses (m.heap s)) (statuses (m'.heap s)) (eventsIn s ws)
  fresh : m.nextRef ≤ s → statuses (m'.heap s) = statuses (m.heap s)

section Moved

variable {m m' : Memory} {ws : List Written} {s t : SessionRef}

/-- A turn that changes no status and writes no notification. -/
theorem Moved.stay (hs : statuses (m'.heap s) = statuses (m.heap s)) (hws : eventsIn s ws = []) :
    Moved m ws m' s := by
  refine ⟨?_, fun _ => hs⟩
  rw [hs, hws]
  exact .stay _

/-- A reply that is no notification. -/
theorem eventsIn_reply {code : Int} {text : String} {b : Bool}
    (h201 : code ≠ StatusCode.OK_STATUS_CHANGED) (h602 : code ≠ StatusCode.AUTO_INACTIVE)
    (h603 : code ≠ StatusCode.STATUS_RESTORED) (via : Option SessionRef) :
    eventsIn s [⟨via, response code text b⟩] = [] := by
  simp [eventsIn, statusEvent_response h201 h602 h603]

/-- A frame that is no response. -/
theorem eventsIn_other {msg : ServerMsg} (h : statusEvent msg = none) (via : Option SessionRef) :
    eventsIn s [⟨via, msg⟩] = [] := by
  simp [eventsIn, h]

/-- A frame through each of some sessions that is no notification. -/
theorem eventsIn_map {msg : ServerMsg} (h : statusEvent msg = none) (targets : List SessionRef) :
    eventsIn s (targets.map fun t => ⟨some t, msg⟩) = [] := by
  unfold eventsIn
  rw [List.filterMap_map]
  exact List.filterMap_eq_nil_iff.2 fun t _ => by simp [h]

theorem statusEvent_registerReply (u a : String) (r : Memory.RegisterOutcome) :
    statusEvent (registerReply u a r).2 = none := by
  cases r with
  | alreadyRegistered t => exact statusEvent_response (by decide) (by decide) (by decide)
  | usernameTaken => exact statusEvent_response (by decide) (by decide) (by decide)
  | ipTaken => exact statusEvent_response (by decide) (by decide) (by decide)
  | registered t => exact statusEvent_response (by decide) (by decide) (by decide)

/-- A request that counts as activity, with the frames that follow the 603. -/
theorem Moved.active (ht : t < m.nextRef) (hws : eventsIn s ws = []) :
    Moved m (m.restoredNotice t ++ ws) (m.active t) s := by
  have hevents : eventsIn s (m.restoredNotice t ++ ws) =
      if t = s ∧ Memory.autoInactive (m.heap t) = true then [.restored] else [] := by
    rw [eventsIn_append, hws, List.append_nil, Memory.restoredNotice]
    by_cases hauto : Memory.autoInactive (m.heap t) = true
    · by_cases hts : t = s
      · subst hts
        simp [hauto, eventsIn, statusEvent, response, StatusCode.OK_STATUS_CHANGED,
          StatusCode.AUTO_INACTIVE, StatusCode.STATUS_RESTORED]
      · simp [hauto, eventsIn, hts]
    · rw [if_neg hauto, if_neg fun h => hauto h.2]
      rfl
  have hstatuses := m.statuses_active t s
  by_cases h : t = s ∧ Memory.autoInactive (m.heap t) = true
  · rw [if_pos h] at hevents hstatuses
    obtain ⟨hts, hauto⟩ := h
    subst hts
    refine ⟨?_, fun hle => absurd ht (Nat.not_lt.2 hle)⟩
    rw [hevents, hstatuses]
    simp only [Memory.autoInactive, Bool.and_eq_true, beq_iff_eq, bne_iff_ne] at hauto
    rw [statuses, hauto.1]
    exact .restore hauto.2
  · rw [if_neg h] at hevents hstatuses
    exact .stay hstatuses hevents

/-- Everything that a handler execution does to the status of a session. -/
theorem Handled.moved {cfg : Config} {c : ConnId} {fd : Fd} {payload : Bytes} {msgType : UInt8}
    (h : Handled cfg c fd payload m msgType ws m') (hcons : m.Consistent) (hfresh : m.Fresh)
    (s : SessionRef) : Moved m ws m' s := by
  have hlt : ∀ {t}, m.getSession fd = some t → t < m.nextRef := fun ht => hcons.allocated fd _ ht
  cases h with
  | unknown | registerMalformed | registerEmpty | notRegistered | malformed | invalidStatus | quit =>
    exact .stay rfl (eventsIn_reply (by decide) (by decide) (by decide) _)
  | register peerIp =>
    exact .stay (m.statuses_register hfresh _ _ _ _ s)
      (eventsIn_other (statusEvent_registerReply _ _ _) _)
  | general hs => exact .active (hlt hs) (eventsIn_map rfl _)
  | dmNotFound hs =>
    exact .active (hlt hs) (eventsIn_reply (by decide) (by decide) (by decide) _)
  | @dm msg _ d hs =>
    refine .active (hlt hs) ?_
    rw [eventsIn_append, Written.reply, eventsIn_reply (by decide) (by decide) (by decide),
      List.append_nil]
    split
    · exact eventsIn_other rfl _
    · rfl
  | @changeStatus cs t hs hparse hvalid =>
    have hstatuses : statuses (((m.setStatus t cs.status).touch t).heap s) = _ :=
      ((m.setStatus t cs.status).statuses_touch t s).trans (m.statuses_setStatus t s cs.status)
    by_cases hts : t = s
    · subst hts
      rw [if_pos rfl] at hstatuses
      have hevents : eventsIn t [Written.reply t StatusCode.OK_STATUS_CHANGED
          ("Status changed to " ++ statusToDisplay cs.status) true] =
          [.changed (some cs.status)] := by
        simp [eventsIn, Written.reply, statusEvent_changed hvalid]
      refine ⟨?_, fun hle => absurd (hlt hs) (Nat.not_lt.2 hle)⟩
      rw [hstatuses, hevents]
      exact .change _ _
    · rw [if_neg hts] at hstatuses
      refine .stay hstatuses ?_
      simp [eventsIn, Written.reply, hts]
  | listUsers => exact .stay (m.statuses_touch _ s) (eventsIn_other rfl _)
  | userNotFound =>
    exact .stay (m.statuses_touch _ s) (eventsIn_reply (by decide) (by decide) (by decide) _)
  | userInfo => exact .stay (m.statuses_touch _ s) (eventsIn_other rfl _)
  | quitSilent => exact .stay rfl rfl

/-- The 602 that go through a session, among those of a scan. -/
theorem eventsIn_notices (cfg : Config) (l : List SessionRef) :
    eventsIn s (l.map fun t => ⟨some t, autoInactiveNotice cfg⟩) =
      List.replicate (l.count s) .autoInactive := by
  induction l with
  | nil => rfl
  | cons t l ih =>
    have hnotice : statusEvent (autoInactiveNotice cfg) = some .autoInactive := rfl
    rw [List.map_cons, eventsIn, List.filterMap_cons]
    by_cases hts : t = s
    · subst hts
      rw [List.count_cons_self, List.replicate_succ, ← ih]
      simp [hnotice, eventsIn]
    · rw [List.count_cons_of_ne hts, ← ih]
      simp [hts, eventsIn]

/-- Everything that a scan does to the status of a session. -/
theorem Scan.moved {cfg : Config} {l : List (Prog.Act Server)} {order : List Fd}
    (h : Scan cfg m l m' order) (hcons : m.Consistent) (s : SessionRef) :
    Moved m (writtenBy l) m' s := by
  have ⟨hnodup, hmem⟩ := hcons.visited h.iterates
  have hmarked : (Memory.markIdle cfg.idleTimeoutSec m.clock (m.visited order) m).1 = _ :=
    Memory.markIdle_marked hnodup
  have hheap : (Memory.markIdle cfg.idleTimeoutSec m.clock (m.visited order) m).2.heap s = _ :=
    Memory.markIdle_heap s
  rw [h.mem, h.written]
  by_cases hs : s ∈ (Memory.markIdle cfg.idleTimeoutSec m.clock (m.visited order) m).1
  · rw [if_pos hs] at hheap
    rw [hmarked, List.mem_filter] at hs
    have ⟨hvisited, hidle⟩ := hs
    have ⟨fd, hfd⟩ := (hmem s).1 hvisited
    have hstatus : (m.heap s).status ≠ .INVISIBLE := by
      simp only [Memory.isIdle, Bool.and_eq_true, bne_iff_ne] at hidle
      exact hidle.1.2
    refine ⟨?_, fun hle => absurd (hcons.allocated fd s hfd) (Nat.not_lt.2 hle)⟩
    have hcount : (Memory.markIdle cfg.idleTimeoutSec m.clock (m.visited order) m).1.count s = 1 := by
      rw [hmarked]
      exact List.count_eq_one_of_mem (hnodup.filter _) (List.mem_filter.2 ⟨hvisited, hidle⟩)
    rw [eventsIn_notices, hcount, hheap]
    exact .mark hstatus
  · rw [if_neg hs] at hheap
    refine .stay (by rw [hheap]) ?_
    rw [eventsIn_notices, List.count_eq_zero.2 hs]
    rfl

/-- Everything that a turn of a handler does to the status of a session. -/
theorem HandlerTurn.moved {cfg : Config} {c : ConnId} {fd : Fd} {l : List (Prog.Act Server)}
    (h : HandlerTurn cfg c fd m l m') (hcons : m.Consistent) (hfresh : m.Fresh) (s : SessionRef) :
    Moved m (writtenBy l) m' s := by
  cases h with
  | lost hm hwritten =>
    refine .stay (hm.statuses s) ?_
    rw [hwritten]
    rfl
  | cleanup hm hwritten =>
    refine .stay ?_ ?_
    · rw [hm]
      exact m.statuses_removeSession fd s
    · rw [hwritten]
      rfl
  | @handled m₁ msgType payload hm _ h =>
    have hfresh₁ : m₁.Fresh := by
      intro t ht
      rw [hm.frame.nextRef] at ht
      rw [hm.statuses]
      exact hfresh t ht
    have hmoved := h.moved (hcons.frame hm.frame) hfresh₁ s
    refine ⟨?_, fun hle => ?_⟩
    · rw [← hm.statuses]
      exact hmoved.move
    · rw [← hm.statuses]
      exact hmoved.fresh (hm.frame.nextRef.le.trans hle)

end Moved

/-! ## Every run -/

variable {cfg : Config}

/-- What every turn keeps. -/
structure Histories (p : State) : Prop where
  history : ∀ s, StatusHistory (statuses (p.shared.mem.heap s)) (statusEvents s p.log)
  fresh : p.shared.mem.Fresh

/-- A turn that moves the statuses keeps the invariant. -/
theorem Histories.turn {p p' : State} {t : Tid} {l : List (Prog.Act Server)} (h : Histories p)
    (hlog : p'.log = p.log ++ l.map fun a => ⟨t, a.1, a.2⟩)
    (hlater : p.shared.mem.nextRef ≤ p'.shared.mem.nextRef)
    (hmoved : ∀ s, Moved p.shared.mem (writtenBy l) p'.shared.mem s) : Histories p' := by
  refine ⟨fun s => ?_, fun s hs => ?_⟩
  · rw [hlog, statusEvents_turn]
    exact (h.history s).move (hmoved s).move
  · have hle := hlater.trans hs
    exact ((hmoved s).fresh hle).trans (h.fresh s hle)

theorem reachable_histories {p : State} (h : (turnSystem cfg).Reaches Lts.Any p) : Histories p := by
  refine h.invariant ⟨fun _ => .start, fun _ _ => rfl⟩ ?_
  intro q l q' hq hI _ hs
  have ⟨_, hown⟩ := reachable_owned (reaches_system hq)
  have hcons := hown.2.1.consistent
  have hlater : q.shared.mem.nextRef ≤ q'.shared.mem.nextRef :=
    (steps_later (Machine.turnStep_steps hs)).nextRef
  cases l with
  | turn t chs =>
    cases t with
    | watchdog =>
      have ⟨l, order, hlog, hscan⟩ := watchdog_turn hq hs
      exact hI.turn hlog hlater (hscan.moved hcons)
    | handler c =>
      have ⟨l, hlog, hcase⟩ := handler_turn hq hs
      refine hI.turn hlog hlater fun s => ?_
      rcases hcase with ⟨hwritten, _, hm⟩ | ⟨fd, qs, _, _, hturn⟩
      · rw [hm, hwritten]
        exact .stay rfl rfl
      · exact hturn.moved hcons hI.fresh s
  | env e =>
    have ⟨w, start, he, hq'⟩ := Machine.step_env.1 hs
    subst hq'
    have ⟨hheap, href, _⟩ := World.env_sessions he
    refine ⟨fun s => ?_, fun s hs => ?_⟩
    · rw [Pool.afterEnv_log, Pool.afterEnv_shared, hheap]
      exact hI.history s
    · rw [Pool.afterEnv_shared, hheap]
      rw [Pool.afterEnv_shared, href] at hs
      exact hI.fresh s hs

/-- In a run in which handlers and scans take their turns in one step, a session
has its manual status, or it is marked: its status is `INVISIBLE`, its manual
status is not, and the last notification was a 602.  Between two 602 there is a
201 or a 603, a 603 follows a 602, and after a 201 for `INVISIBLE` there is
neither until the user picks another status. -/
theorem status_history {p : State} (h : (turnSystem cfg).Reaches Lts.Any p) (s : SessionRef) :
    let status := (p.shared.mem.heap s).status
    let manual := (p.shared.mem.heap s).manualStatus
    let evs := statusEvents s p.log
    (status = manual ∨ status = .INVISIBLE ∧ manual ≠ .INVISIBLE) ∧
      (status = .INVISIBLE ∧ manual ≠ .INVISIBLE ↔ evs.getLast? = some .autoInactive) ∧
      (∀ L M R, evs = L ++ .autoInactive :: (M ++ .autoInactive :: R) →
        ∃ e ∈ M, e = .restored ∨ ∃ st, e = .changed st) ∧
      (∀ L R, evs = L ++ .restored :: R → L.getLast? = some .autoInactive) ∧
      ∀ L M, evs = L ++ .changed (some .INVISIBLE) :: M →
        (∀ st, .changed st ∈ M → st = some .INVISIBLE) → .autoInactive ∉ M ∧ .restored ∉ M := by
  have hhistory := (reachable_histories h).history s
  have hmarked : (statusEvents s p.log).getLast? = some .autoInactive ↔
      (p.shared.mem.heap s).status = .INVISIBLE ∧ (p.shared.mem.heap s).manualStatus ≠ .INVISIBLE := by
    refine ⟨hhistory.marked, fun ⟨hstatus, hmanual⟩ => ?_⟩
    by_contra hne
    exact hmanual ((hhistory.settled hne).symm.trans hstatus)
  refine ⟨?_, hmarked.symm, fun L M R heq => hhistory.inTurn.between heq,
    fun L R heq => hhistory.inTurn L _ R heq, fun L M heq => hhistory.inTurn.after_invisible heq⟩
  by_cases hlast : (statusEvents s p.log).getLast? = some .autoInactive
  · exact Or.inr (hmarked.1 hlast)
  · exact Or.inl (hhistory.settled hlast)

/-- A turn of thread `t` that performs `n` operations. -/
def wholeTurn (t : Tid) (n : Nat) (order : List Fd) : TurnLabel Tid Choice Env :=
  .turn t (List.replicate n { want := 100, order := order })

/-- "a" registers, and the watchdog marks its session after 180 seconds. -/
def markedTurns : List (TurnLabel Tid Choice Env) :=
  [.env (.accept 4 "10.0.0.1"), .env (.clientSend 0 [1, 0, 0, 0, 3, 10, 1, 97]),
    wholeTurn (.handler 0) 6 [], .env (.tick 180000000000), wholeTurn .watchdog 5 [4]]

/-- The session of "a" was sent a 602, and it is marked. -/
theorem status_history_marked :
    ∃ p, (turnSystem sampleConfig).Reaches Lts.Any p ∧ statusEvents 0 p.log = [.autoInactive] ∧
      (p.shared.mem.heap 0).status = .INVISIBLE ∧
      (p.shared.mem.heap 0).manualStatus ≠ .INVISIBLE := by
  have ⟨p, hp, hrun⟩ := Lts.exists_reaches_of_run (L := turnSystem sampleConfig) markedTurns
    (fun p => decide (statusEvents 0 p.log = [.autoInactive])) (by decide +kernel)
  have hevs := of_decide_eq_true hrun
  refine ⟨p, hp, hevs, (status_history hp 0).2.1.2 ?_⟩
  rw [hevs]
  rfl

end SimpleChat
