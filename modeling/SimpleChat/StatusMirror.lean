import SimpleChat.MainWindow
import SimpleChat.StatusHistory

/-!
# Whether the window shows the status

The reply 201 names no status, so the window takes the one that `statusCombo_`
shows when the reply arrives.  And `onChangeStatus` sends nothing if the entry is
the status that the window still has.  So the window and the server can part
while something is in flight.

`Joined.settled` is the status that the server comes to, and `Joined.shownLast`
what the window is told last, once everything in flight is delivered.  They agree
in the runs whose picks and markings meet `RacesSettled`, and then the window
shows the status whenever nothing is in flight (`status_mirrored`).
-/

namespace SimpleChat

open Conc Function

/-! ## Frames on their way to the server -/

section ToServer

variable (cfg : Config)

/-- The status that a frame sets, if it is a CHANGE_STATUS that the server accepts. -/
def asks (f : UInt8 × Bytes) : Option StatusEnum :=
  if f.1 = MsgType.CHANGE_STATUS then
    ((cfg.pb.parseChangeStatus f.2).map ChangeStatus.status).filter validStatus
  else none

/-- The frame is a general or direct message that the server can read. -/
def isMessage (f : UInt8 × Bytes) : Bool :=
  decide (f.1 = MsgType.MESSAGE_GENERAL) && (cfg.pb.parseMessageGeneral f.2).isSome ||
    decide (f.1 = MsgType.MESSAGE_DM) && (cfg.pb.parseMessageDM f.2).isSome

/-- The status that the last CHANGE_STATUS asks for. -/
def lastAsked (q : List (UInt8 × Bytes)) : Option StatusEnum := (q.filterMap (asks cfg)).getLast?

/-- There is a message before the first CHANGE_STATUS. -/
def messageFirst : List (UInt8 × Bytes) → Bool
  | [] => false
  | f :: q => (asks cfg f).isNone && (isMessage cfg f || messageFirst q)

variable {cfg} {f : UInt8 × Bytes} {q : List (UInt8 × Bytes)}

theorem getLast?_filterMap_cons {α β : Type} (g : α → Option β) (x : α) (l : List α) :
    ((x :: l).filterMap g).getLast? = ((l.filterMap g).getLast?).or (g x) := by
  cases hx : g x with
  | none => simp [hx]
  | some y =>
    rw [List.filterMap_cons_some hx, List.getLast?_cons]
    cases (l.filterMap g).getLast? <;> rfl

theorem getLast?_filterMap_concat {α β : Type} (g : α → Option β) (x : α) (l : List α) :
    ((l ++ [x]).filterMap g).getLast? = (g x).or ((l.filterMap g).getLast?) := by
  cases hx : g x with
  | none => simp [hx]
  | some y => simp [hx]

theorem lastAsked_cons : lastAsked cfg (f :: q) = (lastAsked cfg q).or (asks cfg f) :=
  getLast?_filterMap_cons _ f q

theorem lastAsked_concat : lastAsked cfg (q ++ [f]) = (asks cfg f).or (lastAsked cfg q) :=
  getLast?_filterMap_concat _ f q

theorem messageFirst_concat : messageFirst cfg (q ++ [f]) =
    (messageFirst cfg q ||
      (lastAsked cfg q).isNone && ((asks cfg f).isNone && isMessage cfg f)) := by
  induction q with
  | nil => simp [messageFirst, lastAsked]
  | cons g q ih =>
    rw [List.cons_append, messageFirst, messageFirst, ih, lastAsked_cons]
    cases asks cfg g with
    | none => cases isMessage cfg g <;> simp
    | some v => simp

/-- A frame that is no message. -/
theorem isMessage_eq_false (h : f.1 ≠ MsgType.MESSAGE_GENERAL) (h' : f.1 ≠ MsgType.MESSAGE_DM) :
    isMessage cfg f = false := by
  simp [isMessage, h, h']

theorem validStatus_itemData : ∀ index, validStatus (itemData index) = true := by decide

theorem asks_eq_none (h : f.1 ≠ MsgType.CHANGE_STATUS) : asks cfg f = none := if_neg h

end ToServer

/-! ## Frames on their way to the client -/

/-- The status that a message makes the window show. -/
def shown : ServerMsg → Option StatusEnum
  | .serverResponse m =>
    if m.statusCode = StatusCode.AUTO_INACTIVE then some .INVISIBLE
    else if m.statusCode = StatusCode.STATUS_RESTORED then some .ACTIVE
    else none
  | _ => none

/-- The message changes `current_status_`. -/
def isNotice : ServerMsg → Bool
  | .serverResponse m => m.statusCode ∈
    [StatusCode.OK_STATUS_CHANGED, StatusCode.AUTO_INACTIVE, StatusCode.STATUS_RESTORED]
  | _ => false

/-- The status that the last message of those makes the window show. -/
def lastShown (r : List ServerMsg) : Option StatusEnum := (r.filterMap shown).getLast?

theorem shown_eq_none {msg : ServerMsg} (h : isNotice msg = false) : shown msg = none := by
  unfold isNotice at h
  split at h
  · simp at h
    simp [shown, h]
  · unfold shown
    split
    · simp_all
    · rfl

theorem filterMap_shown {r : List ServerMsg} (h : ∀ msg ∈ r, isNotice msg = false) :
    r.filterMap shown = [] :=
  List.filterMap_eq_nil_iff.2 fun msg hmsg => shown_eq_none (h msg hmsg)

/-- A reply that changes nothing in the window. -/
theorem isNotice_response {code : Int} {text : String} {b : Bool}
    (h : code ∉ [StatusCode.OK_STATUS_CHANGED, StatusCode.AUTO_INACTIVE,
      StatusCode.STATUS_RESTORED]) : isNotice (response code text b) = false := by
  simpa [isNotice, response] using h

namespace MainWindow

variable (w : MainWindow) (msg : ServerMsg)

theorem receive_selected : (w.receive msg).1.selected = (shown msg).getD w.selected := by
  cases msg with
  | serverResponse m =>
    show (w.onServerResponse m.statusCode).1.selected = (shown (.serverResponse m)).getD w.selected
    unfold onServerResponse shown
    by_cases hauto : m.statusCode = StatusCode.AUTO_INACTIVE
    · have hother : ¬(m.statusCode = StatusCode.OK_STATUS_CHANGED ∨
          m.statusCode = StatusCode.STATUS_RESTORED) := by
        rw [hauto]
        decide
      simp only [if_neg hother, if_pos hauto]
      rfl
    · by_cases hrestored : m.statusCode = StatusCode.STATUS_RESTORED
      · simp only [if_pos (Or.inr hrestored), if_neg hauto, if_pos hrestored]
        rfl
      · simp only [if_neg hauto, if_neg hrestored]
        split_ifs <;> rfl
  | _ => rfl

theorem receive_notice (h : isNotice msg = true) :
    (w.receive msg).1.currentStatus = (w.receive msg).1.selected := by
  cases msg with
  | serverResponse m =>
    show (w.onServerResponse m.statusCode).1.currentStatus =
      (w.onServerResponse m.statusCode).1.selected
    have hcode : m.statusCode = StatusCode.OK_STATUS_CHANGED ∨
        m.statusCode = StatusCode.AUTO_INACTIVE ∨ m.statusCode = StatusCode.STATUS_RESTORED := by
      simpa [isNotice] using h
    rcases hcode with hcode | hcode | hcode <;> rw [hcode] <;> rfl
  | _ => cases h

theorem receive_other (h : isNotice msg = false) : (w.receive msg).1 = w := by
  cases msg with
  | serverResponse m =>
    have hcode : m.statusCode ≠ StatusCode.OK_STATUS_CHANGED ∧
        m.statusCode ≠ StatusCode.AUTO_INACTIVE ∧ m.statusCode ≠ StatusCode.STATUS_RESTORED := by
      simpa [isNotice] using h
    show (w.onServerResponse m.statusCode).1 = w
    simp only [onServerResponse, hcode.1, hcode.2.1, hcode.2.2, or_self, if_false]
  | _ => rfl

theorem receive_user :
    (w.receive msg).1.username = w.username ∧ (w.receive msg).1.localIp = w.localIp := by
  cases msg with
  | serverResponse m =>
    show (w.onServerResponse m.statusCode).1.username = w.username ∧
      (w.onServerResponse m.statusCode).1.localIp = w.localIp
    unfold onServerResponse
    split_ifs <;> exact ⟨rfl, rfl⟩
  | _ => exact ⟨rfl, rfl⟩

/-! The messages of the slots other than `onChangeStatus` ask for no status. -/

theorem onRefreshUsers_sends : ∀ m ∈ w.onRefreshUsers, m.msgType ≠ MsgType.CHANGE_STATUS := by
  intro m hm
  rw [List.mem_singleton.1 hm]
  show MsgType.LIST_USERS ≠ MsgType.CHANGE_STATUS
  decide

theorem onSendClicked_sends (mode : Nat) (text target : String) :
    ∀ m ∈ w.onSendClicked mode text target, m.msgType ≠ MsgType.CHANGE_STATUS := by
  intro m hm
  unfold onSendClicked at hm
  split_ifs at hm
  · cases hm
  · rw [List.mem_singleton.1 hm]
    show MsgType.MESSAGE_GENERAL ≠ MsgType.CHANGE_STATUS
    decide
  · cases hm
  · rw [List.mem_singleton.1 hm]
    show MsgType.MESSAGE_DM ≠ MsgType.CHANGE_STATUS
    decide

theorem onShowUserInfo_sends (ok : Bool) (target : String) :
    ∀ m ∈ w.onShowUserInfo ok target, m.msgType ≠ MsgType.CHANGE_STATUS := by
  intro m hm
  unfold onShowUserInfo at hm
  split_ifs at hm
  · rw [List.mem_singleton.1 hm]
    show MsgType.GET_USER_INFO ≠ MsgType.CHANGE_STATUS
    decide
  · cases hm

theorem receive_sends : ∀ m ∈ (w.receive msg).2, m.msgType ≠ MsgType.CHANGE_STATUS := by
  have hnothing : ∀ m ∈ ([] : List ClientMsg), m.msgType ≠ MsgType.CHANGE_STATUS := by simp
  cases msg with
  | serverResponse m =>
    show ∀ m' ∈ (w.onServerResponse m.statusCode).2, m'.msgType ≠ MsgType.CHANGE_STATUS
    have hrefresh := w.onRefreshUsers_sends
    unfold onServerResponse
    split_ifs <;> assumption
  | _ => exact hnothing

end MainWindow

/-! ## What the server does with a frame -/

/-- Everything that the handler does to the two statuses of its session, and the
notices among the messages that it sends there. -/
inductive Served (cfg : Config) (f : UInt8 × Bytes) (m m' : Memory) (msgs : List ServerMsg) : Prop
  /-- It accepts a CHANGE_STATUS. -/
  | changed (st : StatusEnum) (hasks : asks cfg f = some st)
    (hstatus : statuses (m'.heap 0) = (st, st)) (hshown : msgs.filterMap shown = [])
    (hnotice : ∃ msg ∈ msgs, isNotice msg = true)
  /-- A message ends an inactivity that the watchdog has marked. -/
  | restored (hasks : asks cfg f = none) (hmessage : isMessage cfg f = true)
    (hauto : Memory.autoInactive (m.heap 0) = true)
    (hstatus : statuses (m'.heap 0) = (.ACTIVE, .ACTIVE))
    (hshown : msgs.filterMap shown = [.ACTIVE])
    (hnotice : ∃ msg ∈ msgs, isNotice msg = true)
  | same (hasks : asks cfg f = none)
    (hmessage : isMessage cfg f = true → Memory.autoInactive (m.heap 0) = false)
    (hstatus : statuses (m'.heap 0) = statuses (m.heap 0))
    (hnotice : ∀ msg ∈ msgs, isNotice msg = false)

section Served

variable {cfg : Config} {fd : Fd} {m m' : Memory} {l : List Written}

/-- A frame that is no message and no CHANGE_STATUS. -/
theorem served_other {msgType : UInt8} {payload : Bytes}
    (hgeneral : msgType ≠ MsgType.MESSAGE_GENERAL) (hdm : msgType ≠ MsgType.MESSAGE_DM)
    (hchange : msgType ≠ MsgType.CHANGE_STATUS)
    (hstatus : statuses (m'.heap 0) = statuses (m.heap 0))
    (hnotice : ∀ msg ∈ writtenTo 0 l, isNotice msg = false) :
    Served cfg (msgType, payload) m m' (writtenTo 0 l) := by
  refine .same (asks_eq_none hchange) (fun hmessage => ?_) hstatus hnotice
  rw [isMessage_eq_false hgeneral hdm] at hmessage
  cases hmessage

/-- A message of a registered client, with the frames that follow the 603. -/
theorem served_message {msgType : UInt8} {payload : Bytes} {rest : List Written}
    (hchange : msgType ≠ MsgType.CHANGE_STATUS) (hmessage : isMessage cfg (msgType, payload) = true)
    (hrest : ∀ msg ∈ writtenTo 0 rest, isNotice msg = false) :
    Served cfg (msgType, payload) m (m.active 0) (writtenTo 0 (m.restoredNotice 0 ++ rest)) := by
  have hasks : asks cfg (msgType, payload) = none := asks_eq_none hchange
  have hwritten : writtenTo 0 (m.restoredNotice 0 ++ rest) =
      writtenTo 0 (m.restoredNotice 0) ++ writtenTo 0 rest := List.filterMap_append
  have hstatus := m.statuses_active 0 0
  rw [hwritten]
  by_cases hauto : Memory.autoInactive (m.heap 0) = true
  · rw [if_pos ⟨rfl, hauto⟩] at hstatus
    have hnotice : writtenTo 0 (m.restoredNotice 0) = [response StatusCode.STATUS_RESTORED
        "Status restored to ACTIVO after inactivity period" true] := by
      rw [Memory.restoredNotice, if_pos hauto]
      rfl
    rw [hnotice]
    refine .restored hasks hmessage hauto hstatus ?_ ⟨_, List.mem_cons_self, rfl⟩
    rw [List.filterMap_append, filterMap_shown hrest]
    rfl
  · rw [if_neg fun h => hauto h.2] at hstatus
    rw [Memory.restoredNotice, if_neg hauto]
    exact .same hasks (fun _ => Bool.eq_false_of_not_eq_true hauto) hstatus hrest

theorem isNotice_writtenTo {ws : List Written} (h : ∀ x ∈ ws, isNotice x.msg = false) :
    ∀ msg ∈ writtenTo 0 ws, isNotice msg = false := by
  intro msg hmsg
  have ⟨x, hx, hif⟩ := List.mem_filterMap.1 hmsg
  split at hif
  · cases hif
    exact h x hx
  · cases hif

/-- A reply through a session that is no notice. -/
theorem isNotice_mem_reply {s : SessionRef} {code : Int} {text : String} {b : Bool}
    (h : code ∉ [StatusCode.OK_STATUS_CHANGED, StatusCode.AUTO_INACTIVE,
      StatusCode.STATUS_RESTORED]) :
    ∀ x ∈ [Written.reply s code text b], isNotice x.msg = false := by
  intro x hx
  rw [List.mem_singleton.1 hx]
  exact isNotice_response h

/-- A payload that does not parse is no request. -/
theorem malformed_asks {msgType : UInt8} {payload : Bytes} {text : String}
    (h : Malformed cfg payload msgType text) :
    asks cfg (msgType, payload) = none ∧ isMessage cfg (msgType, payload) = false := by
  cases h with
  | general h | dm h | changeStatus h | listUsers h | getUserInfo h =>
    simp [asks, isMessage, h, MsgType.MESSAGE_GENERAL, MsgType.MESSAGE_DM, MsgType.CHANGE_STATUS,
      MsgType.LIST_USERS, MsgType.GET_USER_INFO]

/-- What the handler of the client does with a request. -/
theorem served_of_handled {c : ConnId} {msgType : UInt8} {payload : Bytes}
    (h : Handled cfg c fd payload m msgType l m') (hsession : m.getSession fd = some 0)
    (hrequest : needsSession msgType = true) :
    m.Frame m' ∧ Served cfg (msgType, payload) m m' (writtenTo 0 l) := by
  have hfound : ∀ {s}, m.getSession fd = some s → s = 0 := by
    intro s hs
    rw [hsession, Option.some.injEq] at hs
    exact hs.symm
  cases h with
  | unknown h => simp_all [needsSession]
  | registerMalformed | registerEmpty | register | quitSilent | quit => cases hrequest
  | notRegistered _ hs =>
    rw [hsession] at hs
    cases hs
  | malformed hs hparse =>
    cases hfound hs
    have ⟨hasks, hmessage⟩ := malformed_asks hparse
    refine ⟨.refl m, .same hasks (fun htrue => ?_) rfl ?_⟩
    · rw [hmessage] at htrue
      cases htrue
    · exact isNotice_writtenTo (isNotice_mem_reply (by decide))
  | general hs hparse =>
    cases hfound hs
    refine ⟨m.frame_active 0, served_message (by decide) ?_ (isNotice_writtenTo fun x hx => ?_)⟩
    · simp [isMessage, hparse]
    · have ⟨t, _, hx⟩ := List.mem_map.1 hx
      rw [← hx]
      rfl
  | dmNotFound hs hparse =>
    cases hfound hs
    refine ⟨m.frame_active 0, served_message (by decide) ?_ (isNotice_writtenTo ?_)⟩
    · simp [isMessage, hparse]
    · exact isNotice_mem_reply (by decide)
  | dm hs hparse =>
    cases hfound hs
    refine ⟨m.frame_active 0, served_message (by decide) ?_ (isNotice_writtenTo fun x hx => ?_)⟩
    · simp [isMessage, hparse]
    · rcases List.mem_append.1 hx with hx | hx
      · split at hx
        · rw [List.mem_singleton.1 hx]
          rfl
        · cases hx
      · exact isNotice_mem_reply (by decide) x hx
  | invalidStatus hs hparse hst =>
    cases hfound hs
    refine ⟨.refl m, .same ?_ (fun htrue => ?_) rfl ?_⟩
    · simp [asks, hparse, hst]
    · have hno : isMessage cfg (MsgType.CHANGE_STATUS, payload) = false := rfl
      rw [hno] at htrue
      cases htrue
    · exact isNotice_writtenTo (isNotice_mem_reply (by decide))
  | @changeStatus cs s hs hparse hst =>
    cases hfound hs
    refine ⟨(Memory.frame_setStatus 0 cs.status).trans (Memory.frame_touch 0),
      .changed cs.status ?_ ?_ rfl ⟨_, List.mem_cons_self, rfl⟩⟩
    · simp [asks, hparse, hst]
    · rw [Memory.statuses_touch, Memory.statuses_setStatus, if_pos rfl]
  | listUsers hs hparse =>
    cases hfound hs
    refine ⟨Memory.frame_touch 0, served_other (by decide) (by decide) (by decide)
      (m.statuses_touch 0 0) (isNotice_writtenTo fun x hx => ?_)⟩
    rw [List.mem_singleton.1 hx]
    rfl
  | userNotFound hs hparse =>
    cases hfound hs
    exact ⟨Memory.frame_touch 0, served_other (by decide) (by decide) (by decide)
      (m.statuses_touch 0 0) (isNotice_writtenTo (isNotice_mem_reply (by decide)))⟩
  | userInfo hs hparse =>
    cases hfound hs
    refine ⟨Memory.frame_touch 0, served_other (by decide) (by decide) (by decide)
      (m.statuses_touch 0 0) (isNotice_writtenTo fun x hx => ?_)⟩
    rw [List.mem_singleton.1 hx]
    rfl

theorem writtenTo_notices (msg : ServerMsg) (marked : List SessionRef) :
    writtenTo 0 (marked.map fun s => ⟨some s, msg⟩) = List.replicate (marked.count 0) msg := by
  induction marked with
  | nil => rfl
  | cons s marked ih =>
    by_cases hs : s = 0
    · subst hs
      rw [List.count_cons_self, List.replicate_succ, ← ih]
      rfl
    · rw [List.count_cons_of_ne hs, ← ih]
      simp [writtenTo, hs]

/-- What a scan does with the session of the client. -/
theorem scan_effect {acts : List (Prog.Act Server)} {order : List Fd}
    (h : Scan cfg m acts m' order) (hcons : m.Consistent) (hsession : m.getSession fd = some 0) :
    m.Frame m' ∧
      if Memory.isIdle cfg.idleTimeoutSec m.clock (m.heap 0) then
        statuses (m'.heap 0) = (.INVISIBLE, (m.heap 0).manualStatus) ∧
          writtenTo 0 (writtenBy acts) = [autoInactiveNotice cfg]
      else
        statuses (m'.heap 0) = statuses (m.heap 0) ∧ writtenTo 0 (writtenBy acts) = [] := by
  have ⟨hnodup, hmem⟩ := hcons.visited h.iterates
  have hvisited : 0 ∈ m.visited order := (hmem 0).2 ⟨fd, hsession⟩
  have hmarked : (Memory.markIdle cfg.idleTimeoutSec m.clock (m.visited order) m).1 = _ :=
    Memory.markIdle_marked hnodup
  have hheap : (Memory.markIdle cfg.idleTimeoutSec m.clock (m.visited order) m).2.heap 0 = _ :=
    Memory.markIdle_heap 0
  rw [h.mem, h.written, writtenTo_notices, hheap, hmarked]
  refine ⟨Memory.frame_markIdle _ _ _ _, ?_⟩
  split
  · rename_i hidle
    have hin : 0 ∈ (m.visited order).filter fun s =>
        Memory.isIdle cfg.idleTimeoutSec m.clock (m.heap s) := List.mem_filter.2 ⟨hvisited, hidle⟩
    rw [if_pos hin, List.count_eq_one_of_mem (hnodup.filter _) hin]
    exact ⟨rfl, rfl⟩
  · rename_i hidle
    have hout : 0 ∉ (m.visited order).filter fun s =>
        Memory.isIdle cfg.idleTimeoutSec m.clock (m.heap s) := fun hin =>
      hidle (List.mem_filter.1 hin).2
    rw [if_neg hout, List.count_eq_zero.2 hout]
    exact ⟨rfl, rfl⟩

end Served

/-! ## What the two sides come to -/

namespace Joined

variable (cfg : Config) (p : Joined)

/-- A message on its way will end an inactivity that the watchdog has marked. -/
def restoreDue : Bool := Memory.autoInactive (p.mem.heap 0) && messageFirst cfg p.toServer

/-- The status of the session once the server has handled what is on its way. -/
def settled : StatusEnum :=
  (lastAsked cfg p.toServer).getD (if p.restoreDue cfg then .ACTIVE else (p.mem.heap 0).status)

/-- The status of the last 602 or 603 that is on its way to the window or due. -/
def shownLast : Option StatusEnum :=
  if p.restoreDue cfg then some .ACTIVE else lastShown p.toClient

/-- No notice is on its way to the window or due. -/
def Quiet : Prop :=
  (∀ msg ∈ p.toClient, isNotice msg = false) ∧ p.restoreDue cfg = false ∧
    lastAsked cfg p.toServer = none

/-- The state of the server in which the client is registered. -/
structure Serving (link : Link) : Prop where
  consistent : p.mem.Consistent
  session : p.mem.getSession link.fd = some 0
  running : p.mem.running = true
  /-- The status is the manual one, unless the watchdog has changed it. -/
  manual : (p.mem.heap 0).status = (p.mem.heap 0).manualStatus ∨
    Memory.autoInactive (p.mem.heap 0) = true
  requests : ∀ f ∈ p.toServer, needsSession f.1 = true

/-- The window comes to the status that the server comes to. -/
structure Mirrors (link : Link) : Prop where
  user : p.window.username = link.username ∧ p.window.localIp = link.localIp
  serving : p.Serving link
  settles : p.settled cfg = (p.shownLast cfg).getD p.window.selected
  quiet : p.Quiet cfg → p.window.currentStatus = p.window.selected

section Steps

variable {cfg : Config} {link : Link} {p : Joined}

/-- The registry stays, and the requests are some of those there were. -/
theorem Serving.frame (h : p.Serving link) {w : MainWindow} {m : Memory}
    {q : List (UInt8 × Bytes)} {r : List ServerMsg} (hframe : p.mem.Frame m)
    (hmanual : (m.heap 0).status = (m.heap 0).manualStatus ∨
      Memory.autoInactive (m.heap 0) = true)
    (hq : ∀ f ∈ q, f ∈ p.toServer) : Serving ⟨w, m, q, r⟩ link := by
  refine ⟨h.consistent.frame hframe, ?_, hframe.running.trans h.running, hmanual,
    fun f hf => h.requests f (hq f hf)⟩
  show m.registry.sessions.lookup link.fd = some 0
  rw [hframe.registry]
  exact h.session

/-- One more frame on the way to the server. -/
theorem Serving.push (h : p.Serving link) {f : UInt8 × Bytes} (hf : needsSession f.1 = true) :
    Serving { p with toServer := p.toServer ++ [f] } link := by
  refine ⟨h.consistent, h.session, h.running, h.manual, fun g hg => ?_⟩
  rcases List.mem_append.1 hg with hg | hg
  · exact h.requests g hg
  · rw [List.mem_singleton.1 hg]
    exact hf

/-- A request that is no CHANGE_STATUS is sent. -/
theorem Mirrors.request (h : p.Mirrors cfg link) {f : UInt8 × Bytes}
    (hf : needsSession f.1 = true) (hasks : asks cfg f = none) :
    Mirrors cfg { p with toServer := p.toServer ++ [f] } link := by
  have hlast : lastAsked cfg (p.toServer ++ [f]) = lastAsked cfg p.toServer := by
    rw [lastAsked_concat, hasks]
    rfl
  have hdue : restoreDue cfg { p with toServer := p.toServer ++ [f] } =
      (p.restoreDue cfg || Memory.autoInactive (p.mem.heap 0) &&
        ((lastAsked cfg p.toServer).isNone && isMessage cfg f)) := by
    unfold restoreDue
    rw [messageFirst_concat, hasks, Option.isNone_none, Bool.true_and, Bool.and_or_distrib_left]
  refine ⟨h.user, h.serving.push hf, ?_, fun hquiet => ?_⟩
  · have hsettles := h.settles
    unfold settled shownLast at hsettles ⊢
    rw [hdue]
    dsimp only
    rw [hlast]
    by_cases hnew : (Memory.autoInactive (p.mem.heap 0) &&
        ((lastAsked cfg p.toServer).isNone && isMessage cfg f)) = true
    · -- The message is the first to end the inactivity, and nothing follows it.
      have hnone : lastAsked cfg p.toServer = none := by
        simp only [Bool.and_eq_true, Option.isNone_iff_eq_none] at hnew
        exact hnew.2.1
      rw [hnew, Bool.or_true, hnone]
      rfl
    · rw [Bool.eq_false_of_not_eq_true hnew, Bool.or_false]
      exact hsettles
  · have ⟨hmsgs, hnot, hnone⟩ := hquiet
    rw [hdue, Bool.or_eq_false_iff] at hnot
    exact h.quiet ⟨hmsgs, hnot.1, hlast.symm.trans hnone⟩

/-- Requests that are no CHANGE_STATUS are sent. -/
theorem Mirrors.requests (h : p.Mirrors cfg link) {fs : List (UInt8 × Bytes)}
    (hfs : ∀ f ∈ fs, needsSession f.1 = true ∧ asks cfg f = none) :
    Mirrors cfg { p with toServer := p.toServer ++ fs } link := by
  induction fs generalizing p with
  | nil =>
    rw [List.append_nil]
    exact h
  | cons f fs ih =>
    have ⟨hf, hasks⟩ := hfs f List.mem_cons_self
    have hrest := ih (h.request hf hasks) fun g hg => hfs g (List.mem_cons_of_mem f hg)
    rw [← List.append_cons] at hrest
    exact hrest

theorem needsSession_msgType (m : ClientMsg) : needsSession m.msgType = true := by
  cases m <;> rfl

/-- Messages other than CHANGE_STATUS are sent. -/
theorem Mirrors.send (h : p.Mirrors cfg link) {msgs : List ClientMsg}
    (hmsgs : ∀ m ∈ msgs, m.msgType ≠ MsgType.CHANGE_STATUS) :
    Mirrors cfg (p.send link msgs) link := by
  refine h.requests fun f hf => ?_
  have ⟨m, hm, hmap⟩ := List.mem_filterMap.1 hf
  have ⟨payload, _, heq⟩ := Option.map_eq_some_iff.1 hmap
  subst heq
  exact ⟨needsSession_msgType m, asks_eq_none (hmsgs m hm)⟩

/-- A message is delivered to the window, and what its slot sends is left out. -/
theorem Mirrors.deliver (h : p.Mirrors cfg link) {msg : ServerMsg} {rest : List ServerMsg}
    (hmsg : p.toClient = msg :: rest) :
    Mirrors cfg { p with toClient := rest, window := (p.window.receive msg).1 } link := by
  have hlast : lastShown p.toClient = (lastShown rest).or (shown msg) := by
    rw [hmsg]
    exact getLast?_filterMap_cons shown msg rest
  have huser := p.window.receive_user msg
  refine ⟨⟨huser.1.trans h.user.1, huser.2.trans h.user.2⟩,
    h.serving.frame (.refl p.mem) h.serving.manual fun _ hf => hf, ?_, fun hquiet => ?_⟩
  · show p.settled cfg = (if p.restoreDue cfg then some .ACTIVE else lastShown rest).getD
      (p.window.receive msg).1.selected
    rw [h.settles, shownLast, hlast, MainWindow.receive_selected]
    split
    · rfl
    · cases lastShown rest <;> rfl
  · have ⟨hmsgs, hdue, hasked⟩ := hquiet
    show (p.window.receive msg).1.currentStatus = (p.window.receive msg).1.selected
    by_cases hnotice : isNotice msg = true
    · exact p.window.receive_notice msg hnotice
    · have hother := Bool.eq_false_of_not_eq_true hnotice
      rw [p.window.receive_other msg hother]
      refine h.quiet ⟨fun m hm => ?_, hdue, hasked⟩
      rw [hmsg] at hm
      rcases List.mem_cons.1 hm with hm | hm
      · rw [hm]
        exact hother
      · exact hmsgs m hm

/-! ### What the user picks -/

/-- A pick that `onChangeStatus` does not send, since the window has the status. -/
theorem Mirrors.pickUnsent (h : p.Mirrors cfg link) {index : Fin 3}
    (hsame : itemData index = p.window.currentStatus)
    (hshown : p.shownLast cfg = none → p.settled cfg = itemData index) :
    Mirrors cfg { p with window := { p.window with statusCombo := index } } link := by
  refine ⟨h.user, h.serving.frame (.refl p.mem) h.serving.manual fun _ hf => hf, ?_,
    fun _ => hsame.symm⟩
  have hsettles := h.settles
  show p.settled cfg = (p.shownLast cfg).getD (itemData index)
  cases hlast : p.shownLast cfg with
  | none => exact hshown hlast
  | some st =>
    rw [hlast] at hsettles
    exact hsettles

/-- A pick that `onChangeStatus` sends. -/
theorem Mirrors.pickSent (h : p.Mirrors cfg link) {index : Fin 3} {payload : Bytes}
    (hasks : asks cfg (MsgType.CHANGE_STATUS, payload) = some (itemData index))
    (hshown : ∀ st ∈ p.shownLast cfg, st = itemData index) :
    Mirrors cfg { p with
      window := { p.window with statusCombo := index }
      toServer := p.toServer ++ [(MsgType.CHANGE_STATUS, payload)] } link := by
  have hlast : lastAsked cfg (p.toServer ++ [(MsgType.CHANGE_STATUS, payload)]) =
      some (itemData index) := by
    rw [lastAsked_concat, hasks]
    rfl
  have hfirst : messageFirst cfg (p.toServer ++ [(MsgType.CHANGE_STATUS, payload)]) =
      messageFirst cfg p.toServer := by
    rw [messageFirst_concat, hasks, Option.isNone_some, Bool.false_and, Bool.and_false,
      Bool.or_false]
  have hpushed := h.serving.push (f := (MsgType.CHANGE_STATUS, payload)) rfl
  refine ⟨h.user, hpushed.frame (.refl p.mem) hpushed.manual fun _ hf => hf, ?_,
    fun hquiet => ?_⟩
  · unfold settled shownLast restoreDue at *
    dsimp only at *
    rw [hlast, hfirst]
    show itemData index = Option.getD _ (itemData index)
    cases hst : (if (Memory.autoInactive (p.mem.heap 0) && messageFirst cfg p.toServer) = true then
        some StatusEnum.ACTIVE else lastShown p.toClient) with
    | none => rfl
    | some st => exact (hshown st hst).symm
  · have hnone := hquiet.2.2
    rw [hlast] at hnone
    cases hnone

/-! ### What the server does -/

theorem autoInactive_congr {i j : SessionInfo} (h : statuses i = statuses j) :
    Memory.autoInactive i = Memory.autoInactive j := by
  have ⟨hstatus, hmanual⟩ := Prod.ext_iff.1 h
  unfold Memory.autoInactive
  rw [show i.status = j.status from hstatus, show i.manualStatus = j.manualStatus from hmanual]

theorem autoInactive_same {i : SessionInfo} {st : StatusEnum} (h : statuses i = (st, st)) :
    Memory.autoInactive i = false := by
  have ⟨hstatus, hmanual⟩ := Prod.ext_iff.1 h
  unfold Memory.autoInactive
  rw [show i.status = st from hstatus, show i.manualStatus = st from hmanual]
  cases st <;> rfl

theorem manual_congr {m m' : Memory} (h : statuses (m'.heap 0) = statuses (m.heap 0))
    (hmanual : (m.heap 0).status = (m.heap 0).manualStatus ∨
      Memory.autoInactive (m.heap 0) = true) :
    (m'.heap 0).status = (m'.heap 0).manualStatus ∨ Memory.autoInactive (m'.heap 0) = true := by
  have ⟨hst, hman⟩ := Prod.ext_iff.1 h
  rw [autoInactive_congr h, show (m'.heap 0).status = _ from hst,
    show (m'.heap 0).manualStatus = _ from hman]
  exact hmanual

/-- The statuses of the session stay as they are. -/
theorem Mirrors.memory (h : p.Mirrors cfg link) {m : Memory} (hframe : p.mem.Frame m)
    (hstatus : statuses (m.heap 0) = statuses (p.mem.heap 0)) :
    Mirrors cfg { p with mem := m } link := by
  have hauto := autoInactive_congr hstatus
  have hsettles := h.settles
  have hquiet := h.quiet
  have hst : (m.heap 0).status = (p.mem.heap 0).status := (Prod.ext_iff.1 hstatus).1
  refine ⟨h.user, h.serving.frame hframe (manual_congr hstatus h.serving.manual) fun _ hf => hf,
    ?_, ?_⟩
  · unfold settled shownLast restoreDue at hsettles ⊢
    dsimp only
    rw [hauto, hst]
    exact hsettles
  · unfold Quiet restoreDue at hquiet ⊢
    dsimp only
    rw [hauto]
    exact hquiet

/-- The server handles the first frame on its way. -/
theorem Mirrors.handle (h : p.Mirrors cfg link) {f : UInt8 × Bytes} {rest : List (UInt8 × Bytes)}
    {m : Memory} {msgs : List ServerMsg} (hf : p.toServer = f :: rest) (hframe : p.mem.Frame m)
    (hserved : Served cfg f p.mem m msgs) :
    Mirrors cfg { p with mem := m, toServer := rest, toClient := p.toClient ++ msgs } link := by
  have hrest : ∀ g ∈ rest, g ∈ p.toServer := by
    intro g hg
    rw [hf]
    exact List.mem_cons_of_mem f hg
  have hlast : lastAsked cfg p.toServer = (lastAsked cfg rest).or (asks cfg f) := by
    rw [hf, lastAsked_cons]
  have hfirst : messageFirst cfg p.toServer =
      ((asks cfg f).isNone && (isMessage cfg f || messageFirst cfg rest)) := by
    rw [hf, messageFirst]
  have hshown : lastShown (p.toClient ++ msgs) =
      ((msgs.filterMap shown).getLast?).or (lastShown p.toClient) := by
    unfold lastShown
    rw [List.filterMap_append, List.getLast?_append]
  have hsettles := h.settles
  -- No notice is left out of the queue, so a quiet state has sent none.
  have hnotQuiet : (∃ msg ∈ msgs, isNotice msg = true) →
      ¬∀ msg ∈ p.toClient ++ msgs, isNotice msg = false := by
    intro ⟨msg, hmsg, hnotice⟩ hall
    rw [hall msg (List.mem_append_right p.toClient hmsg)] at hnotice
    cases hnotice
  unfold settled shownLast restoreDue at hsettles
  cases hserved with
  | changed st hasks hstatus hnone hnotice =>
    have hauto := autoInactive_same hstatus
    have ⟨hst, hman⟩ := Prod.ext_iff.1 hstatus
    refine ⟨h.user, h.serving.frame hframe (Or.inl (hst.trans hman.symm)) hrest, ?_,
      fun hquiet => absurd hquiet.1 (hnotQuiet hnotice)⟩
    rw [hlast, hfirst, hasks, Option.isNone_some, Bool.false_and, Bool.and_false] at hsettles
    unfold settled shownLast restoreDue
    dsimp only
    rw [hauto, Bool.false_and, hshown, hnone, show (m.heap 0).status = st from hst]
    cases hr : lastAsked cfg rest <;> rw [hr] at hsettles <;> exact hsettles
  | restored hasks hmessage hauto hstatus hone hnotice =>
    have hauto' := autoInactive_same hstatus
    have ⟨hst, hman⟩ := Prod.ext_iff.1 hstatus
    refine ⟨h.user, h.serving.frame hframe (Or.inl (hst.trans hman.symm)) hrest, ?_,
      fun hquiet => absurd hquiet.1 (hnotQuiet hnotice)⟩
    rw [hlast, hfirst, hasks, hmessage, hauto, Option.or_none] at hsettles
    unfold settled shownLast restoreDue
    dsimp only
    rw [hauto', Bool.false_and, hshown, hone, show (m.heap 0).status = .ACTIVE from hst]
    exact hsettles
  | same hasks hmessage hstatus hnotice =>
    have hauto := autoInactive_congr hstatus
    have hst : (m.heap 0).status = (p.mem.heap 0).status := (Prod.ext_iff.1 hstatus).1
    have hdue : (Memory.autoInactive (p.mem.heap 0) && messageFirst cfg p.toServer) =
        (Memory.autoInactive (p.mem.heap 0) && messageFirst cfg rest) := by
      rw [hfirst, hasks, Option.isNone_none, Bool.true_and]
      cases hm : isMessage cfg f with
      | false => rfl
      | true =>
        rw [hmessage hm]
        rfl
    have hasked : lastAsked cfg p.toServer = lastAsked cfg rest := by
      rw [hlast, hasks, Option.or_none]
    refine ⟨h.user,
      h.serving.frame hframe (manual_congr hstatus h.serving.manual) hrest, ?_, fun hquiet => ?_⟩
    · rw [hasked, hdue] at hsettles
      unfold settled shownLast restoreDue
      dsimp only
      rw [hauto, hst, hshown, filterMap_shown hnotice]
      exact hsettles
    · have ⟨hmsgs, hno, hnone⟩ := hquiet
      unfold restoreDue at hno
      dsimp only at hno hnone
      rw [hauto, ← hdue] at hno
      exact h.quiet ⟨fun msg hmsg => hmsgs msg (List.mem_append_left msgs hmsg), hno,
        hasked.trans hnone⟩

/-- The watchdog marks the session. -/
theorem Mirrors.marked (h : p.Mirrors cfg link) {m : Memory} (hframe : p.mem.Frame m)
    (hactive : (p.mem.heap 0).status ≠ .INVISIBLE)
    (hstatus : statuses (m.heap 0) = (.INVISIBLE, (p.mem.heap 0).manualStatus))
    (hasked : ∀ st ∈ lastAsked cfg p.toServer,
      st = if messageFirst cfg p.toServer then .ACTIVE else .INVISIBLE) :
    Mirrors cfg { p with mem := m, toClient := p.toClient ++ [autoInactiveNotice cfg] } link := by
  have hmanual : (p.mem.heap 0).manualStatus ≠ .INVISIBLE := by
    rcases h.serving.manual with heq | hauto
    · rw [← heq]
      exact hactive
    · have hinvisible : (p.mem.heap 0).status = .INVISIBLE := by
        simp only [Memory.autoInactive, Bool.and_eq_true, beq_iff_eq] at hauto
        exact hauto.1
      exact absurd hinvisible hactive
  obtain ⟨hst, hman⟩ := Prod.ext_iff.1 hstatus
  have hauto : Memory.autoInactive (m.heap 0) = true := by
    unfold Memory.autoInactive
    rw [show (m.heap 0).status = .INVISIBLE from hst,
      show (m.heap 0).manualStatus = (p.mem.heap 0).manualStatus from hman]
    simpa using hmanual
  have hshown : lastShown (p.toClient ++ [autoInactiveNotice cfg]) = some .INVISIBLE :=
    getLast?_filterMap_concat shown (autoInactiveNotice cfg) p.toClient
  refine ⟨h.user, h.serving.frame hframe (Or.inr hauto) fun _ hf => hf, ?_, fun hquiet => ?_⟩
  · unfold settled shownLast restoreDue
    dsimp only
    rw [hauto, Bool.true_and, hshown, show (m.heap 0).status = .INVISIBLE from hst]
    cases hq : lastAsked cfg p.toServer with
    | none => split <;> rfl
    | some st =>
      rw [hasked st hq]
      split <;> rfl
  · have hno : isNotice (autoInactiveNotice cfg) = false :=
      hquiet.1 _ (List.mem_append_right p.toClient (List.mem_singleton.2 rfl))
    cases hno

/-! ### Every step -/

/-- What keeps a pick or a marking out of the races.

A pick that is sent is the status of the last 602 or 603 that is on its way or
due, if there is one.  A pick that is not sent is the status that the server
comes to, or such a message replaces it.  If the watchdog marks the session, then
no CHANGE_STATUS is on its way, or the last one asks for what the window is told
then. -/
def RacesSettled (cfg : Config) (p : Joined) : JoinedEvent → Prop
  | .pick index =>
    index ≠ p.window.statusCombo →
      if itemData index = p.window.currentStatus then
        p.shownLast cfg = none → p.settled cfg = itemData index
      else ∀ st ∈ p.shownLast cfg, st = itemData index
  | .scan _ =>
    Memory.isIdle cfg.idleTimeoutSec p.mem.clock (p.mem.heap 0) = true →
      ∀ st ∈ lastAsked cfg p.toServer,
        st = if messageFirst cfg p.toServer then .ACTIVE else .INVISIBLE
  | _ => True

instance (cfg : Config) (p : Joined) (e : JoinedEvent) : Decidable (RacesSettled cfg p e) := by
  cases e <;> unfold RacesSettled <;> infer_instance

/-- The server reads the CHANGE_STATUS messages of the client as the client means
them. -/
def ReadsBack (cfg : Config) (link : Link) : Prop :=
  ∀ index, ∃ payload,
    link.serialize (.changeStatus ⟨itemData index, link.username, link.localIp⟩) = some payload ∧
      cfg.pb.parseChangeStatus payload = some ⟨itemData index, link.username, link.localIp⟩

/-- The user picks an entry. -/
theorem Mirrors.pick (hback : ReadsBack cfg link) (h : p.Mirrors cfg link) {index : Fin 3}
    (hC : RacesSettled cfg p (.pick index)) :
    Mirrors cfg (p.after link (p.window.pick index)) link := by
  unfold after MainWindow.pick
  split
  · exact h.send fun m hm => absurd hm List.not_mem_nil
  · rename_i hindex
    have hrace := hC hindex
    unfold MainWindow.onChangeStatus
    by_cases hsame : itemData index = p.window.currentStatus
    · rw [if_pos hsame] at hrace
      dsimp only
      rw [if_pos hsame]
      exact (h.pickUnsent hsame hrace).send fun m hm => absurd hm List.not_mem_nil
    · rw [if_neg hsame] at hrace
      have ⟨payload, hserialize, hparse⟩ := hback index
      have hasks : asks cfg (MsgType.CHANGE_STATUS, payload) = some (itemData index) := by
        simp [asks, hparse, validStatus_itemData]
      have hsent := h.pickSent hasks hrace
      rw [← h.user.1, ← h.user.2] at hserialize
      dsimp only
      rw [if_neg hsame]
      unfold Joined.send
      rw [List.filterMap_cons_some (by rw [hserialize]; rfl)]
      exact hsent

/-- The watchdog scans. -/
theorem Mirrors.scan (h : p.Mirrors cfg link) {chs : List Choice}
    (hC : RacesSettled cfg p (.scan chs)) {acts : List (Prog.Act Server)} {m : Memory}
    {order : List Fd} (hscan : Scan cfg p.mem acts m order) :
    Mirrors cfg { p with mem := m, toClient := p.toClient ++ writtenTo 0 (writtenBy acts) }
      link := by
  have ⟨hframe, heffect⟩ := scan_effect hscan h.serving.consistent h.serving.session
  split at heffect
  · rename_i hidle
    have hactive : (p.mem.heap 0).status ≠ .INVISIBLE := by
      simp only [Memory.isIdle, Bool.and_eq_true, bne_iff_ne] at hidle
      exact hidle.1.2
    rw [heffect.2]
    exact h.marked hframe hactive heffect.1 (hC hidle)
  · rw [heffect.2, List.append_nil]
    exact h.memory hframe heffect.1

/-- What one step preserves. -/
theorem Mirrors.step (hback : ReadsBack cfg link) (h : p.Mirrors cfg link) {e : JoinedEvent}
    {p' : Joined} (hC : RacesSettled cfg p e) (hs : p.step cfg link e = some p') :
    p'.Mirrors cfg link := by
  cases e with
  | pick index =>
    cases hs
    exact h.pick hback hC
  | sendClicked mode text target =>
    cases hs
    exact h.send (p.window.onSendClicked_sends mode text target)
  | refreshUsers =>
    cases hs
    exact h.send p.window.onRefreshUsers_sends
  | showUserInfo ok target =>
    cases hs
    exact h.send (p.window.onShowUserInfo_sends ok target)
  | deliver =>
    cases hmsg : p.toClient with
    | nil =>
      rw [Joined.step, hmsg] at hs
      cases hs
    | cons msg rest =>
      rw [Joined.step, hmsg] at hs
      cases hs
      exact (h.deliver hmsg).send (p.window.receive_sends msg)
  | handle chs =>
    cases hf : p.toServer with
    | nil =>
      rw [Joined.step, hf] at hs
      cases hs
    | cons f rest =>
      rw [Joined.step, hf] at hs
      have ⟨⟨l, ⟨⟩, w⟩, hx, heq⟩ := Option.map_eq_some_iff.1 hs
      cases heq
      have hhandled := handled_of_runs (Machine.runAlone_runs hx)
      have hrequest : needsSession f.1 = true := by
        apply h.serving.requests
        rw [hf]
        exact List.mem_cons_self
      have ⟨hframe, hserved⟩ := served_of_handled hhandled h.serving.session hrequest
      exact h.handle hf hframe hserved
  | scan chs =>
    have ⟨⟨l, ctl, w⟩, hx, heq⟩ := Option.map_eq_some_iff.1 hs
    cases heq
    have ⟨_, order, hscan⟩ := watchdogLoop_runs h.serving.running (Machine.runAlone_runs hx)
    exact h.scan hC hscan
  | tick d =>
    cases hs
    exact h.memory ⟨rfl, rfl, rfl, rfl, rfl, rfl, fun _ => rfl, fun _ => rfl, fun _ => rfl,
      fun _ => rfl, fun _ => rfl⟩ rfl

end Steps

/-! ## Every run -/

variable {cfg : Config} {link : Link} {p : Joined}

theorem mirrors_init (hname : link.username ≠ "") :
    (joinedSystem cfg link).init.Mirrors cfg link := by
  have hinit := Memory.consistent_init
  have haccepted : (Memory.init.accept link.fd link.peerIp).Consistent :=
    ⟨hinit.allocated, hinit.socketFd, hinit.nonempty, hinit.names, hinit.ips⟩
  refine ⟨⟨rfl, rfl⟩, ⟨haccepted.register hname, ?_, rfl, Or.inl rfl, fun f hf => ?_⟩, rfl,
    fun _ => rfl⟩
  · show Finmap.lookup link.fd (Finmap.insert link.fd 0 ∅) = some 0
    exact Finmap.lookup_insert _
  · cases hf

/-- What a whole run preserves. -/
theorem reachable_mirrors (hback : ReadsBack cfg link) (hname : link.username ≠ "")
    (h : (joinedSystem cfg link).Reaches (RacesSettled cfg) p) : p.Mirrors cfg link :=
  h.invariant (mirrors_init hname) fun _ _ _ _ hI hC hs => Mirrors.step hback hI hC hs

end Joined

/-- If every pick and every marking of a run settles its races, then the window
shows the status of the session whenever nothing is in flight. -/
theorem status_mirrored {cfg : Config} {link : Link} {p : Joined}
    (hback : Joined.ReadsBack cfg link) (hname : link.username ≠ "")
    (h : (joinedSystem cfg link).Reaches (Joined.RacesSettled cfg) p) (hserver : p.toServer = [])
    (hclient : p.toClient = []) :
    p.window.currentStatus = (p.mem.heap 0).status ∧
      p.window.selected = (p.mem.heap 0).status := by
  have hmirrors := Joined.reachable_mirrors hback hname h
  have hdue : p.restoreDue cfg = false := by
    unfold Joined.restoreDue
    rw [hserver, messageFirst, Bool.and_false]
  have hquiet : p.Quiet cfg := by
    refine ⟨fun msg hmsg => ?_, hdue, ?_⟩
    · rw [hclient] at hmsg
      cases hmsg
    · rw [hserver]
      rfl
  have hselected : p.window.selected = (p.mem.heap 0).status := by
    have hsettles := hmirrors.settles
    unfold Joined.settled Joined.shownLast at hsettles
    rw [hdue, hserver, hclient] at hsettles
    exact hsettles.symm
  exact ⟨(hmirrors.quiet hquiet).trans hselected, hselected⟩

/-! ## A client to run -/

/-- The client "a", which serializes as proto3 does. -/
def sampleLink : Link where
  serialize m := some m.encode
  fd := 4
  username := "a"
  peerIp := "10.0.0.1"
  localIp := "10.0.0.1"

/-- The server, with the protobuf code on the CHANGE_STATUS and LIST_USERS
messages of "a". -/
def mirrorConfig : Config :=
  { sampleConfig with
    pb := { sampleProtobuf with
      parseChangeStatus := fun bs =>
        [StatusEnum.ACTIVE, .DO_NOT_DISTURB, .INVISIBLE].findSome? fun st =>
          let m : ChangeStatus := ⟨st, "a", "10.0.0.1"⟩
          if bs = (ClientMsg.changeStatus m).encode then some m else none
      parseListUsers := fun bs =>
        let m : ListUsers := ⟨"a", "10.0.0.1"⟩
        if bs = (ClientMsg.listUsers m).encode then some m else none } }

theorem mirrorConfig_readsBack : Joined.ReadsBack mirrorConfig sampleLink := by
  intro index
  refine ⟨_, rfl, ?_⟩
  revert index
  decide +kernel

/-- The handler handles a frame with `n` operations. -/
def handleEvent (n : Nat) : JoinedEvent := .handle (List.replicate n { want := 100, order := [4] })

/-- The watchdog scans and sends one frame. -/
def scanEvent : JoinedEvent := .scan (List.replicate 5 { want := 100, order := [4] })

/-- "a" picks DO_NOT_DISTURB and is told, and 180 seconds later it is marked. -/
theorem status_mirrored_marked :
    ∃ p, (joinedSystem mirrorConfig sampleLink).Reaches (Joined.RacesSettled mirrorConfig) p ∧
      (p.mem.heap 0).status = .INVISIBLE ∧ p.window.currentStatus = (p.mem.heap 0).status ∧
      p.window.selected = (p.mem.heap 0).status := by
  have ⟨p, hp, hrun⟩ := Lts.exists_reaches_of_runIf
    (L := joinedSystem mirrorConfig sampleLink) (C := Joined.RacesSettled mirrorConfig)
    [.pick 1, handleEvent 4, .deliver, handleEvent 4, .deliver, .tick 180000000000, scanEvent,
      .deliver]
    (fun p => decide (p.toServer = [] ∧ p.toClient = [] ∧ (p.mem.heap 0).status = .INVISIBLE))
    (by decide +kernel)
  have ⟨hserver, hclient, hstatus⟩ := of_decide_eq_true hrun
  exact ⟨p, hp, hstatus, status_mirrored mirrorConfig_readsBack (by decide) hp hserver hclient⟩

/-- "a" picks DO_NOT_DISTURB and, before the 201 arrives, ACTIVE again, which
`onChangeStatus` does not send. -/
theorem status_not_mirrored :
    ∃ p, (joinedSystem mirrorConfig sampleLink).Reaches Lts.Any p ∧ p.toServer = [] ∧
      p.toClient = [] ∧ p.window.currentStatus = .ACTIVE ∧ p.window.selected = .ACTIVE ∧
      (p.mem.heap 0).status = .DO_NOT_DISTURB := by
  have ⟨p, hp, hrun⟩ := Lts.exists_reaches_of_run (L := joinedSystem mirrorConfig sampleLink)
    [.pick 1, .pick 0, handleEvent 4, .deliver, handleEvent 4, .deliver]
    (fun p => decide (p.toServer = [] ∧ p.toClient = [] ∧ p.window.currentStatus = .ACTIVE ∧
      p.window.selected = .ACTIVE ∧ (p.mem.heap 0).status = .DO_NOT_DISTURB)) (by decide +kernel)
  exact ⟨p, hp, of_decide_eq_true hrun⟩

end SimpleChat
