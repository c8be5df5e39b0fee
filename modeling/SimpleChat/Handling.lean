import SimpleChat.Conc.Turns
import SimpleChat.Ownership

/-!
# What a handler does when nobody interferes

`Handled` lists everything that one handler execution can do: the memory that it
leaves and the frames that it writes, in their order, by the frame that it
handles and the memory that it finds.  `handled_of_runs` reads it off the
programs.  The results about single requests and about runs a turn at a time
rest on this list and unfold no handler again.
-/

namespace SimpleChat

open Conc Function

/-! ## The list -/

/-- The frames that operations write. -/
def writtenBy (l : List (Prog.Act Server)) : List Written :=
  l.filterMap fun
    | ⟨.sendBare _ msg, _⟩ => some ⟨none, msg⟩
    | ⟨.sendLocked s msg, _⟩ => some ⟨some s, msg⟩
    | ⟨.register _ username peerIp, r⟩ =>
      some ⟨(registerReply username peerIp r).1, (registerReply username peerIp r).2⟩
    | ⟨.mem _, _⟩ => none

/-- What `maybe_restore_activity` leaves. -/
def Memory.active (m : Memory) (s : SessionRef) : Memory := (m.restore s).2.touch s

/-- The 603 that `maybe_restore_activity` sends. -/
def Memory.restoredNotice (m : Memory) (s : SessionRef) : List Written :=
  if autoInactive (m.heap s) then
    [⟨some s, response StatusCode.STATUS_RESTORED
      "Status restored to ACTIVO after inactivity period" true⟩]
  else []

/-- A reply through a session. -/
def Written.reply (s : SessionRef) (code : Int) (text : String) (success : Bool) : Written :=
  ⟨some s, response code text success⟩

/-- The payload of the frame does not parse, and the text that is sent then. -/
inductive Malformed (cfg : Config) (payload : Bytes) : UInt8 → String → Prop
  | general (h : cfg.pb.parseMessageGeneral payload = none) :
    Malformed cfg payload MsgType.MESSAGE_GENERAL "Malformed MessageGeneral"
  | dm (h : cfg.pb.parseMessageDM payload = none) :
    Malformed cfg payload MsgType.MESSAGE_DM "Malformed MessageDM"
  | changeStatus (h : cfg.pb.parseChangeStatus payload = none) :
    Malformed cfg payload MsgType.CHANGE_STATUS "Malformed ChangeStatus"
  | listUsers (h : cfg.pb.parseListUsers payload = none) :
    Malformed cfg payload MsgType.LIST_USERS "Malformed ListUsers"
  | getUserInfo (h : cfg.pb.parseGetUserInfo payload = none) :
    Malformed cfg payload MsgType.GET_USER_INFO "Malformed GetUserInfo"

/-- The types of the frames that need a registration. -/
def needsSession (msgType : UInt8) : Bool :=
  msgType ∈ [MsgType.MESSAGE_GENERAL, MsgType.MESSAGE_DM, MsgType.CHANGE_STATUS,
    MsgType.LIST_USERS, MsgType.GET_USER_INFO]

/-- The values that `handle_change_status` accepts. -/
def validStatus (st : StatusEnum) : Bool :=
  st = .ACTIVE ∨ st = .DO_NOT_DISTURB ∨ st = .INVISIBLE

/-- The handler of connection `c` with descriptor `fd` handles a frame: from the
first memory it writes the frames and leaves the second. -/
inductive Handled (cfg : Config) (c : ConnId) (fd : Fd) (payload : Bytes) (m : Memory) :
    UInt8 → List Written → Memory → Prop
  | unknown {msgType : UInt8}
    (h : msgType ∉ [MsgType.REGISTER, MsgType.MESSAGE_GENERAL, MsgType.MESSAGE_DM,
      MsgType.CHANGE_STATUS, MsgType.LIST_USERS, MsgType.GET_USER_INFO, MsgType.QUIT]) :
    Handled cfg c fd payload m msgType
      [⟨none, response StatusCode.BAD_REQUEST "Unknown message type" false⟩] m
  | registerMalformed (h : cfg.pb.parseRegister payload = none) :
    Handled cfg c fd payload m MsgType.REGISTER
      [⟨none, response StatusCode.BAD_REQUEST "Malformed Register message" false⟩] m
  | registerEmpty {reg : Register} (h : cfg.pb.parseRegister payload = some reg)
    (hempty : reg.username = "") :
    Handled cfg c fd payload m MsgType.REGISTER
      [⟨none, response StatusCode.BAD_REQUEST "Username cannot be empty" false⟩] m
  | register {reg : Register} (peerIp : String) (h : cfg.pb.parseRegister payload = some reg)
    (hname : reg.username ≠ "") (hip : ∃ known, peerIp = m.getPeerIp fd known) :
    Handled cfg c fd payload m MsgType.REGISTER
      [⟨(registerReply reg.username peerIp (m.register c fd reg.username peerIp).1).1,
        (registerReply reg.username peerIp (m.register c fd reg.username peerIp).1).2⟩]
      (m.register c fd reg.username peerIp).2
  | notRegistered {msgType : UInt8} (htype : needsSession msgType = true)
    (hs : m.getSession fd = none) :
    Handled cfg c fd payload m msgType
      [⟨none, response StatusCode.NOT_REGISTERED "Not registered" false⟩] m
  | malformed {msgType : UInt8} {text : String} {s : SessionRef} (hs : m.getSession fd = some s)
    (h : Malformed cfg payload msgType text) :
    Handled cfg c fd payload m msgType [.reply s StatusCode.BAD_REQUEST text false] m
  | general {msg : MessageGeneral} {s : SessionRef} {order : List Fd}
    (hs : m.getSession fd = some s) (h : cfg.pb.parseMessageGeneral payload = some msg)
    (horder : m.IterationOrder order) :
    Handled cfg c fd payload m MsgType.MESSAGE_GENERAL
      (m.restoredNotice s ++ (m.aliveSessions order).map fun t =>
        ⟨some t, .broadcastDelivery ⟨msg.message, (m.heap s).username⟩⟩)
      (m.active s)
  | dmNotFound {msg : MessageDM} {s : SessionRef} (hs : m.getSession fd = some s)
    (h : cfg.pb.parseMessageDM payload = some msg) (hdest : m.findUser msg.usernameDes = none) :
    Handled cfg c fd payload m MsgType.MESSAGE_DM
      (m.restoredNotice s ++ [.reply s StatusCode.USER_NOT_FOUND
        ("User '" ++ msg.usernameDes ++ "' not found") false])
      (m.active s)
  | dm {msg : MessageDM} {s d : SessionRef} (hs : m.getSession fd = some s)
    (h : cfg.pb.parseMessageDM payload = some msg) (hdest : m.findUser msg.usernameDes = some d) :
    Handled cfg c fd payload m MsgType.MESSAGE_DM
      (m.restoredNotice s ++
        ((if (m.heap d).alive then
          [⟨some d, .forDm ⟨(m.heap s).username, msg.message⟩⟩] else []) ++
        [.reply s StatusCode.OK_DM_SENT ("DM sent to " ++ msg.usernameDes) true]))
      (m.active s)
  | invalidStatus {cs : ChangeStatus} {s : SessionRef} (hs : m.getSession fd = some s)
    (h : cfg.pb.parseChangeStatus payload = some cs) (hst : validStatus cs.status = false) :
    Handled cfg c fd payload m MsgType.CHANGE_STATUS
      [.reply s StatusCode.BAD_REQUEST "Invalid status value" false] m
  | changeStatus {cs : ChangeStatus} {s : SessionRef} (hs : m.getSession fd = some s)
    (h : cfg.pb.parseChangeStatus payload = some cs) (hst : validStatus cs.status = true) :
    Handled cfg c fd payload m MsgType.CHANGE_STATUS
      [.reply s StatusCode.OK_STATUS_CHANGED
        ("Status changed to " ++ statusToDisplay cs.status) true]
      ((m.setStatus s cs.status).touch s)
  | listUsers {msg : ListUsers} {s : SessionRef} {order : List Fd}
    (hs : m.getSession fd = some s) (h : cfg.pb.parseListUsers payload = some msg)
    (horder : m.IterationOrder order) :
    Handled cfg c fd payload m MsgType.LIST_USERS
      [⟨some s, .allUsers ⟨(cfg.sort (m.listSessions order)).map Prod.fst,
        (cfg.sort (m.listSessions order)).map Prod.snd⟩⟩]
      (m.touch s)
  | userNotFound {msg : GetUserInfo} {s : SessionRef} (hs : m.getSession fd = some s)
    (h : cfg.pb.parseGetUserInfo payload = some msg) (hdest : m.findUser msg.usernameDes = none) :
    Handled cfg c fd payload m MsgType.GET_USER_INFO
      [.reply s StatusCode.USER_NOT_FOUND ("User '" ++ msg.usernameDes ++ "' not found") false]
      (m.touch s)
  | userInfo {msg : GetUserInfo} {s d : SessionRef} (hs : m.getSession fd = some s)
    (h : cfg.pb.parseGetUserInfo payload = some msg) (hdest : m.findUser msg.usernameDes = some d) :
    Handled cfg c fd payload m MsgType.GET_USER_INFO
      [⟨some s, .getUserInfoResponse ⟨(m.heap d).ip, (m.heap d).username, (m.heap d).status⟩⟩]
      (m.touch s)
  | quitSilent (h : cfg.pb.parseQuit payload = none ∨ m.getSession fd = none) :
    Handled cfg c fd payload m MsgType.QUIT [] m
  | quit {msg : Quit} {s : SessionRef} (hs : m.getSession fd = some s)
    (h : cfg.pb.parseQuit payload = some msg) :
    Handled cfg c fd payload m MsgType.QUIT [.reply s StatusCode.OK_QUIT "Goodbye!" true] m

/-! ## Operations of a run -/

section Runs

variable {cfg : Config} {t : Tid} {α : Type} {w w' : World} {l : List (Prog.Act Server)} {a : α}

/-- The next operation writes no frame. -/
theorem runs_mem {o : MemOp} {k : o.Resp → Prog Server α}
    (h : (machine cfg).Runs t (.call (S := Server) (.mem o) k) w l a w') :
    ∃ ch r m₁ l', w.mem.exec cfg.idleTimeoutSec o ch = some (r, m₁) ∧
      writtenBy l = writtenBy l' ∧ (machine cfg).Runs t (k r) { w with mem := m₁ } l' a w' := by
  have ⟨ch, r, w₁, l', he, hl, hk⟩ := h.of_call
  change (w.mem.exec cfg.idleTimeoutSec o ch).map _ = _ at he
  rw [Option.map_eq_some_iff] at he
  have ⟨⟨r', m₁⟩, hexec, hx⟩ := he
  cases hx
  exact ⟨ch, r', m₁, l', hexec, by rw [hl]; rfl, hk⟩

/-- The next operation only looks something up. -/
theorem runs_look {o : MemOp} {k : o.Resp → Prog Server α} {r : o.Resp}
    (hlook : ∀ idle ch, w.mem.exec idle o ch = some (r, w.mem))
    (h : (machine cfg).Runs t (.call (S := Server) (.mem o) k) w l a w') :
    ∃ l', writtenBy l = writtenBy l' ∧ (machine cfg).Runs t (k r) w l' a w' := by
  have ⟨ch, r', m₁, l', he, hl, hk⟩ := runs_mem h
  have hr := (hlook _ _).symm.trans he
  cases hr
  exact ⟨l', hl, hk⟩

/-- The next operation sends a frame through a session. -/
theorem runs_sendLocked {s : SessionRef} {msg : ServerMsg} {k : Unit → Prog Server α}
    (h : (machine cfg).Runs t (.call (S := Server) (.sendLocked s msg) k) w l a w') :
    ∃ w₁ l', w₁.mem = w.mem ∧ writtenBy l = ⟨some s, msg⟩ :: writtenBy l' ∧
      (machine cfg).Runs t (k ()) w₁ l' a w' := by
  have ⟨ch, r, w₁, l', he, hl, hk⟩ := h.of_call
  cases he
  exact ⟨_, l', World.write_mem _ _ _ _, by rw [hl]; rfl, hk⟩

/-- The next operation is the locked block of `handle_register`. -/
theorem runs_register {c : ConnId} {fd : Fd} {username peerIp : String}
    {k : Memory.RegisterOutcome → Prog Server α}
    (h : (machine cfg).Runs (.handler c)
      (.call (S := Server) (.register fd username peerIp) k) w l a w') :
    ∃ w₁ l', w₁.mem = (w.mem.register c fd username peerIp).2 ∧
      writtenBy l =
        ⟨(registerReply username peerIp (w.mem.register c fd username peerIp).1).1,
          (registerReply username peerIp (w.mem.register c fd username peerIp).1).2⟩ ::
          writtenBy l' ∧
      (machine cfg).Runs (.handler c) (k (w.mem.register c fd username peerIp).1) w₁ l' a w' := by
  have ⟨ch, r, w₁, l', he, hl, hk⟩ := h.of_call
  cases he
  exact ⟨_, l', World.reply_mem _ _ _, by rw [hl]; rfl, hk⟩

/-- A program that sends one frame through a session and returns. -/
theorem runs_lastLocked {s : SessionRef} {msg : ServerMsg} {b : Unit}
    (h : (machine cfg).Runs t (.call (S := Server) (.sendLocked s msg) .ret) w l b w') :
    writtenBy l = [⟨some s, msg⟩] ∧ w'.mem = w.mem := by
  have ⟨w₁, l', hmem, hl, hk⟩ := runs_sendLocked h
  have ⟨hnil, _, hw⟩ := hk.of_ret
  rw [hl, hw, hnil]
  exact ⟨rfl, hmem⟩

/-- A program that sends one bare frame and returns. -/
theorem runs_lastBare {fd : Fd} {msg : ServerMsg} {b : Unit}
    (h : (machine cfg).Runs t (.call (S := Server) (.sendBare fd msg) .ret) w l b w') :
    writtenBy l = [⟨none, msg⟩] ∧ w'.mem = w.mem := by
  have ⟨ch, r, w₁, l', he, hl, hk⟩ := h.of_call
  cases he
  have ⟨hnil, _, hw⟩ := hk.of_ret
  rw [hl, hw, hnil]
  exact ⟨rfl, World.write_mem _ _ _ _⟩

theorem writtenBy_append (l l' : List (Prog.Act Server)) :
    writtenBy (l ++ l') = writtenBy l ++ writtenBy l' := List.filterMap_append

/-- A loop that sends one frame through each of some sessions. -/
theorem runs_sendEach {targets : List SessionRef} {msg : ServerMsg} {b : Unit}
    (h : (machine cfg).Runs t (targets.forM fun s => sendLocked s msg) w l b w') :
    writtenBy l = (targets.map fun s => ⟨some s, msg⟩) ∧ w'.mem = w.mem := by
  induction targets generalizing w l with
  | nil =>
    have ⟨hnil, _, hw⟩ := h.of_ret
    rw [hnil, hw]
    exact ⟨rfl, rfl⟩
  | cons s targets ih =>
    rw [Prog.forM_cons, sendLocked_eq, Prog.call_bind] at h
    have ⟨w₁, l', hmem, hl, hk⟩ := runs_sendLocked h
    have ⟨hrest, hw⟩ := ih hk
    rw [hl, hrest, hw]
    exact ⟨rfl, hmem⟩

theorem maybeRestoreActivity_runs {s : SessionRef} {b : Unit}
    (h : (machine cfg).Runs t (maybeRestoreActivity s) w l b w') :
    writtenBy l = w.mem.restoredNotice s ∧ w'.mem = w.mem.active s := by
  simp only [maybeRestoreActivity, mem_eq, Prog.call_bind, Prog.ret_bind] at h
  obtain ⟨ch, restored, m₁, l', he, hl, hk⟩ := runs_mem h
  have hrestore : w.mem.restore s = (restored, m₁) := Option.some.inj he
  have htouch : ∀ {w₁ : World} {l₁}, w₁.mem = m₁ →
      (machine cfg).Runs t (.call (S := Server) (.mem (.touch s)) .ret) w₁ l₁ b w' →
      writtenBy l₁ = [] ∧ w'.mem = w.mem.active s := by
    intro w₁ l₁ hw₁ hrun
    obtain ⟨_, _, m₂, l₂, he₂, hl₂, hk₂⟩ := runs_mem hrun
    cases he₂
    obtain ⟨hnil, _, hw⟩ := hk₂.of_ret
    rw [hl₂, hnil, hw]
    refine ⟨rfl, ?_⟩
    rw [Memory.active, hrestore]
    exact congrArg (fun m : Memory => m.touch s) hw₁
  have hauto : Memory.autoInactive (w.mem.heap s) = restored := by
    unfold Memory.restore at hrestore
    split at hrestore
    · rename_i hauto
      exact hauto.trans (congrArg Prod.fst hrestore)
    · rename_i hauto
      exact (Bool.eq_false_of_not_eq_true hauto).trans (congrArg Prod.fst hrestore)
  rw [hl, Memory.restoredNotice, hauto]
  cases restored with
  | false => exact htouch rfl hk
  | true =>
    obtain ⟨w₁, l₁, hmem, hl₁, hk₁⟩ := runs_sendLocked hk
    obtain ⟨hnil, hw⟩ := htouch hmem hk₁
    rw [hl₁, hnil]
    exact ⟨rfl, hw⟩

end Runs

/-! ## What a request leaves as it is -/

namespace Memory

variable {m m' : Memory}

theorem frame_active (m : Memory) (s : SessionRef) : m.Frame (m.active s) :=
  (frame_restore s).trans (frame_touch s)

theorem Frame.iterationOrder (h : m.Frame m') (order : List Fd) :
    m'.IterationOrder order ↔ m.IterationOrder order := by
  unfold IterationOrder
  rw [h.registry]

theorem Frame.aliveSessions (h : m.Frame m') (order : List Fd) :
    m'.aliveSessions order = m.aliveSessions order := by
  unfold Memory.aliveSessions visited
  rw [h.registry]
  congr 1
  funext s
  rw [h.alive]

theorem Frame.findUser (h : m.Frame m') (username : String) :
    m'.findUser username = m.findUser username := by
  unfold Memory.findUser
  rw [h.registry]

theorem touch_status (m : Memory) (s t : SessionRef) :
    ((m.touch s).heap t).status = (m.heap t).status := by
  by_cases hts : t = s
  · subst hts
    simp [touch, modify]
  · simp [touch, modify, hts]

theorem listSessions_touch (m : Memory) (s : SessionRef) (order : List Fd) :
    (m.touch s).listSessions order = m.listSessions order := by
  have hframe := frame_touch (m := m) s
  unfold listSessions visited
  rw [hframe.registry]
  congr 1
  funext t
  rw [hframe.username, touch_status]

end Memory

/-! ## The handlers -/

section Handlers

variable {cfg : Config} {c : ConnId} {fd : Fd} {payload : Bytes} {w w' : World}
  {l : List (Prog.Act Server)}

theorem handleRegister_runs
    (h : (machine cfg).Runs (.handler c) (handleRegister cfg fd payload) w l () w') :
    Handled cfg c fd payload w.mem MsgType.REGISTER (writtenBy l) w'.mem := by
  unfold handleRegister at h
  split at h
  · rename_i hparse
    have ⟨hl, hw⟩ := runs_lastBare h
    rw [hl, hw]
    exact .registerMalformed hparse
  · rename_i reg hparse
    simp only [mem_eq, Prog.call_bind, Prog.ret_bind] at h
    have ⟨ch, peerIp, m₁, l₁, he, hl, hk⟩ := runs_mem h
    cases he
    rw [hl]
    split at hk
    · rename_i hempty
      have ⟨hl₁, hw⟩ := runs_lastBare hk
      rw [hl₁, hw]
      exact .registerEmpty hparse hempty
    · rename_i hname
      have ⟨w₁, l₂, hw₁, hl₁, hret⟩ := runs_register hk
      have ⟨hnil, _, hw⟩ := hret.of_ret
      rw [hl₁, hnil, hw, hw₁]
      exact .register _ hparse hname ⟨_, rfl⟩

/-- A handler that needs a registration replies 401, or handles the frame for
the session of its descriptor. -/
theorem withSession_runs {body : SessionRef → Prog Server Unit} {msgType : UInt8}
    (htype : needsSession msgType = true)
    (h : (machine cfg).Runs (.handler c) (withSession fd body) w l () w')
    (hbody : ∀ s l', w.mem.getSession fd = some s →
      (machine cfg).Runs (.handler c) (body s) w l' () w' →
      Handled cfg c fd payload w.mem msgType (writtenBy l') w'.mem) :
    Handled cfg c fd payload w.mem msgType (writtenBy l) w'.mem := by
  simp only [withSession, mem_eq, Prog.call_bind, Prog.ret_bind] at h
  obtain ⟨ch, r, m₁, l₁, he, hl, hk⟩ := runs_mem h
  have hr : w.mem.getSession fd = r ∧ w.mem = m₁ := Prod.mk.inj (Option.some.inj he)
  rw [← hr.2] at hk
  rw [hl]
  cases r with
  | none =>
    obtain ⟨hl₁, hw⟩ := runs_lastBare hk
    rw [hl₁, hw]
    exact .notRegistered htype hr.1
  | some s => exact hbody s l₁ hr.1 hk

/-- The reply to a payload that does not parse. -/
theorem malformed_runs {msgType : UInt8} {s : SessionRef} {text : String}
    (hs : w.mem.getSession fd = some s) (hparse : Malformed cfg payload msgType text)
    (h : (machine cfg).Runs (.handler c)
      (sendResponseDirect s StatusCode.BAD_REQUEST text false) w l () w') :
    Handled cfg c fd payload w.mem msgType (writtenBy l) w'.mem := by
  have ⟨hl, hw⟩ := runs_lastLocked h
  rw [hl, hw]
  exact .malformed hs hparse

theorem handleMessageGeneral_runs
    (h : (machine cfg).Runs (.handler c) (handleMessageGeneral cfg fd payload) w l () w') :
    Handled cfg c fd payload w.mem MsgType.MESSAGE_GENERAL (writtenBy l) w'.mem := by
  refine withSession_runs rfl h fun s l hs h => ?_
  split at h
  · rename_i hparse
    exact malformed_runs hs (.general hparse) h
  · rename_i msg hparse
    have ⟨_, w₁, l₁, l₂, hl, hrestore, hk⟩ := h.of_bind
    have ⟨hl₁, hw₁⟩ := maybeRestoreActivity_runs hrestore
    simp only [mem_eq, Prog.call_bind, Prog.ret_bind] at hk
    have ⟨_, _, _, l₃, he, hl₂, hk⟩ := runs_mem hk
    cases he
    have ⟨ch, targets, m₂, l₄, he, hl₃, hk⟩ := runs_mem hk
    have hframe : w.mem.Frame w₁.mem := hw₁ ▸ Memory.frame_active w.mem s
    change (if w₁.mem.IterationOrder ch.order then _ else _) = _ at he
    split at he
    · rename_i horder
      cases he
      have ⟨hl₄, hw⟩ := runs_sendEach hk
      rw [hl, writtenBy_append, hl₁, hl₂, hl₃, hl₄, hw, hframe.aliveSessions, hframe.username]
      show Handled _ _ _ _ _ _ _ w₁.mem
      rw [hw₁]
      exact .general hs hparse ((hframe.iterationOrder _).1 horder)
    · cases he

theorem handleMessageDm_runs
    (h : (machine cfg).Runs (.handler c) (handleMessageDm cfg fd payload) w l () w') :
    Handled cfg c fd payload w.mem MsgType.MESSAGE_DM (writtenBy l) w'.mem := by
  refine withSession_runs rfl h fun s l hs h => ?_
  split at h
  · rename_i hparse
    exact malformed_runs hs (.dm hparse) h
  · rename_i msg hparse
    have ⟨_, w₁, l₁, l₂, hl, hrestore, hk⟩ := h.of_bind
    have ⟨hl₁, hw₁⟩ := maybeRestoreActivity_runs hrestore
    have hframe : w.mem.Frame w₁.mem := hw₁ ▸ Memory.frame_active w.mem s
    simp only [mem_eq, Prog.call_bind, Prog.ret_bind] at hk
    have ⟨l₃, hl₂, hk⟩ := runs_look (fun _ _ => rfl) hk
    have ⟨l₄, hl₃, hk⟩ := runs_look (fun _ _ => rfl) hk
    rw [hframe.findUser] at hk
    rw [hl, writtenBy_append, hl₁, hl₂, hl₃]
    cases hdest : w.mem.findUser msg.usernameDes with
    | none =>
      rw [hdest] at hk
      have ⟨hl₄, hw⟩ := runs_lastLocked hk
      rw [hl₄, hw, hw₁]
      exact .dmNotFound hs hparse hdest
    | some d =>
      rw [hdest] at hk
      have ⟨l₅, hl₄, hk⟩ := runs_look (fun _ _ => rfl) hk
      have hdm := Handled.dm (c := c) hs hparse hdest
      rw [← hframe.alive, ← hframe.username, ← hw₁] at hdm
      rw [hl₄]
      split at hk
      · rename_i halive
        have ⟨w₂, l₆, hw₂, hl₅, hk⟩ := runs_sendLocked hk
        have ⟨hl₆, hw⟩ := runs_lastLocked hk
        rw [if_pos halive] at hdm
        rw [hl₅, hl₆, hw, hw₂]
        exact hdm
      · rename_i hdead
        have ⟨hl₅, hw⟩ := runs_lastLocked hk
        rw [if_neg hdead] at hdm
        rw [hl₅, hw]
        exact hdm

theorem handleChangeStatus_runs
    (h : (machine cfg).Runs (.handler c) (handleChangeStatus cfg fd payload) w l () w') :
    Handled cfg c fd payload w.mem MsgType.CHANGE_STATUS (writtenBy l) w'.mem := by
  refine withSession_runs rfl h fun s l hs h => ?_
  split at h
  · rename_i hparse
    exact malformed_runs hs (.changeStatus hparse) h
  · rename_i cs hparse
    dsimp only at h
    split at h
    · rename_i hinvalid
      have ⟨hl, hw⟩ := runs_lastLocked h
      rw [hl, hw]
      refine .invalidStatus hs hparse ?_
      simpa [validStatus] using hinvalid
    · rename_i hvalid
      have ⟨_, _, m₁, l₁, he, hl, hk⟩ := runs_mem h
      cases he
      have ⟨_, _, m₂, l₂, he, hl₁, hk⟩ := runs_mem hk
      cases he
      have ⟨hl₂, hw⟩ := runs_lastLocked hk
      rw [hl, hl₁, hl₂, hw]
      refine .changeStatus hs hparse ?_
      by_contra hne
      simp [validStatus] at hne
      exact hvalid hne

theorem handleListUsers_runs
    (h : (machine cfg).Runs (.handler c) (handleListUsers cfg fd payload) w l () w') :
    Handled cfg c fd payload w.mem MsgType.LIST_USERS (writtenBy l) w'.mem := by
  refine withSession_runs rfl h fun s l hs h => ?_
  split at h
  · rename_i hparse
    exact malformed_runs hs (.listUsers hparse) h
  · rename_i msg hparse
    simp only [mem_eq, Prog.call_bind, Prog.ret_bind] at h
    have ⟨_, _, _, l₁, he, hl, hk⟩ := runs_mem h
    cases he
    have ⟨ch, users, _, l₂, he, hl₁, hk⟩ := runs_mem hk
    change (if (w.mem.touch s).IterationOrder ch.order then _ else _) = _ at he
    split at he
    · rename_i horder
      cases he
      have ⟨hl₂, hw⟩ := runs_lastLocked hk
      rw [hl, hl₁, hl₂, hw]
      show Handled _ _ _ _ _ _ [⟨some s, .allUsers
        ⟨(cfg.sort ((w.mem.touch s).listSessions ch.order)).map Prod.fst,
          (cfg.sort ((w.mem.touch s).listSessions ch.order)).map Prod.snd⟩⟩] (w.mem.touch s)
      rw [Memory.listSessions_touch]
      exact .listUsers hs hparse (((Memory.frame_touch s).iterationOrder _).1 horder)
    · cases he

theorem handleGetUserInfo_runs
    (h : (machine cfg).Runs (.handler c) (handleGetUserInfo cfg fd payload) w l () w') :
    Handled cfg c fd payload w.mem MsgType.GET_USER_INFO (writtenBy l) w'.mem := by
  refine withSession_runs rfl h fun s l hs h => ?_
  split at h
  · rename_i hparse
    exact malformed_runs hs (.getUserInfo hparse) h
  · rename_i msg hparse
    simp only [mem_eq, Prog.call_bind, Prog.ret_bind] at h
    have ⟨_, _, _, l₁, he, hl, hk⟩ := runs_mem h
    cases he
    have ⟨l₂, hl₁, hk⟩ := runs_look (fun _ _ => rfl) hk
    have hframe := Memory.frame_touch (m := w.mem) s
    rw [hl, hl₁]
    dsimp only at hk
    rw [hframe.findUser] at hk
    cases hdest : w.mem.findUser msg.usernameDes with
    | none =>
      rw [hdest] at hk
      have ⟨hl₂, hw⟩ := runs_lastLocked hk
      rw [hl₂, hw]
      exact .userNotFound hs hparse hdest
    | some d =>
      rw [hdest] at hk
      have ⟨l₃, hl₂, hk⟩ := runs_look (fun _ _ => rfl) hk
      have ⟨hl₃, hw⟩ := runs_lastLocked hk
      have hinfo := Handled.userInfo (c := c) hs hparse hdest
      rw [← hframe.ip, ← hframe.username, ← Memory.touch_status] at hinfo
      rw [hl₂, hl₃, hw]
      exact hinfo

theorem handleQuit_runs
    (h : (machine cfg).Runs (.handler c) (handleQuit cfg fd payload) w l () w') :
    Handled cfg c fd payload w.mem MsgType.QUIT (writtenBy l) w'.mem := by
  simp only [handleQuit, mem_eq, Prog.call_bind, Prog.ret_bind] at h
  obtain ⟨l₁, hl, hk⟩ := runs_look (fun _ _ => rfl) h
  rw [hl]
  split at hk
  · rename_i hparse
    obtain ⟨hnil, _, hw⟩ := hk.of_ret
    rw [hnil, hw]
    exact .quitSilent (Or.inl hparse)
  · rename_i msg hparse
    cases hs : w.mem.getSession fd with
    | none =>
      rw [hs] at hk
      obtain ⟨hnil, _, hw⟩ := hk.of_ret
      rw [hnil, hw]
      exact .quitSilent (Or.inr hs)
    | some s =>
      rw [hs] at hk
      obtain ⟨hl₁, hw⟩ := runs_lastLocked hk
      rw [hl₁, hw]
      exact .quit hs hparse

/-- A handler execution that nobody interferes with is one of the list. -/
theorem handled_of_runs {msgType : UInt8}
    (h : (machine cfg).Runs (.handler c) (handleFrame cfg fd msgType payload) w l () w') :
    Handled cfg c fd payload w.mem msgType (writtenBy l) w'.mem := by
  unfold handleFrame at h
  split_ifs at h with h1 h2 h3 h4 h5 h6 h7
  · exact h1 ▸ handleRegister_runs h
  · exact h2 ▸ handleMessageGeneral_runs h
  · exact h3 ▸ handleMessageDm_runs h
  · exact h4 ▸ handleChangeStatus_runs h
  · exact h5 ▸ handleListUsers_runs h
  · exact h6 ▸ handleGetUserInfo_runs h
  · exact h7 ▸ handleQuit_runs h
  · have ⟨hl, hw⟩ := runs_lastBare h
    rw [hl, hw]
    exact .unknown (by simp [h1, h2, h3, h4, h5, h6, h7])

end Handlers

end SimpleChat
