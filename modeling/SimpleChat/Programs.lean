import SimpleChat.Server

/-!
# What the programs may do

The functions of `server.cpp` perform operations of a few kinds.  This module
walks each program once and says which kinds they are.  What holds of every
operation of a kind then holds of the program, by `Prog.Only.mono` and
`SessionHandler.only`.
-/

namespace SimpleChat

open Conc

/-! ## Kinds of operations -/

/-- What a handler does for the session `s` that it has found, but for the
deliveries and the list of users. -/
inductive BodyOp (s : SessionRef) : ServerOp → Prop where
  | restore : BodyOp s (.mem (.restore s))
  | touch : BodyOp s (.mem (.touch s))
  | setStatus {st : StatusEnum}
      (h : ¬ (st ≠ .ACTIVE ∧ st ≠ .DO_NOT_DISTURB ∧ st ≠ .INVISIBLE)) :
      BodyOp s (.mem (.setStatus s st))
  | read (t : SessionRef) : BodyOp s (.mem (.read t))
  | findUser (username : String) : BodyOp s (.mem (.findUser username))
  | aliveSessions : BodyOp s (.mem .aliveSessions)
  | reply (code : Int) (text : String) (success : Bool) :
      BodyOp s (.sendLocked s (response code text success))
  | userInfo (m : GetUserInfoResponse) : BodyOp s (.sendLocked s (.getUserInfoResponse m))

/-- The frames that carry a text from one user to another. -/
inductive DeliveryOp : ServerOp → Prop where
  | broadcast (t : SessionRef) (m : BroadcastDelivery) :
      DeliveryOp (.sendLocked t (.broadcastDelivery m))
  | dm (t : SessionRef) (m : ForDm) : DeliveryOp (.sendLocked t (.forDm m))

/-- The snapshot of `handle_list_users`, and the reply with it. -/
inductive ListOp (s : SessionRef) : ServerOp → Prop where
  | snapshot : ListOp s (.mem .listSessions)
  | list (m : AllUsers) : ListOp s (.sendLocked s (.allUsers m))

inductive RegisterOp (fd : Fd) : ServerOp → Prop where
  | getPeerIp : RegisterOp fd (.mem (.getPeerIp fd))
  | reply (code : Int) (text : String) : RegisterOp fd (.sendBare fd (response code text false))
  | register {username : String} (peerIp : String) (h : username ≠ "") :
      RegisterOp fd (.register fd username peerIp)

inductive QuitOp (fd : Fd) : ServerOp → Prop where
  | getSession : QuitOp fd (.mem (.getSession fd))
  | reply (s : SessionRef) :
      QuitOp fd (.sendLocked s (response StatusCode.OK_QUIT "Goodbye!" true))

/-- What the watchdog does. -/
inductive TurnOp : ServerOp → Prop where
  | running : TurnOp (.mem .running)
  | now : TurnOp (.mem .now)
  | markIdle (now : Int) : TurnOp (.mem (.markIdle now))
  | notify (s : SessionRef) (text : String) :
      TurnOp (.sendLocked s (response StatusCode.AUTO_INACTIVE text true))

/-! ## Handlers of a session -/

/-- The program looks the session of `fd` up first, and performs operations of `P`
for it from there on. -/
def SessionHandler (fd : Fd) (P : SessionRef → ServerOp → Prop) (p : Prog Server Unit) : Prop :=
  ∃ body, p = withSession fd body ∧ ∀ s, (body s).Only (P s)

theorem SessionHandler.mono {fd : Fd} {P Q : SessionRef → ServerOp → Prop} {p : Prog Server Unit}
    (h : SessionHandler fd P p) (hPQ : ∀ s o, P s o → Q s o) : SessionHandler fd Q p := by
  obtain ⟨body, hp, hbody⟩ := h
  exact ⟨body, hp, fun s => (hbody s).mono (hPQ s)⟩

theorem SessionHandler.only {fd : Fd} {P : SessionRef → ServerOp → Prop} {Q : ServerOp → Prop}
    {p : Prog Server Unit} (h : SessionHandler fd P p) (hfind : Q (.mem (.getSession fd)))
    (hnone : Q (.sendBare fd (response StatusCode.NOT_REGISTERED "Not registered" false)))
    (hPQ : ∀ s o, P s o → Q o) : p.Only Q := by
  obtain ⟨body, rfl, hbody⟩ := h
  simp only [withSession, mem_eq, Prog.call_bind, Prog.ret_bind, Prog.only_call]
  refine ⟨hfind, fun r => ?_⟩
  cases r with
  | none => exact ⟨hnone, fun _ => trivial⟩
  | some s => exact (hbody s).mono (hPQ s)

/-! ## The programs -/

variable (cfg : Config) (fd : Fd) (payload : Bytes)

theorem reply_only {P : ServerOp → Prop} {s : SessionRef} {code : Int} {text : String}
    {success : Bool} (hP : ∀ o, BodyOp s o → P o) :
    (Prog.call (S := Server) (.sendLocked s (response code text success)) .ret).Only P :=
  ⟨hP _ (.reply code text success), fun _ => trivial⟩

theorem maybeRestoreActivity_only (s : SessionRef) :
    (maybeRestoreActivity s).Only (BodyOp s) := by
  simp only [maybeRestoreActivity, mem_eq, Prog.call_bind, Prog.ret_bind, Prog.only_call]
  refine ⟨.restore, fun restored => ?_⟩
  cases restored with
  | false => exact ⟨.touch, fun _ => trivial⟩
  | true => exact ⟨.reply _ _ _, fun _ => ⟨.touch, fun _ => trivial⟩⟩

theorem handleMessageGeneral_only :
    SessionHandler fd (fun s o => BodyOp s o ∨ DeliveryOp o)
      (handleMessageGeneral cfg fd payload) := by
  refine ⟨_, rfl, fun s => ?_⟩
  split
  · exact reply_only fun _ => Or.inl
  · refine ((maybeRestoreActivity_only s).mono fun _ => Or.inl).bind fun _ => ?_
    simp only [mem_eq, Prog.call_bind, Prog.ret_bind, Prog.only_call]
    refine ⟨Or.inl (.read s), fun _ => ⟨Or.inl .aliveSessions, fun targets => ?_⟩⟩
    exact Prog.Only.forM fun t _ => .perform (Or.inr (.broadcast t _))

theorem handleMessageDm_only :
    SessionHandler fd (fun s o => BodyOp s o ∨ DeliveryOp o) (handleMessageDm cfg fd payload) := by
  refine ⟨_, rfl, fun s => ?_⟩
  split
  · exact reply_only fun _ => Or.inl
  · refine ((maybeRestoreActivity_only s).mono fun _ => Or.inl).bind fun _ => ?_
    simp only [mem_eq, Prog.call_bind, Prog.ret_bind, Prog.only_call]
    refine ⟨Or.inl (.read s), fun _ => ⟨Or.inl (.findUser _), fun dest => ?_⟩⟩
    cases dest with
    | none => exact reply_only fun _ => Or.inl
    | some d =>
      refine ⟨Or.inl (.read d), fun j => ?_⟩
      dsimp only [Prog.ret_bind]
      split
      · exact ⟨Or.inr (.dm d _), fun _ => reply_only fun _ => Or.inl⟩
      · exact reply_only fun _ => Or.inl

theorem handleChangeStatus_only : SessionHandler fd BodyOp (handleChangeStatus cfg fd payload) := by
  refine ⟨_, rfl, fun s => ?_⟩
  split
  · exact reply_only fun _ => id
  · dsimp only
    split
    · exact reply_only fun _ => id
    · rename_i hvalid
      exact ⟨.setStatus hvalid, fun _ => ⟨.touch, fun _ => reply_only fun _ => id⟩⟩

theorem handleListUsers_only :
    SessionHandler fd (fun s o => BodyOp s o ∨ ListOp s o) (handleListUsers cfg fd payload) := by
  refine ⟨_, rfl, fun s => ?_⟩
  split
  · exact reply_only fun _ => Or.inl
  · refine ⟨Or.inl .touch, fun _ => ⟨Or.inr .snapshot, fun users => ?_⟩⟩
    exact ⟨Or.inr (.list _), fun _ => trivial⟩

theorem handleGetUserInfo_only : SessionHandler fd BodyOp (handleGetUserInfo cfg fd payload) := by
  refine ⟨_, rfl, fun s => ?_⟩
  split
  · exact reply_only fun _ => id
  · simp only [mem_eq, Prog.call_bind, Prog.ret_bind, Prog.only_call]
    refine ⟨.touch, fun _ => ⟨.findUser _, fun target => ?_⟩⟩
    cases target with
    | none => exact reply_only fun _ => id
    | some d => exact ⟨.read d, fun _ => ⟨.userInfo _, fun _ => trivial⟩⟩

theorem handleRegister_only : (handleRegister cfg fd payload).Only (RegisterOp fd) := by
  unfold handleRegister
  split
  · exact ⟨.reply _ _, fun _ => trivial⟩
  · simp only [mem_eq, Prog.call_bind, Prog.ret_bind, Prog.only_call]
    refine ⟨.getPeerIp, fun peerIp => ?_⟩
    split
    · exact ⟨.reply _ _, fun _ => trivial⟩
    · rename_i hu
      exact ⟨.register peerIp hu, fun _ => trivial⟩

theorem handleQuit_only : (handleQuit cfg fd payload).Only (QuitOp fd) := by
  simp only [handleQuit, mem_eq, Prog.call_bind, Prog.ret_bind, Prog.only_call]
  refine ⟨.getSession, fun session => ?_⟩
  split
  · trivial
  · cases session with
    | none => trivial
    | some s => exact ⟨.reply s, fun _ => trivial⟩

theorem watchdogLoop_only : (watchdogLoop cfg).Only TurnOp := by
  simp only [watchdogLoop, mem_eq, Prog.call_bind, Prog.ret_bind, Prog.only_call]
  refine ⟨.running, fun running => ?_⟩
  split
  · trivial
  refine ⟨.running, fun running => ?_⟩
  dsimp only [Prog.ret_bind]
  split
  · trivial
  refine ⟨.now, fun now => ⟨.markIdle now, fun toNotify => ?_⟩⟩
  exact Prog.Only.bind (Prog.Only.forM fun s _ => .perform (.notify s _)) fun _ => trivial

end SimpleChat
