import SimpleChat.Data.SortsBy
import SimpleChat.DirectMessages
import SimpleChat.Handling
import SimpleChat.Ownership

/-!
# The list of users

`handle_list_users` takes the names and the statuses of the registered sessions in
the iteration order of an unordered map, sorts them by name, and sends two parallel
lists.  The comparator ignores the status, so the reply is determined only because no
two registered sessions share a name.

`ListReply` is what the reply says about the registry at the moment of the snapshot,
and `list_users_reply` that every reply is of this kind.
-/

namespace SimpleChat

open Conc Function Data

/-- `operator<` of `std::string`: the bytes as unsigned values, in lexicographic
order. -/
def stringLt (a b : String) : Prop := a.toUTF8.data.toList < b.toUTF8.data.toList

instance : DecidableRel stringLt := fun _ _ => inferInstanceAs (Decidable (_ < _))

instance : Std.Asymm stringLt where
  asymm _ _ := Std.Asymm.asymm (r := ((· < ·) : List UInt8 → _ → _)) _ _

instance : Std.Trichotomous stringLt where
  trichotomous a b hab hba := by
    have hbytes : a.toUTF8.data.toList = b.toUTF8.data.toList :=
      Std.Trichotomous.trichotomous (r := (· < ·)) _ _ hab hba
    exact String.toByteArray_inj.1 (ByteArray.ext (Array.toList_inj.1 hbytes))

theorem stringLt_trans {a b c : String} (hab : stringLt a b) (hbc : stringLt b c) :
    stringLt a c := List.lt_trans hab hbc

/-- What `std::sort` does with the comparator of `handle_list_users`. -/
abbrev SortsByName (sort : List (String × StatusEnum) → List (String × StatusEnum)) : Prop :=
  SortsBy Prod.fst stringLt sort

/-- The message that `handle_list_users` builds from the sorted list. -/
def allUsersOf (users : List (String × StatusEnum)) : AllUsers :=
  { usernames := users.map Prod.fst, status := users.map Prod.snd }

/-! ## The reply and the registry -/

/-- The reply `r` through session `s` is the list of the sessions in the registry. -/
structure ListReply (cfg : Config) (m : Memory) (s : SessionRef) (r : AllUsers) : Prop where
  aligned : r.usernames.length = r.status.length
  increasing : r.usernames.Pairwise stringLt
  names : ∀ u, u ∈ r.usernames ↔
    ∃ fd t, m.registry.sessions.lookup fd = some t ∧ (m.heap t).username = u
  requester : (m.heap s).username ∈ r.usernames
  statuses : ∀ (i : Nat) fd t, m.registry.sessions.lookup fd = some t →
    r.usernames[i]? = some (m.heap t).username →
      r.status[i]? = some (m.heap t).status ∧ validStatus (m.heap t).status = true
  /-- No iteration order gives another reply. -/
  determined : ∀ order, m.IterationOrder order → allUsersOf (cfg.sort (m.listSessions order)) = r

namespace Memory

variable {m : Memory} {order order' : List Fd}

/-- The names in the list are distinct. -/
theorem Consistent.listSessions_nodup (h : m.Consistent) (horder : m.IterationOrder order) :
    ((m.listSessions order).map Prod.fst).Nodup := by
  have ⟨hnodup, hmem⟩ := h.visited horder
  rw [listSessions, List.map_map]
  refine hnodup.map_on fun s hs s' hs' hname => ?_
  have ⟨fd, hfd⟩ := (hmem s).1 hs
  have ⟨fd', hfd'⟩ := (hmem s').1 hs'
  have hsame : fd = fd' := h.names.injective hfd hfd' hname
  rw [hsame, hfd', Option.some.injEq] at hfd
  exact hfd.symm

/-- Iteration orders differ in the order only. -/
theorem listSessions_perm (horder : m.IterationOrder order) (horder' : m.IterationOrder order') :
    (m.listSessions order).Perm (m.listSessions order') := by
  have hperm : order.Perm order' := Multiset.coe_eq_coe.1 (horder.trans horder'.symm)
  exact (hperm.filterMap _).map _

/-- Any iteration order gives the reply, and it is right. -/
theorem Consistent.listReply {cfg : Config} {s : SessionRef} {fd : Fd} (h : m.Consistent)
    (hsort : SortsByName cfg.sort) (hstatus : ∀ t, validStatus (m.heap t).status = true)
    (hs : m.registry.sessions.lookup fd = some s) (horder : m.IterationOrder order) :
    ListReply cfg m s (allUsersOf (cfg.sort (m.listSessions order))) := by
  have ⟨_, hvisited⟩ := h.visited horder
  have hkeys := h.listSessions_nodup horder
  have hmem : ∀ x, x ∈ cfg.sort (m.listSessions order) ↔
      ∃ fd t, m.registry.sessions.lookup fd = some t ∧
        ((m.heap t).username, (m.heap t).status) = x := by
    intro x
    rw [(hsort.perm _).mem_iff, listSessions, List.mem_map]
    simp only [hvisited]
    constructor
    · intro ⟨t, ⟨k, hk⟩, hx⟩
      exact ⟨k, t, hk, hx⟩
    · intro ⟨k, t, hk, hx⟩
      exact ⟨t, ⟨k, hk⟩, hx⟩
  have hnames : ∀ u, u ∈ (cfg.sort (m.listSessions order)).map Prod.fst ↔
      ∃ fd t, m.registry.sessions.lookup fd = some t ∧ (m.heap t).username = u := by
    intro u
    rw [List.mem_map]
    constructor
    · intro ⟨x, hx, hu⟩
      have ⟨k, t, hk, ht⟩ := (hmem x).1 hx
      exact ⟨k, t, hk, by rw [← hu, ← ht]⟩
    · intro ⟨k, t, hk, hu⟩
      exact ⟨_, (hmem _).2 ⟨k, t, hk, rfl⟩, hu⟩
  refine ⟨?_, hsort.increasing hkeys, hnames, (hnames _).2 ⟨fd, s, hs, rfl⟩, ?_, ?_⟩
  · rw [allUsersOf, List.length_map, List.length_map]
  · intro i k t hk hi
    refine ⟨?_, hstatus t⟩
    have ⟨x, hx, hname⟩ : ∃ x, (cfg.sort (m.listSessions order))[i]? = some x ∧
        x.1 = (m.heap t).username := by
      rwa [allUsersOf, List.getElem?_map, Option.map_eq_some_iff] at hi
    have ⟨k', t', hk', ht'⟩ := (hmem x).1 (List.mem_of_getElem? hx)
    have hsame : k' = k := h.names.injective hk' hk (by rw [← hname, ← ht'])
    rw [hsame, hk, Option.some.injEq] at hk'
    rw [allUsersOf, List.getElem?_map, hx, ← ht', hk']
    rfl
  · intro order' horder'
    rw [hsort.eq_of_perm (h.listSessions_nodup horder') (listSessions_perm horder' horder)]

/-! ## Statuses -/

/-- No session has a status outside the three values. -/
def ValidStatuses (m : Memory) : Prop := ∀ s, validStatus (m.heap s).status = true

theorem ValidStatuses.modify {s : SessionRef} {f : SessionInfo → SessionInfo}
    (h : m.ValidStatuses) (hf : validStatus (f (m.heap s)).status = true) :
    (m.modify s f).ValidStatuses := by
  intro t
  by_cases ht : t = s
  · rw [ht]
    simpa [Memory.modify] using hf
  · simpa [Memory.modify, ht] using h t

theorem ValidStatuses.register (h : m.ValidStatuses) (c : ConnId) (fd : Fd) (u a : String) :
    (m.register c fd u a).2.ValidStatuses := by
  rcases register_cases_created m c fd u a with ⟨_, he⟩ | ⟨_, _, _, he⟩ <;> rw [he]
  · exact h
  · intro t
    by_cases ht : t = m.nextRef
    · simp [ht, validStatus]
    · simpa [ht] using h t

theorem ValidStatuses.removeSession (h : m.ValidStatuses) (fd : Fd) :
    (m.removeSession fd).ValidStatuses := by
  intro s
  rw [removeSession_heap]
  split
  · exact h s
  · exact h s

theorem ValidStatuses.markIdle (h : m.ValidStatuses) (idle now : Int) (todo : List SessionRef) :
    (Memory.markIdle idle now todo m).2.ValidStatuses := by
  intro t
  rw [markIdle_heap]
  split
  · rfl
  · exact h t

/-- An operation keeps the statuses, if the one that it sets is a value. -/
theorem ValidStatuses.exec {m' : Memory} {idle : Int} {o : MemOp} {ch : Choice} {r : o.Resp}
    (h : m.ValidStatuses) (hset : ∀ s st, o = .setStatus s st → validStatus st = true)
    (he : m.exec idle o ch = some (r, m')) : m'.ValidStatuses := by
  cases o with
  | recv fd len =>
    change m.recv fd len ch.want = _ at he
    rcases recv_cases he with ⟨_, _, hm⟩ | ⟨_, _, _, _, _, hm⟩ | ⟨c, bs, _, _, _, _, hm⟩ <;>
      rw [hm] <;> exact h
  | removeSession fd =>
    cases he
    exact h.removeSession fd
  | restore s =>
    have hm : (m.restore s).2 = m' := congrArg Prod.snd (Option.some.inj he)
    rw [← hm, restore]
    split
    · exact h.modify (f := fun i => { i with status := .ACTIVE, manualStatus := .ACTIVE }) rfl
    · exact h
  | setStatus s st =>
    cases he
    exact h.modify (hset s st rfl)
  | touch s =>
    cases he
    exact h.modify (h s)
  | markIdle now =>
    change (if _ then some _ else none) = _ at he
    split at he
    · have hm : (Memory.markIdle idle now (m.visited ch.order) m).2 = m' :=
        congrArg Prod.snd (Option.some.inj he)
      rw [← hm]
      exact h.markIdle _ _ _
    · cases he
  | aliveSessions | listSessions =>
    change (if _ then some _ else none) = _ at he
    split at he
    · cases he
      exact h
    · cases he
  | dispatch | running | getPeerIp | getSession | findUser | read | now | close =>
    cases he
    exact h

end Memory

/-! ## What a handler lists -/

/-- The session that a handler looked up last, and the snapshot that it has not
replied with yet. -/
structure Lister where
  session : Option SessionRef := none
  users : Option (List (String × StatusEnum)) := none

def Lister.after (q : Lister) : (o : ServerOp) → o.Resp → Lister
  | .mem (.getSession _), s => { session := s }
  | .mem .listSessions, users => { q with users := some users }
  | _, _ => { q with users := none }

/-- The operation does nothing with the list of users, and sets no status outside the
three values. -/
def ListsNothing : ServerOp → Prop
  | .mem .listSessions => False
  | .mem (.setStatus _ st) => validStatus st = true
  | .sendBare _ (.allUsers _) => False
  | .sendLocked _ (.allUsers _) => False
  | _ => True

/-- After the snapshot the reply is due. -/
def Lister.Allows (cfg : Config) (q : Lister) (o : ServerOp) : Prop :=
  match q.users with
  | none => ListsNothing o ∨ o = .mem .listSessions ∧ q.session.isSome = true
  | some users => ∃ s, q.session = some s ∧
    o = .sendLocked s (.allUsers (allUsersOf (cfg.sort users)))

def listerMonitor (cfg : Config) : Prog.Monitor Server Lister :=
  .det (fun q o => q.Allows cfg o) fun q o r => q.after o r

/-- The program replies to every snapshot that it takes, and sends no other list. -/
abbrev Lists {α : Type} (cfg : Config) (p : Prog Server α) (q : Lister) : Prop :=
  p.Obeys (listerMonitor cfg) (fun _ q' => q'.users = none) q

section Programs

variable {cfg : Config} {fd : Fd} {payload : Bytes}

theorem obeys_lister_call {α : Type} {o : ServerOp} {k : o.Resp → Prog Server α} {q : Lister}
    {post : α → Lister → Prop} :
    (Prog.call (S := Server) o k).Obeys (listerMonitor cfg) post q ↔
      q.Allows cfg o ∧ ∀ r, (k r).Obeys (listerMonitor cfg) post (q.after o r) :=
  Prog.obeys_det_call

theorem ListsNothing.after {o : ServerOp} (h : ListsNothing o) (q : Lister) (r : o.Resp) :
    (q.after o r).users = none := by
  unfold Lister.after
  split
  · rfl
  · exact h.elim
  · rfl

theorem ListsNothing.allows {o : ServerOp} (h : ListsNothing o) {q : Lister}
    (hq : q.users = none) : q.Allows cfg o := by
  rw [Lister.Allows, hq]
  exact Or.inl h

theorem lists_call {α : Type} {o : ServerOp} {k : o.Resp → Prog Server α} {q : Lister}
    (ho : ListsNothing o) (hq : q.users = none) (hk : ∀ r, Lists cfg (k r) (q.after o r)) :
    Lists cfg (.call (S := Server) o k) q := obeys_lister_call.2 ⟨ho.allows hq, hk⟩

/-- A program that does nothing with the list of users. -/
theorem lists_of_only {α : Type} {p : Prog Server α} (h : p.Only ListsNothing) {q : Lister}
    (hq : q.users = none) : Lists cfg p q := by
  induction p generalizing q with
  | ret a => exact hq
  | call o k ih =>
    exact lists_call h.1 hq fun r => ih r (h.2 r) (h.1.after q r)

theorem reply_listsNothing (s : SessionRef) (code : Int) (text : String) (b : Bool) :
    (Prog.call (S := Server) (.sendLocked s (response code text b)) .ret).Only ListsNothing :=
  ⟨trivial, fun _ => trivial⟩

theorem bareReply_listsNothing (code : Int) (text : String) (b : Bool) :
    (Prog.call (S := Server) (.sendBare fd (response code text b)) .ret).Only ListsNothing :=
  ⟨trivial, fun _ => trivial⟩

theorem BodyOp.listsNothing {s : SessionRef} {o : ServerOp} (h : BodyOp s o) : ListsNothing o := by
  cases h with
  | setStatus hvalid =>
    show validStatus _ = true
    rw [validStatus, decide_eq_true_eq]
    by_contra hnot
    exact hvalid (by simpa only [not_or] using hnot)
  | _ => trivial

theorem DeliveryOp.listsNothing {o : ServerOp} (h : DeliveryOp o) : ListsNothing o := by
  cases h <;> trivial

theorem handleRegister_listsNothing : (handleRegister cfg fd payload).Only ListsNothing :=
  (handleRegister_only cfg fd payload).mono fun _ ho => by cases ho <;> trivial

theorem handleMessageGeneral_listsNothing :
    (handleMessageGeneral cfg fd payload).Only ListsNothing :=
  (handleMessageGeneral_only cfg fd payload).only trivial trivial fun _ _ ho =>
    ho.elim BodyOp.listsNothing DeliveryOp.listsNothing

theorem handleMessageDm_listsNothing : (handleMessageDm cfg fd payload).Only ListsNothing :=
  (handleMessageDm_only cfg fd payload).only trivial trivial fun _ _ ho =>
    ho.elim BodyOp.listsNothing DeliveryOp.listsNothing

theorem handleChangeStatus_listsNothing : (handleChangeStatus cfg fd payload).Only ListsNothing :=
  (handleChangeStatus_only cfg fd payload).only trivial trivial fun _ _ ho => ho.listsNothing

theorem handleGetUserInfo_listsNothing : (handleGetUserInfo cfg fd payload).Only ListsNothing :=
  (handleGetUserInfo_only cfg fd payload).only trivial trivial fun _ _ ho => ho.listsNothing

theorem handleQuit_listsNothing : (handleQuit cfg fd payload).Only ListsNothing :=
  (handleQuit_only cfg fd payload).mono fun _ ho => by cases ho <;> trivial

theorem handleListUsers_lists {q : Lister} (hq : q.users = none) :
    Lists cfg (handleListUsers cfg fd payload) q := by
  simp only [handleListUsers, withSession, mem_eq, Prog.call_bind, Prog.ret_bind]
  refine lists_call trivial hq fun r => ?_
  cases r with
  | none => exact lists_of_only (bareReply_listsNothing _ _ _) rfl
  | some s =>
    dsimp only
    split
    · exact lists_of_only (reply_listsNothing s _ _ _) rfl
    · refine lists_call trivial rfl fun _ => ?_
      refine obeys_lister_call.2 ⟨Or.inr ⟨rfl, rfl⟩, fun users => ?_⟩
      exact obeys_lister_call.2 ⟨⟨s, rfl, rfl⟩, fun _ => rfl⟩

theorem handleFrame_lists (msgType : UInt8) {q : Lister} (hq : q.users = none) :
    Lists cfg (handleFrame cfg fd msgType payload) q :=
  handleFrame_cases (R := fun p => Lists cfg p q) msgType
    (lists_of_only handleRegister_listsNothing hq)
    (lists_of_only handleMessageGeneral_listsNothing hq)
    (lists_of_only handleMessageDm_listsNothing hq)
    (lists_of_only handleChangeStatus_listsNothing hq) (handleListUsers_lists hq)
    (lists_of_only handleGetUserInfo_listsNothing hq)
    (lists_of_only handleQuit_listsNothing hq)
    (lists_of_only (bareReply_listsNothing _ _ _) hq)

theorem handleClient_lists {q : Lister} (hq : q.users = none) :
    Lists cfg (handleClient cfg fd) q := by
  simp only [handleClient, mem_eq, Prog.call_bind, Prog.ret_bind]
  refine lists_call trivial hq fun running => ?_
  cases running with
  | false => rfl
  | true =>
    show Lists cfg (_ >>= _) _
    have hrecv : ((recvMessage fd).lift recvEmbedding).Only ListsNothing :=
      (recvMessage_reads fd).lift fun _ _ => trivial
    refine (lists_of_only hrecv rfl).bind fun frame q' hq' => ?_
    cases frame with
    | none => exact hq'
    | some frame =>
      obtain ⟨msgType, payload⟩ := frame
      refine lists_call trivial hq' fun _ => ?_
      rw [dispatch_eq]
      exact (handleFrame_lists msgType rfl).bind fun _ _ hq'' => hq''

theorem watchdogLoop_listsNothing : (watchdogLoop cfg).Only ListsNothing :=
  (watchdogLoop_only cfg).mono fun _ ho => by cases ho <;> trivial

theorem program_lists (ctl : Ctl) {q : Lister} (hq : q.users = none) :
    Lists cfg (ctl.program cfg) q := by
  cases ctl with
  | loop fd => exact handleClient_lists hq
  | cleanup fd =>
    exact lists_of_only (p := handleClientCleanup fd)
      ⟨trivial, fun _ => ⟨trivial, fun _ => trivial⟩⟩ hq
  | watchdog => exact lists_of_only watchdogLoop_listsNothing hq
  | ended => exact hq

end Programs

/-! ## Every run -/

variable {cfg : Config} {p : State}

/-- In a reachable state every status is one of the three values, and the handlers
list users as their programs say. -/
structure Listing (cfg : Config) (p : State) (qs : Tid → Lister) : Prop where
  statuses : p.shared.mem.ValidStatuses
  session : ∀ c s, (qs (.handler c)).session = some s →
    s < p.shared.mem.nextRef ∧ p.shared.mem.registeredOn s = c

/-- The snapshot `users` of the handler of connection `c` was taken in the state `q`,
and is the last thing that the handler has done. -/
structure Snapshot (cfg : Config) (p : State) (c : ConnId) (s : SessionRef)
    (users : List (String × StatusEnum)) (q : State) : Prop where
  reaches : (system cfg).Reaches Lts.Any q
  next : q.next (.handler c) = some (ServerOp.mem .listSessions)
  event : ∃ B : List (Event Server Tid),
    p.log = q.log ++ ⟨.handler c, .mem .listSessions, users⟩ :: B ∧
    Machine.ownActs (.handler c) B = []
  owner : q.shared.mem.registeredOn s = c
  registered : ∃ fd, q.shared.mem.registry.sessions.lookup fd = some s
  order : ∃ order, q.shared.mem.IterationOrder order ∧ users = q.shared.mem.listSessions order
  statuses : q.shared.mem.ValidStatuses

/-- The invariant of the handlers that list users. -/
def ListersRight (cfg : Config) (p : State) (qs : Tid → Lister) : Prop :=
  Listing cfg p qs ∧ ∀ t users, (qs t).users = some users →
    ∃ c s q, t = .handler c ∧ (qs t).session = some s ∧ Snapshot cfg p c s users q

/-- Another thread's operation leaves a snapshot the last thing that a handler did. -/
theorem Snapshot.other {p p' q : State} {c : ConnId} {s : SessionRef}
    {users : List (String × StatusEnum)} (h : Snapshot cfg p c s users q)
    {R : List (Event Server Tid)} (hlog : p'.log = p.log ++ R)
    (hR : Machine.ownActs (.handler c) R = []) : Snapshot cfg p' c s users q := by
  have ⟨B, hB, hown⟩ := h.event
  refine { h with event := ⟨B ++ R, ?_, ?_⟩ }
  · rw [hlog, hB, List.append_assoc, List.cons_append]
  · rw [Machine.ownActs_append, hown, hR, List.append_nil]

theorem Listing.later {p p' : State} {qs qs' : Tid → Lister} (h : Listing cfg p qs)
    (hstatuses : p'.shared.mem.ValidStatuses) (hlater : p.shared.mem.Later p'.shared.mem)
    (hsession : ∀ c s, (qs' (.handler c)).session = some s →
      (qs (.handler c)).session = some s ∨
        s < p'.shared.mem.nextRef ∧ p'.shared.mem.registeredOn s = c) : Listing cfg p' qs' := by
  refine ⟨hstatuses, fun c s hs => ?_⟩
  rcases hsession c s hs with hold | hnew
  · have ⟨hlt, hc⟩ := h.session c s hold
    exact ⟨Nat.lt_of_lt_of_le hlt hlater.nextRef, by rw [hlater.registeredOn s hlt, hc]⟩
  · exact hnew

section OneOperation

variable {t : Tid} {o : ServerOp} {k : o.Resp → Prog Server Ctl} {ch : Choice} {r : o.Resp}
  {w : World} {q : Lister}

/-- An operation that the program allows sets no other status. -/
theorem exec_validStatuses (h : p.shared.mem.ValidStatuses)
    (he : p.shared.exec cfg t o ch = some (r, w)) (hallows : q.Allows cfg o) :
    w.mem.ValidStatuses := by
  cases o with
  | sendBare fd msg | sendLocked u msg =>
    cases he
    rw [World.write_mem]
    exact h
  | register fd u a =>
    cases t with
    | watchdog => cases he
    | handler c =>
      cases he
      rw [World.reply_mem]
      exact h.register c fd u a
  | mem o =>
    have ⟨⟨r', m'⟩, hm, hx⟩ := Option.map_eq_some_iff.1 he
    cases hx
    refine h.exec (fun s st ho => ?_) hm
    subst ho
    unfold Lister.Allows at hallows
    split at hallows
    · exact hallows.resolve_right fun hlist => (nomatch hlist.1)
    · have ⟨_, _, ho⟩ := hallows
      cases ho

/-- The session that a handler finds is that of its connection. -/
theorem lister_session {phases : Tid → Phase} (hown : Owned p phases) {c : ConnId}
    (hprog : p.prog (.handler c) = .call (S := Server) o k)
    (he : p.shared.exec cfg (.handler c) o ch = some (r, w)) {s : SessionRef}
    (hs : (q.after o r).session = some s) :
    q.session = some s ∨ s < w.mem.nextRef ∧ w.mem.registeredOn s = c := by
  have hguard := hown.allows hprog
  unfold Lister.after at hs
  split at hs
  · rename_i fd r
    have hfind : r = some s := hs
    cases he
    have ⟨hserving, hfd⟩ : (phases (.handler c)).life = .serving ∧
      fd = (phases (.handler c)).fd := hguard
    have hphase : phases (.handler c) = ⟨fd, .serving⟩ := by rw [← hserving, hfd]
    exact Or.inr ⟨hown.2.1.consistent.allocated fd s hfind,
      (hown.2.1.registeredOn_eq_iff hphase hfind).2 rfl⟩
  · exact Or.inl hs
  · exact Or.inl hs

/-- After an operation there is a snapshot only if the operation took it. -/
theorem lister_users (hallows : q.Allows cfg o) {users : List (String × StatusEnum)}
    (hu : (q.after o r).users = some users) :
    o = .mem .listSessions ∧ ∃ s, q.session = some s := by
  have hnone : q.users = none := by
    by_contra hsome
    have ⟨users', husers'⟩ := Option.ne_none_iff_exists'.1 hsome
    rw [Lister.Allows, husers'] at hallows
    have ⟨_, _, ho⟩ := hallows
    subst ho
    cases hu
  rw [Lister.Allows, hnone] at hallows
  rcases hallows with hnothing | ⟨ho, hsession⟩
  · rw [hnothing.after] at hu
    cases hu
  · exact ⟨ho, Option.isSome_iff_exists.1 hsession⟩

/-- A handler takes a snapshot. -/
theorem snapshot_taken {qs : Tid → Lister} (hlisting : Listing cfg p qs)
    (hr : (system cfg).Reaches Lts.Any p) {c : ConnId} {s : SessionRef}
    {k : List (String × StatusEnum) → Prog Server Ctl} {users : List (String × StatusEnum)}
    (hprog : p.prog (.handler c) = .call (S := Server) (.mem .listSessions) k)
    (he : p.shared.exec cfg (.handler c) (.mem .listSessions) ch = some (users, w))
    (hs : (qs (.handler c)).session = some s) :
    Snapshot cfg (p.afterOp (S := Server) (.handler c) (.mem .listSessions) k users w) c s users
      p := by
  have ⟨phases, hown⟩ := reachable_owned hr
  have hserving : (phases (.handler c)).life = .serving := hown.allows hprog
  have ⟨hlt, hc⟩ := hlisting.session c s hs
  have hlive := hown.2.1.live s hlt (by rw [hc, hserving])
  have ⟨⟨r', m'⟩, hm, hx⟩ := Option.map_eq_some_iff.1 he
  cases hx
  change (if _ then some _ else none) = _ at hm
  split at hm
  · rename_i horder
    cases hm
    exact ⟨hr, Pool.next_of_call hprog, ⟨[], Pool.afterOp_log .., rfl⟩, hc, ⟨_, hlive⟩,
      ⟨ch.order, horder, rfl⟩, hlisting.statuses⟩
  · cases hm

/-- What a thread finds out by an operation of its own. -/
theorem listers_op {qs : Tid → Lister} (h : ListersRight cfg p qs)
    (hr : (system cfg).Reaches Lts.Any p) (hprog : p.prog t = .call (S := Server) o k)
    (he : p.shared.exec cfg t o ch = some (r, w)) (hallows : (qs t).Allows cfg o) :
    ListersRight cfg (p.afterOp t o k r w) (update qs t ((qs t).after o r)) := by
  have ⟨phases, hown⟩ := reachable_owned hr
  have ⟨hlisting, hsnapshots⟩ := h
  have hstatuses := exec_validStatuses hlisting.statuses he hallows
  refine ⟨hlisting.later hstatuses (exec_later he) fun c s hs => ?_, fun u users hu => ?_⟩
  · by_cases ht : t = .handler c
    · subst ht
      rw [update_self] at hs
      exact lister_session hown hprog he hs
    · rw [update_of_ne (Ne.symm ht)] at hs
      exact Or.inl hs
  · by_cases ht : u = t
    · subst ht
      rw [update_self] at hu ⊢
      have ⟨ho, s, hs⟩ := lister_users hallows hu
      subst ho
      cases u with
      | watchdog => exact (hown.allows hprog).elim
      | handler c =>
        have husers : r = users := Option.some.inj hu
        subst husers
        exact ⟨c, s, p, rfl, hs, snapshot_taken hlisting hr hprog he hs⟩
    · rw [update_of_ne ht] at hu ⊢
      have ⟨c, s, q, huc, hs, hsnapshot⟩ := hsnapshots u users hu
      refine ⟨c, s, q, huc, hs, hsnapshot.other (R := [⟨t, o, r⟩]) rfl ?_⟩
      rw [Machine.ownActs_cons, if_neg fun htc => ht (huc.trans htc.symm)]
      rfl

end OneOperation

theorem lists_keeps (cfg : Config) :
    Machine.Keeps (machine cfg) (fun _ => listerMonitor cfg) (fun _ _ q => q.users = none)
      (ListersRight cfg) (fun p _ => (system cfg).Reaches Lts.Any p) where
  op p qs t ch o k r w q' hJ hC hprog he hguard hnext := by
    rw [show q' = (qs t).after o r from hnext]
    exact listers_op hJ hC hprog he hguard
  jump p qs t ctl hJ hC hprog hpost := by
    refine ⟨qs t, program_lists ctl hpost, ?_⟩
    rw [update_eq_self]
    refine ⟨⟨hJ.1.statuses, hJ.1.session⟩, fun u users hu => ?_⟩
    have ⟨c, s, q, huc, hs, hsnapshot⟩ := hJ.2 u users hu
    exact ⟨c, s, q, huc, hs, hsnapshot.other (R := []) (List.append_nil _).symm rfl⟩
  env p qs e w start hJ hC he := by
    change p.shared.env e = some (w, start) at he
    have hstep : (system cfg).step p (.env e) = some (p.afterEnv w start) :=
      Machine.step_env.2 ⟨w, start, he, rfl⟩
    have ⟨hheap, _, _⟩ := World.env_sessions he
    have hstatuses : (p.afterEnv w start).shared.mem.ValidStatuses := by
      intro s
      rw [Pool.afterEnv_shared, hheap]
      exact hJ.1.statuses s
    have hkeep : ∀ qs' : Tid → Lister, (∀ t, qs' t = qs t ∨ qs' t = {}) →
        ListersRight cfg (p.afterEnv w start) qs' := by
      intro qs' hqs
      refine ⟨hJ.1.later hstatuses (step_later hstep) fun c s hs => Or.inl ?_,
        fun u users hu => ?_⟩
      · rcases hqs (.handler c) with hq | hq <;> rw [hq] at hs
        · exact hs
        · cases hs
      · rcases hqs u with hq | hq <;> rw [hq] at hu ⊢
        · have ⟨c, s, q, huc, hs, hsnapshot⟩ := hJ.2 u users hu
          refine ⟨c, s, q, huc, hs, hsnapshot.other (R := []) ?_ rfl⟩
          rw [Pool.afterEnv_log, List.append_nil]
        · cases hu
    cases start with
    | none => exact ⟨qs, fun _ _ => rfl, fun _ _ h => (nomatch h), hkeep qs fun _ => Or.inl rfl⟩
    | some start =>
      -- A handler that starts has found out nothing.
      refine ⟨update qs start.1 {}, fun t ht => ?_, fun t c h => ?_, hkeep _ fun t => ?_⟩
      · rw [update_of_ne]
        intro heq
        exact ht start.2 (by rw [heq])
      · cases h
        rw [update_self]
      · by_cases ht : t = start.1
        · rw [ht, update_self]
          exact Or.inr rfl
        · rw [update_of_ne ht]
          exact Or.inl rfl

theorem reachable_listers (h : (system cfg).Reaches Lts.Any p) :
    ∃ qs, (∀ t, Lists cfg (p.prog t) (qs t)) ∧ ListersRight cfg p qs := by
  have hrun : (system cfg).Reaches (fun q _ => (system cfg).Reaches Lts.Any q) p :=
    Lts.Steps.strengthen h fun q _ _ hq _ _ => hq
  have hinit : Machine.Monitored (fun _ => listerMonitor cfg) (fun _ _ q => q.users = none)
      (ListersRight cfg) (system cfg).init fun _ => {} :=
    ⟨fun _ => rfl, ⟨fun _ => rfl, fun _ _ hs => (nomatch hs)⟩, fun _ _ hu => (nomatch hu)⟩
  exact (lists_keeps cfg).steps hrun hinit

/-- With its snapshot a handler has everything that the reply says. -/
theorem Snapshot.listReply {c : ConnId} {s : SessionRef} {users : List (String × StatusEnum)}
    {q : State} (h : Snapshot cfg p c s users q) (hsort : SortsByName cfg.sort) :
    ListReply cfg q.shared.mem s (allUsersOf (cfg.sort users)) := by
  have ⟨phases, hown⟩ := reachable_owned h.reaches
  have ⟨fd, hfd⟩ := h.registered
  have ⟨order, horder, husers⟩ := h.order
  rw [husers]
  exact hown.2.1.consistent.listReply hsort h.statuses hfd horder

/-- Only a handler that has taken a snapshot sends a list of users.  It sends the reply
to this snapshot on its own connection. -/
theorem snapshot_of_send {t : Tid} {s : SessionRef} {r : AllUsers}
    (h : (system cfg).Reaches Lts.Any p) (hnext : p.next t = some (.sendLocked s (.allUsers r))) :
    ∃ c users q, t = .handler c ∧ p.shared.mem.fds (p.shared.mem.heap s).socketFd = some c ∧
      Snapshot cfg p c s users q ∧ r = allUsersOf (cfg.sort users) := by
  have ⟨qs, hlists, hright⟩ := reachable_listers h
  have ⟨k, hprog⟩ := Pool.call_of_next hnext
  have hobeys := hlists t
  rw [hprog] at hobeys
  have ⟨hallows, _⟩ := obeys_lister_call.1 hobeys
  unfold Lister.Allows at hallows
  split at hallows
  · rcases hallows with hnothing | ⟨ho, _⟩
    · exact hnothing.elim
    · cases ho
  · rename_i users hu
    have ⟨s', hs', ho⟩ := hallows
    cases ho
    have ⟨c, s'', q, htc, hs'', hsnapshot⟩ := hright.2 t users hu
    rw [hs', Option.some.injEq] at hs''
    subst hs''
    subst htc
    have ⟨phases, hown⟩ := reachable_owned h
    have hserving : (phases (.handler c)).life = .serving := hown.allows hprog
    have ⟨hlt, hc⟩ := hright.1.session c _ hs'
    refine ⟨c, users, q, rfl, ?_, hsnapshot, rfl⟩
    rw [(hown.2.1.registered _ hlt).2.1, hc]
    exact (hown.2.1.serves c (by rw [hserving]; decide)).2

/-- A handler that takes a snapshot has the same reply to send whatever the iteration
order is. -/
theorem reply_of_snapshot {c : ConnId} (h : (system cfg).Reaches Lts.Any p)
    (hsort : SortsByName cfg.sort)
    (hnext : p.next (.handler c) = some (ServerOp.mem .listSessions)) :
    ∃ s r, p.shared.mem.registeredOn s = c ∧ ListReply cfg p.shared.mem s r ∧
      ∀ ch : Choice, p.shared.mem.IterationOrder ch.order →
        ∃ p', (system cfg).step p (.op (.handler c) ch) = some p' ∧
          p'.next (.handler c) = some (ServerOp.sendLocked s (.allUsers r)) := by
  obtain ⟨qs, hlists, hright⟩ := reachable_listers h
  obtain ⟨phases, hown⟩ := reachable_owned h
  obtain ⟨k, hprog⟩ := Pool.call_of_next hnext
  have hobeys := hlists (.handler c)
  rw [hprog] at hobeys
  obtain ⟨hallows, hk⟩ := obeys_lister_call.1 hobeys
  unfold Lister.Allows at hallows
  split at hallows
  · obtain ⟨_, hsession⟩ := hallows.resolve_left fun hnothing => hnothing
    obtain ⟨s, hs⟩ := Option.isSome_iff_exists.1 hsession
    obtain ⟨hlt, hc⟩ := hright.1.session c s hs
    have hserving : (phases (.handler c)).life = .serving := hown.allows hprog
    have hlive := hown.2.1.live s hlt (by rw [hc, hserving])
    have hreply : ∀ order, p.shared.mem.IterationOrder order → ListReply cfg p.shared.mem s
        (allUsersOf (cfg.sort (p.shared.mem.listSessions order))) := fun order horder =>
      hown.2.1.consistent.listReply hsort hright.1.statuses hlive horder
    obtain ⟨order, horder⟩ := Quot.exists_rep p.shared.mem.registry.sessions.keys.val
    refine ⟨s, _, hc, hreply order horder, fun ch hch => ?_⟩
    have hexec : p.shared.exec cfg (.handler c) (.mem .listSessions) ch =
        some (p.shared.mem.listSessions ch.order, p.shared) := by
      change Option.map _ (if _ then some _ else none) = _
      rw [if_pos hch]
      rfl
    refine ⟨_, Machine.step_op.2 ⟨_, k, _, _, hprog, hexec, rfl⟩, ?_⟩
    -- What is left of the handler replies to the snapshot.
    have hrest := hk (p.shared.mem.listSessions ch.order)
    rw [Pool.next, Pool.afterOp_prog, update_self]
    generalize k (p.shared.mem.listSessions ch.order) = rest at hrest
    cases rest with
    | ret ctl => cases hrest
    | call o k' =>
      obtain ⟨⟨s', hs', ho⟩, _⟩ := obeys_lister_call.1 hrest
      have hss : (qs (.handler c)).session = some s' := hs'
      rw [hs, Option.some.injEq] at hss
      refine (congrArg some ho).trans ?_
      rw [← hss, (hreply order horder).determined ch.order hch]
  · obtain ⟨_, _, ho⟩ := hallows
    cases ho

/-- Everything that `handle_list_users` does with a well-formed request of a registered
user, after it has found the session. -/
theorem handleListUsers_acts {c : ConnId} {fd : Fd} {payload : Bytes} {req : ListUsers}
    {s : SessionRef} {p' : State} {R : List (Event Server Tid)}
    (h : (system cfg).Reaches Lts.Any p)
    (hprog : p.prog (.handler c) = handleListUsers cfg fd payload >>= fun _ => pure (.loop fd))
    (hparse : cfg.pb.parseListUsers payload = some req) (hs : p.shared.mem.getSession fd = some s)
    (hrun : (system cfg).Steps (fun _ l => l ≠ .jump (.handler c)) p p')
    (hret : p'.prog (.handler c) = .ret (.loop fd)) (hlog : p'.log = p.log ++ R) :
    ∃ users, Machine.ownActs (.handler c) R =
      [⟨.mem (.getSession fd), some s⟩, ⟨.mem (.touch s), ()⟩, ⟨.mem .listSessions, users⟩] ++
        [⟨.sendLocked s (.allUsers (allUsersOf (cfg.sort users))), ()⟩] := by
  obtain ⟨-, -, l, hacts, htrace⟩ := session_call h hprog hs hrun hret hlog
  simp only [mem_eq, Prog.call_bind, Prog.ret_bind, hparse, sendLocked_eq] at htrace
  obtain ⟨_, l₁, rfl, h1⟩ := Prog.Trace.of_call (S := Server) htrace
  obtain ⟨users, l₂, rfl, h2⟩ := Prog.Trace.of_call (S := Server) h1
  obtain ⟨_, l₃, rfl, h3⟩ := Prog.Trace.of_call (S := Server) h2
  obtain ⟨rfl, -⟩ := Prog.Trace.of_ret (S := Server) h3
  exact ⟨users, hacts⟩

/-- A snapshot that is the last thing that a handler did after `p` was taken after `p`. -/
theorem Snapshot.after {p' q : State} {c : ConnId} {s : SessionRef}
    {users : List (String × StatusEnum)} {R : List (Event Server Tid)}
    (h : Snapshot cfg p' c s users q) (hlog : p'.log = p.log ++ R)
    (hacts : Machine.ownActs (.handler c) R ≠ []) : p.log <+: q.log := by
  obtain ⟨B, hB, hnone⟩ := h.event
  rcases List.append_eq_append_iff.1 (hlog.symm.trans hB) with ⟨L, hq, -⟩ | ⟨L, hp, hL⟩
  · exact ⟨L, hq.symm⟩
  · cases L with
    | nil => rw [hp, List.append_nil]
    | cons e L =>
      -- The snapshot would be before `p`, and nothing has come after it.
      have hrest : B = L ++ R := (List.cons.inj hL).2
      rw [hrest, Machine.ownActs_append] at hnone
      exact absurd (List.append_eq_nil_iff.1 hnone).2 hacts

/-- A well-formed LIST_USERS of a registered user leads to a snapshot and to its reply on
the connection. -/
theorem listed_call {c : ConnId} {fd : Fd} {payload : Bytes} {req : ListUsers} {s : SessionRef}
    {p' : State} (hsort : SortsByName cfg.sort) (h : (system cfg).Reaches Lts.Any p)
    (hprog : p.prog (.handler c) = handleListUsers cfg fd payload >>= fun _ => pure (.loop fd))
    (hparse : cfg.pb.parseListUsers payload = some req) (hs : p.shared.mem.getSession fd = some s)
    (hrun : (system cfg).Steps (fun _ l => l ≠ .jump (.handler c)) p p')
    (hret : p'.prog (.handler c) = .ret (.loop fd)) :
    ∃ q r, (system cfg).Reaches Lts.Any q ∧ q.next (.handler c) = some (.mem .listSessions) ∧
      p.log <+: q.log ∧ q.log <+: p'.log ∧ ListReply cfg q.shared.mem s r ∧
      ⟨some s, .allUsers r⟩ ∈ p'.shared.out c := by
  obtain ⟨phases, hown⟩ := reachable_owned h
  obtain ⟨R, hlog, -⟩ := handler_trace (hown.lt_nextConn hprog) hrun fun _ hj => hj rfl
  obtain ⟨users, hacts⟩ := handleListUsers_acts h hprog hparse hs hrun hret hlog
  obtain ⟨A, B, rfl, hA, hB⟩ := Machine.ownActs_eq_append hacts
  obtain ⟨B₁, B₂, rfl, hB₁, -⟩ := Machine.ownActs_eq_cons hB
  -- The state in which the reply was sent.
  have hsplit : p'.log = (p.log ++ (A ++ B₁)) ++
      ⟨.handler c, .sendLocked s (.allUsers (allUsersOf (cfg.sort users))), ()⟩ :: B₂ := by
    rw [hlog]
    simp
  obtain ⟨q', k, ch, w, hq', hlog', -, hsend, he, -, hsteps⟩ := event_step (h.steps hrun.any) hsplit
  obtain ⟨c', users', q, hcc, hfd, hsnapshot, hr⟩ := snapshot_of_send hq' (Pool.next_of_call hsend)
  cases hcc
  have hafter : p.log <+: q.log := by
    refine hsnapshot.after hlog' ?_
    rw [Machine.ownActs_append, hA]
    exact List.cons_ne_nil _ _
  have hbefore : q.log <+: p'.log := by
    obtain ⟨B, hB, -⟩ := hsnapshot.event
    rw [hsplit, ← hlog', hB, List.append_assoc]
    exact List.prefix_append _ _
  have hreply := hsnapshot.listReply hsort
  rw [← hr] at hreply
  refine ⟨q, _, hsnapshot.reaches, hsnapshot.next, hafter, hbefore, hreply, ?_⟩
  cases he
  have hgrows := steps_out_prefix hsteps c
  refine hgrows.subset ?_
  rw [Pool.afterOp_shared, World.write_out _ hfd, update_self]
  exact List.mem_append_right _ List.mem_cons_self

/-- In every reachable state, a handler of LIST_USERS that takes its snapshot has one
reply to send for all iteration orders of `sessions_`: the names of the registered
sessions, the requester's among them, strictly increasing as `std::string`s, each with
the status of its session.  Whatever list of users is sent is the reply to such a
snapshot, through the session of the connection that it goes to.  A well-formed
LIST_USERS of a registered user has taken such a snapshot when its handler returns, and
the reply is on the connection. -/
theorem list_users_reply (hsort : SortsByName cfg.sort) (h : (system cfg).Reaches Lts.Any p) :
    (∀ c, p.next (.handler c) = some (ServerOp.mem .listSessions) →
      ∃ s r, p.shared.mem.registeredOn s = c ∧ ListReply cfg p.shared.mem s r ∧
        ∀ ch : Choice, p.shared.mem.IterationOrder ch.order →
          ∃ p', (system cfg).step p (.op (.handler c) ch) = some p' ∧
            p'.next (.handler c) = some (ServerOp.sendLocked s (.allUsers r))) ∧
    (∀ t s r, p.next t = some (ServerOp.sendLocked s (.allUsers r)) →
      ∃ c users q, t = .handler c ∧
        p.shared.mem.fds (p.shared.mem.heap s).socketFd = some c ∧
        Snapshot cfg p c s users q ∧ ListReply cfg q.shared.mem s r) ∧
    (∀ t fd r, p.next t ≠ some (ServerOp.sendBare fd (.allUsers r))) ∧
    ∀ c fd payload req s p',
      p.prog (.handler c) = (handleListUsers cfg fd payload >>= fun _ => pure (.loop fd)) →
      cfg.pb.parseListUsers payload = some req → p.shared.mem.getSession fd = some s →
      (system cfg).Steps (fun _ l => l ≠ .jump (.handler c)) p p' →
      p'.prog (.handler c) = .ret (.loop fd) →
      ∃ q r, (system cfg).Reaches Lts.Any q ∧
        q.next (.handler c) = some (ServerOp.mem .listSessions) ∧ p.log <+: q.log ∧
        q.log <+: p'.log ∧ ListReply cfg q.shared.mem s r ∧
        ⟨some s, .allUsers r⟩ ∈ p'.shared.out c := by
  refine ⟨fun c => reply_of_snapshot h hsort, fun t s r hnext => ?_, fun t fd r hnext => ?_,
    fun _ _ _ _ _ _ hprog hparse hs => listed_call hsort h hprog hparse hs⟩
  · have ⟨c, users, q, htc, hfd, hsnapshot, hr⟩ := snapshot_of_send h hnext
    have hreply := hsnapshot.listReply hsort
    rw [← hr] at hreply
    exact ⟨c, users, q, htc, hfd, hsnapshot, hreply⟩
  · have ⟨qs, hlists, _⟩ := reachable_listers h
    have ⟨k, hprog⟩ := Pool.call_of_next hnext
    have hobeys := hlists t
    rw [hprog] at hobeys
    have ⟨hallows, _⟩ := obeys_lister_call.1 hobeys
    unfold Lister.Allows at hallows
    split at hallows
    · rcases hallows with hnothing | ⟨ho, _⟩
      · exact hnothing
      · cases ho
    · have ⟨_, _, ho⟩ := hallows
      cases ho

/-- The server, linked with a sort by name. -/
def sortingConfig : Config :=
  { sampleConfig with sort := fun users => users.mergeSort fun a b => decide (¬ stringLt b.1 a.1) }

/-- "b" and "a" have registered, and the handler of "b" is about to handle a LIST_USERS. -/
def listRun : List Step :=
  [.env (.accept 4 "10.0.0.1"), .env (.clientSend 0 [1, 0, 0, 0, 3, 10, 1, 98])] ++
    turn (.handler 0) 6 ++
    [.env (.accept 5 "10.0.0.2"), .env (.clientSend 1 [1, 0, 0, 0, 3, 10, 1, 97])] ++
    turn (.handler 1) 6 ++
    [.env (.clientSend 0 [5, 0, 0, 0, 0])] ++ turn (.handler 0) 3

/-- The handler handles it.  The iteration order is not that of the names. -/
def listCall : List Step :=
  [.op (.handler 0) {}, .op (.handler 0) {}, .op (.handler 0) { order := [4, 5] },
    .op (.handler 0) {}]

/-- At the snapshot the reply to "b" names "a" and then "b", and the call puts a list on
the connection. -/
theorem list_users_reply_two :
    (∃ p p' s r, (system sortingConfig).Reaches Lts.Any p ∧
      (system sortingConfig).step p (.op (.handler 0) { order := [4, 5] }) = some p' ∧
      p'.next (.handler 0) = some (ServerOp.sendLocked s (.allUsers r)) ∧
      "a" ∈ r.usernames ∧ "b" ∈ r.usernames ∧ r.usernames.Pairwise stringLt) ∧
    ∃ (p p' q : State) (r : AllUsers), (system sortingConfig).Reaches Lts.Any p ∧
      (system sortingConfig).Steps (fun _ l => l ≠ .jump (.handler 0)) p p' ∧ p.log <+: q.log ∧
      q.log <+: p'.log ∧ ListReply sortingConfig q.shared.mem 0 r ∧
      ⟨some 0, .allUsers r⟩ ∈ p'.shared.out 0 := by
  have hsort : SortsByName sortingConfig.sort := sortsBy_mergeSort stringLt_trans
  constructor
  · have ⟨p, hp, hrun⟩ := Lts.exists_reaches_of_run (L := system sortingConfig)
      (listRun ++ listCall.take 2)
      (fun p => decide (p.next (.handler 0) = some (ServerOp.mem .listSessions) ∧
        p.shared.mem.IterationOrder [4, 5] ∧
        p.shared.mem.registry.sessions.lookup 4 = some 0 ∧ (p.shared.mem.heap 0).username = "b" ∧
        p.shared.mem.registry.sessions.lookup 5 = some 1 ∧ (p.shared.mem.heap 1).username = "a"))
      (by decide +kernel)
    obtain ⟨hnext, horder, hb, hnameb, ha, hnamea⟩ := of_decide_eq_true hrun
    obtain ⟨s, r, _, hreply, hsteps⟩ := (list_users_reply hsort hp).1 0 hnext
    obtain ⟨p', hstep, hsend⟩ := hsteps { order := [4, 5] } horder
    exact ⟨p, p', s, r, hp, hstep, hsend, (hreply.names "a").2 ⟨5, 1, ha, hnamea⟩,
      (hreply.names "b").2 ⟨4, 0, hb, hnameb⟩, hreply.increasing⟩
  · have hrun : ((system sortingConfig).run (system sortingConfig).init listRun).any (fun p =>
        decide (p.shared.mem.getSession 4 = some 0) &&
          ((system sortingConfig).run p listCall).any fun p' =>
            decide ((p'.prog (.handler 0)).returned = some (.loop 4))) = true := by
      decide +kernel
    simp only [Option.any_eq_true, Bool.and_eq_true, decide_eq_true_eq] at hrun
    obtain ⟨p, hp, hget, p', hp', hret⟩ := hrun
    have hsteps : (system sortingConfig).Steps (fun _ l => l ≠ .jump (.handler 0)) p p' :=
      .of_run hp' fun l hl _ hjump => by simp [hjump, listCall] at hl
    have hprog : ((system sortingConfig).run (system sortingConfig).init listRun).map
        (fun p => p.prog (.handler 0)) =
          some (handleListUsers sortingConfig 4 [] >>= fun _ => pure (.loop 4)) := rfl
    rw [hp] at hprog
    obtain ⟨q, r, -, -, hafter, hbefore, hreply, hout⟩ := (list_users_reply hsort (.of_run hp)).2.2.2
      0 4 [] _ 0 p' (Option.some.inj hprog) rfl hget hsteps (Prog.returned_eq_some.1 hret)
    exact ⟨p, p', q, r, .of_run hp, hsteps, hafter, hbefore, hreply, hout⟩

end SimpleChat
