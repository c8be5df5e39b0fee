import SimpleChat.Data.Index
import SimpleChat.System

/-!
# The registry invariant

`Memory.Consistent` says that `username_to_fd_` and `ip_to_fd_` are the inverses
of `sessions_` on the names and addresses of the sessions.  Two operations
change the maps: the locked block of `handle_register` and `remove_session`.
`register_cases` and `removeSession_cases` say once what they can do.  Every
other operation is a `Memory.Frame`: it leaves the maps and the identity of
every session as they are.
-/

namespace SimpleChat

open Conc Function Data

namespace Memory

variable {m m' : Memory}

/-! ## What the operations can do -/

/-- A step that leaves the registry, the descriptor table, and what identifies
sessions and connections as they are. -/
structure Frame (m m' : Memory) : Prop where
  registry : m'.registry = m.registry
  nextRef : m'.nextRef = m.nextRef
  registeredOn : m'.registeredOn = m.registeredOn
  fds : m'.fds = m.fds
  nextConn : m'.nextConn = m.nextConn
  running : m'.running = m.running
  connFd : ∀ c, (m'.conns c).fd = (m.conns c).fd
  username : ∀ s, (m'.heap s).username = (m.heap s).username
  ip : ∀ s, (m'.heap s).ip = (m.heap s).ip
  socketFd : ∀ s, (m'.heap s).socketFd = (m.heap s).socketFd
  alive : ∀ s, (m'.heap s).alive = (m.heap s).alive

theorem Frame.refl (m : Memory) : Frame m m :=
  ⟨rfl, rfl, rfl, rfl, rfl, rfl, fun _ => rfl, fun _ => rfl, fun _ => rfl, fun _ => rfl,
    fun _ => rfl⟩

theorem Frame.trans {m'' : Memory} (h : Frame m m') (h' : Frame m' m'') : Frame m m'' :=
  ⟨h'.registry.trans h.registry, h'.nextRef.trans h.nextRef,
    h'.registeredOn.trans h.registeredOn, h'.fds.trans h.fds, h'.nextConn.trans h.nextConn,
    h'.running.trans h.running, fun c => (h'.connFd c).trans (h.connFd c),
    fun s => (h'.username s).trans (h.username s), fun s => (h'.ip s).trans (h.ip s),
    fun s => (h'.socketFd s).trans (h.socketFd s), fun s => (h'.alive s).trans (h.alive s)⟩

/-- Changing fields of a session that do not identify it. -/
theorem Frame.modify (m : Memory) (s : SessionRef) {f : SessionInfo → SessionInfo}
    (hname : ∀ i, (f i).username = i.username) (hip : ∀ i, (f i).ip = i.ip)
    (hfd : ∀ i, (f i).socketFd = i.socketFd) (halive : ∀ i, (f i).alive = i.alive) :
    Frame m (m.modify s f) := by
  refine ⟨rfl, rfl, rfl, rfl, rfl, rfl, fun _ => rfl, fun t => ?_, fun t => ?_, fun t => ?_,
    fun t => ?_⟩ <;>
  · by_cases ht : t = s
    · subst ht
      simp [Memory.modify, hname, hip, hfd, halive]
    · simp [Memory.modify, ht]

/-- Changing the stream of a connection. -/
theorem Frame.modifyConn (m : Memory) (c : ConnId) {f : Conn → Conn}
    (hfd : ∀ n, (f n).fd = n.fd) : Frame m (m.modifyConn c f) := by
  refine ⟨rfl, rfl, rfl, rfl, rfl, rfl, fun d => ?_, fun _ => rfl, fun _ => rfl, fun _ => rfl,
    fun _ => rfl⟩
  by_cases hd : d = c
  · subst hd
    simp [Memory.modifyConn, hfd]
  · simp [Memory.modifyConn, hd]

/-- Everything `recv` can do: fail on a descriptor that is not open, report
the end of the stream, or move some bytes from the front of the stream. -/
theorem recv_cases {fd : Fd} {len want : Nat} {r : Option {bs : Bytes // bs.length ≤ len}}
    (h : m.recv fd len want = some (r, m')) :
    (m.fds fd = none ∧ r = none ∧ m' = m) ∨
      (∃ c, m.fds fd = some c ∧ (m.conns c).pending = [] ∧ (m.conns c).eof = true ∧
        r = some ⟨[], Nat.zero_le len⟩ ∧ m' = m) ∨
      ∃ c bs, m.fds fd = some c ∧ r = some bs ∧ bs.val <+: (m.conns c).pending ∧
        (0 < len → bs.val ≠ []) ∧
        m' = m.modifyConn c fun conn =>
          { conn with
            pending := conn.pending.drop bs.val.length
            received := conn.received ++ bs.val } := by
  rw [recv] at h
  cases hc : m.fds fd with
  | none =>
    rw [hc] at h
    simp only [Option.some.injEq, Prod.mk.injEq] at h
    exact Or.inl ⟨rfl, h.1.symm, h.2.symm⟩
  | some c =>
    rw [hc] at h
    dsimp only at h
    by_cases hp : (m.conns c).pending = []
    · rw [if_pos hp] at h
      by_cases he : (m.conns c).eof = true
      · rw [if_pos he, Option.some.injEq, Prod.mk.injEq] at h
        exact Or.inr (Or.inl ⟨c, rfl, hp, he, h.1.symm, h.2.symm⟩)
      · rw [if_neg he] at h
        cases h
    · rw [if_neg hp, Option.some.injEq, Prod.mk.injEq] at h
      refine Or.inr (Or.inr ⟨c, _, rfl, h.1.symm, List.take_prefix _ _, fun hlen h0 => ?_,
        h.2.symm⟩)
      rw [List.take_eq_nil_iff] at h0
      rcases h0 with h0 | h0
      · omega
      · exact hp h0

theorem frame_recv {fd : Fd} {len want : Nat} {r : Option {bs : Bytes // bs.length ≤ len}}
    (h : m.recv fd len want = some (r, m')) : Frame m m' := by
  rcases recv_cases h with ⟨_, _, rfl⟩ | ⟨_, _, _, _, _, rfl⟩ | ⟨c, bs, _, _, _, _, rfl⟩
  · exact .refl _
  · exact .refl _
  · exact .modifyConn m c fun _ => rfl

theorem frame_touch (s : SessionRef) : Frame m (m.touch s) :=
  .modify m s (fun _ => rfl) (fun _ => rfl) (fun _ => rfl) fun _ => rfl

theorem frame_setStatus (s : SessionRef) (st : StatusEnum) : Frame m (m.setStatus s st) :=
  .modify m s (fun _ => rfl) (fun _ => rfl) (fun _ => rfl) fun _ => rfl

theorem frame_restore (s : SessionRef) : Frame m (m.restore s).2 := by
  rw [restore]
  split
  · show Frame m (m.modify s fun i => { i with status := .ACTIVE, manualStatus := .ACTIVE })
    exact .modify m s (fun _ => rfl) (fun _ => rfl) (fun _ => rfl) fun _ => rfl
  · exact .refl m

theorem frame_markIdleOne (idle now : Int) (s : SessionRef) :
    Frame m (m.markIdleOne idle now s).2 := by
  rw [markIdleOne]
  split
  · show Frame m (m.modify s fun i => { i with status := .INVISIBLE })
    exact .modify m s (fun _ => rfl) (fun _ => rfl) (fun _ => rfl) fun _ => rfl
  · exact .refl m

theorem frame_markIdle (idle now : Int) (todo : List SessionRef) (m : Memory) :
    Frame m (markIdle idle now todo m).2 := by
  induction todo generalizing m with
  | nil => exact .refl m
  | cons s todo ih =>
    rw [markIdle]
    exact (frame_markIdleOne idle now s).trans (ih _)

/-- A scan changes the status of the sessions that it reports, and nothing else
of a session. -/
theorem markIdle_heap {idle now : Int} {todo : List SessionRef} {m : Memory} (s : SessionRef) :
    (markIdle idle now todo m).2.heap s =
      if s ∈ (markIdle idle now todo m).1 then { m.heap s with status := .INVISIBLE }
      else m.heap s := by
  induction todo generalizing m with
  | nil => simp [markIdle]
  | cons t todo ih =>
    simp only [markIdle, ih]
    by_cases hidle : isIdle idle now (m.heap t) = true
    · simp only [markIdleOne, hidle, if_true, List.mem_cons]
      by_cases hst : s = t
      · subst hst
        simp [modify]
      · simp [modify, hst]
    · simp [markIdleOne, hidle]

/-- A scan reports the sessions that were idle when it began. -/
theorem markIdle_marked {idle now : Int} {todo : List SessionRef} {m : Memory}
    (hnodup : todo.Nodup) :
    (markIdle idle now todo m).1 = todo.filter fun s => isIdle idle now (m.heap s) := by
  induction todo generalizing m with
  | nil => rfl
  | cons t todo ih =>
    have ⟨hnot, hrest⟩ := List.nodup_cons.1 hnodup
    have hsame : todo.filter (fun s => isIdle idle now ((m.markIdleOne idle now t).2.heap s)) =
        todo.filter fun s => isIdle idle now (m.heap s) := by
      refine List.filter_congr fun s hs => ?_
      have hst : s ≠ t := fun heq => hnot (heq ▸ hs)
      unfold markIdleOne
      split
      · simp [modify, hst]
      · rfl
    simp only [markIdle, ih hrest, hsame, List.filter_cons]
    by_cases hidle : isIdle idle now (m.heap t) = true
    · simp [markIdleOne, hidle]
    · simp [markIdleOne, hidle]

/-- Every operation other than the removal of a session and the closing of a
descriptor is a frame. -/
theorem exec_frame {idle : Int} {o : MemOp} {ch : Choice} {r : o.Resp}
    (h : m.exec idle o ch = some (r, m')) (hremove : ∀ fd, o ≠ .removeSession fd)
    (hclose : ∀ fd, o ≠ .close fd) : Frame m m' := by
  cases o with
  | recv fd len => exact frame_recv h
  | removeSession fd => exact absurd rfl (hremove fd)
  | close fd => exact absurd rfl (hclose fd)
  | restore s =>
    have hm : (m.restore s).2 = m' := congrArg Prod.snd (Option.some.inj h)
    exact hm ▸ frame_restore s
  | setStatus s st =>
    cases h
    exact frame_setStatus s st
  | touch s =>
    cases h
    exact frame_touch s
  | markIdle now =>
    rw [exec] at h
    split at h
    · have hm : (markIdle idle now (m.visited ch.order) m).2 = m' :=
        congrArg Prod.snd (Option.some.inj h)
      exact hm ▸ frame_markIdle idle now _ m
    · cases h
  | aliveSessions | listSessions =>
    rw [exec] at h
    split at h
    · cases h
      exact .refl m
    · cases h
  | dispatch | running | getPeerIp | getSession | findUser | read | now =>
    cases h
    exact .refl m

end Memory

/-- Everything an operation of a thread can do to the memory. -/
theorem World.exec_mem_cases {cfg : Config} {t : Tid} {w w' : World} {o : ServerOp}
    {ch : Choice} {r : o.Resp} (h : w.exec cfg t o ch = some (r, w')) :
    (w.mem.Frame w'.mem ∧ (∀ fd, o ≠ .mem (.removeSession fd)) ∧ (∀ fd, o ≠ .mem (.close fd)) ∧
        ∀ fd u a, o ≠ .register fd u a) ∨
      (∃ fd, o = .mem (.removeSession fd) ∧ w'.mem = w.mem.removeSession fd) ∨
      (∃ fd, o = .mem (.close fd) ∧ w'.mem = w.mem.close fd) ∨
      ∃ c fd u a, t = .handler c ∧ o = .register fd u a ∧
        w'.mem = (w.mem.register c fd u a).2 := by
  cases o with
  | mem o =>
    rw [exec, Option.map_eq_some_iff] at h
    obtain ⟨⟨r', m'⟩, he, hx⟩ := h
    obtain ⟨rfl, rfl⟩ := Prod.mk.inj hx
    by_cases hremove : ∃ fd, o = .removeSession fd
    · obtain ⟨fd, rfl⟩ := hremove
      cases he
      exact Or.inr (Or.inl ⟨fd, rfl, rfl⟩)
    by_cases hclose : ∃ fd, o = .close fd
    · obtain ⟨fd, rfl⟩ := hclose
      cases he
      exact Or.inr (Or.inr (Or.inl ⟨fd, rfl, rfl⟩))
    have hremove' : ∀ fd, o ≠ .removeSession fd := fun fd hfd => hremove ⟨fd, hfd⟩
    have hclose' : ∀ fd, o ≠ .close fd := fun fd hfd => hclose ⟨fd, hfd⟩
    refine Or.inl ⟨Memory.exec_frame he hremove' hclose', fun fd => ?_, fun fd => ?_, ?_⟩
    · simpa using hremove' fd
    · simpa using hclose' fd
    · simp
  | sendBare fd msg =>
    cases h
    exact Or.inl ⟨by rw [write_mem]; exact .refl _, by simp⟩
  | sendLocked s msg =>
    cases h
    exact Or.inl ⟨by rw [write_mem]; exact .refl _, by simp⟩
  | register fd u a =>
    cases t with
    | watchdog => cases h
    | handler c =>
      cases h
      exact Or.inr (Or.inr (Or.inr ⟨c, fd, u, a, rfl, rfl, by rw [reply_mem]⟩))

/-- A step of the environment other than `accept` is a frame. -/
theorem World.env_mem_cases {w w' : World} {e : Env} {start : Option (Tid × Ctl)}
    (h : w.env e = some (w', start)) :
    (start = none ∧ w.mem.Frame w'.mem ∧ w'.out = w.out) ∨
      ∃ fd peerIp, e = .accept fd peerIp ∧ w.mem.fds fd = none ∧
        start = some (.handler w.mem.nextConn, .loop fd) ∧
        w' = { w with mem := w.mem.accept fd peerIp } := by
  cases e with
  | accept fd peerIp =>
    rw [env] at h
    split at h
    · rename_i hfd
      cases h
      exact Or.inr ⟨fd, peerIp, rfl, hfd, rfl, rfl⟩
    · cases h
  | clientSend c bs =>
    rw [env] at h
    split at h
    · cases h
      have hf : w.mem.Frame (w.mem.modifyConn c fun n => { n with pending := n.pending ++ bs }) :=
        .modifyConn _ _ fun _ => rfl
      exact Or.inl ⟨rfl, hf, rfl⟩
    · cases h
  | clientClose c =>
    rw [env] at h
    split at h
    · cases h
      have hf : w.mem.Frame (w.mem.modifyConn c fun n => { n with eof := true }) :=
        .modifyConn _ _ fun _ => rfl
      exact Or.inl ⟨rfl, hf, rfl⟩
    · cases h
  | tick d =>
    cases h
    exact Or.inl ⟨rfl, ⟨rfl, rfl, rfl, rfl, rfl, rfl, fun _ => rfl, fun _ => rfl, fun _ => rfl,
      fun _ => rfl, fun _ => rfl⟩, rfl⟩

/-- The environment touches no session. -/
theorem World.env_sessions {w w' : World} {e : Env} {start : Option (Tid × Ctl)}
    (h : w.env e = some (w', start)) :
    w'.mem.heap = w.mem.heap ∧ w'.mem.nextRef = w.mem.nextRef ∧
      w'.mem.registeredOn = w.mem.registeredOn := by
  cases e with
  | accept fd peerIp | clientSend c bs | clientClose c =>
    rw [env] at h
    split at h
    · cases h
      exact ⟨rfl, rfl, rfl⟩
    · cases h
  | tick d =>
    cases h
    exact ⟨rfl, rfl, rfl⟩

namespace Memory

variable {m m' : Memory}

/-- Everything the locked block of `handle_register` can do. -/
theorem register_cases (m : Memory) (c : ConnId) (fd : Fd) (u a : String) :
    (∃ s, m.registry.sessions.lookup fd = some s ∧
        m.register c fd u a = (.alreadyRegistered s, m)) ∨
      (fd ∉ m.registry.sessions ∧ u ∈ m.registry.usernameToFd ∧
        m.register c fd u a = (.usernameTaken, m)) ∨
      (fd ∉ m.registry.sessions ∧ u ∉ m.registry.usernameToFd ∧ a ∈ m.registry.ipToFd ∧
        m.register c fd u a = (.ipTaken, m)) ∨
      (fd ∉ m.registry.sessions ∧ u ∉ m.registry.usernameToFd ∧ a ∉ m.registry.ipToFd ∧
        m.register c fd u a =
          (.registered m.nextRef,
            { m with
              heap := update m.heap m.nextRef
                { username := u, ip := a, socketFd := fd, lastActivity := m.clock }
              nextRef := m.nextRef + 1
              registeredOn := update m.registeredOn m.nextRef c
              registry := {
                sessions := m.registry.sessions.insert fd m.nextRef
                usernameToFd := m.registry.usernameToFd.insert u fd
                ipToFd := m.registry.ipToFd.insert a fd } })) := by
  rw [register]
  cases hs : m.registry.sessions.lookup fd with
  | some s => exact Or.inl ⟨s, rfl, rfl⟩
  | none =>
    have hfd : fd ∉ m.registry.sessions := Finmap.lookup_eq_none.1 hs
    by_cases hu : u ∈ m.registry.usernameToFd
    · exact Or.inr (Or.inl ⟨hfd, hu, by simp [hu]⟩)
    · by_cases ha : a ∈ m.registry.ipToFd
      · exact Or.inr (Or.inr (Or.inl ⟨hfd, hu, ha, by simp [hu, ha]⟩))
      · exact Or.inr (Or.inr (Or.inr ⟨hfd, hu, ha, by simp [hu, ha]⟩))

/-- An outcome that creates no session leaves everything as it is. -/
theorem register_cases_created (m : Memory) (c : ConnId) (fd : Fd) (u a : String) :
    ((∀ s, (m.register c fd u a).1 ≠ .registered s) ∧ (m.register c fd u a).2 = m) ∨
      (fd ∉ m.registry.sessions ∧ u ∉ m.registry.usernameToFd ∧ a ∉ m.registry.ipToFd ∧
        m.register c fd u a =
          (.registered m.nextRef,
            { m with
              heap := update m.heap m.nextRef
                { username := u, ip := a, socketFd := fd, lastActivity := m.clock }
              nextRef := m.nextRef + 1
              registeredOn := update m.registeredOn m.nextRef c
              registry := {
                sessions := m.registry.sessions.insert fd m.nextRef
                usernameToFd := m.registry.usernameToFd.insert u fd
                ipToFd := m.registry.ipToFd.insert a fd } })) := by
  rcases register_cases m c fd u a with ⟨_, _, he⟩ | ⟨_, _, he⟩ | ⟨_, _, _, he⟩ | hcreated
  · exact Or.inl (by simp [he])
  · exact Or.inl (by simp [he])
  · exact Or.inl (by simp [he])
  · exact Or.inr hcreated

/-- Everything `remove_session` can do. -/
theorem removeSession_cases (m : Memory) (fd : Fd) :
    (fd ∉ m.registry.sessions ∧ m.removeSession fd = m) ∨
      ∃ s, m.registry.sessions.lookup fd = some s ∧
        m.removeSession fd =
          { m with
            heap := update m.heap s { m.heap s with alive := false }
            registry := {
              sessions := m.registry.sessions.erase fd
              usernameToFd := m.registry.usernameToFd.erase (m.heap s).username
              ipToFd := m.registry.ipToFd.erase (m.heap s).ip } } := by
  rw [removeSession]
  cases hs : m.registry.sessions.lookup fd with
  | none => exact Or.inl ⟨Finmap.lookup_eq_none.1 hs, rfl⟩
  | some s => exact Or.inr ⟨s, rfl, by simp [modify]⟩

@[simp] theorem register_nextConn (m : Memory) (c : ConnId) (fd : Fd) (u a : String) :
    (m.register c fd u a).2.nextConn = m.nextConn := by
  rcases register_cases_created m c fd u a with ⟨_, he⟩ | ⟨_, _, _, he⟩ <;> rw [he]

@[simp] theorem register_fds (m : Memory) (c : ConnId) (fd : Fd) (u a : String) :
    (m.register c fd u a).2.fds = m.fds := by
  rcases register_cases_created m c fd u a with ⟨_, he⟩ | ⟨_, _, _, he⟩ <;> rw [he]

@[simp] theorem register_conns (m : Memory) (c : ConnId) (fd : Fd) (u a : String) :
    (m.register c fd u a).2.conns = m.conns := by
  rcases register_cases_created m c fd u a with ⟨_, he⟩ | ⟨_, _, _, he⟩ <;> rw [he]

@[simp] theorem register_clock (m : Memory) (c : ConnId) (fd : Fd) (u a : String) :
    (m.register c fd u a).2.clock = m.clock := by
  rcases register_cases_created m c fd u a with ⟨_, he⟩ | ⟨_, _, _, he⟩ <;> rw [he]

@[simp] theorem register_running (m : Memory) (c : ConnId) (fd : Fd) (u a : String) :
    (m.register c fd u a).2.running = m.running := by
  rcases register_cases_created m c fd u a with ⟨_, he⟩ | ⟨_, _, _, he⟩ <;> rw [he]

section RemoveSession

variable (m : Memory) (fd : Fd)

@[simp] theorem removeSession_nextConn : (m.removeSession fd).nextConn = m.nextConn := by
  rcases removeSession_cases m fd with ⟨_, he⟩ | ⟨_, _, he⟩ <;> rw [he]

@[simp] theorem removeSession_nextRef : (m.removeSession fd).nextRef = m.nextRef := by
  rcases removeSession_cases m fd with ⟨_, he⟩ | ⟨_, _, he⟩ <;> rw [he]

@[simp] theorem removeSession_registeredOn :
    (m.removeSession fd).registeredOn = m.registeredOn := by
  rcases removeSession_cases m fd with ⟨_, he⟩ | ⟨_, _, he⟩ <;> rw [he]

@[simp] theorem removeSession_conns : (m.removeSession fd).conns = m.conns := by
  rcases removeSession_cases m fd with ⟨_, he⟩ | ⟨_, _, he⟩ <;> rw [he]

@[simp] theorem removeSession_fds : (m.removeSession fd).fds = m.fds := by
  rcases removeSession_cases m fd with ⟨_, he⟩ | ⟨_, _, he⟩ <;> rw [he]

@[simp] theorem removeSession_running : (m.removeSession fd).running = m.running := by
  rcases removeSession_cases m fd with ⟨_, he⟩ | ⟨_, _, he⟩ <;> rw [he]

@[simp] theorem removeSession_clock : (m.removeSession fd).clock = m.clock := by
  rcases removeSession_cases m fd with ⟨_, he⟩ | ⟨_, _, he⟩ <;> rw [he]

/-- The session under the descriptor leaves `sessions_`. -/
theorem removeSession_lookup (k : Fd) :
    (m.removeSession fd).registry.sessions.lookup k =
      if k = fd then none else m.registry.sessions.lookup k := by
  rcases removeSession_cases m fd with ⟨hnone, he⟩ | ⟨_, _, he⟩
  · rw [he]
    split
    · rename_i hk
      rw [hk]
      exact Finmap.lookup_eq_none.2 hnone
    · rfl
  · rw [he]
    split
    · rename_i hk
      rw [hk]
      exact Finmap.lookup_erase fd _
    · rename_i hk
      exact Finmap.lookup_erase_ne hk

/-- It is no longer alive, and nothing else changes in any session. -/
theorem removeSession_heap (s : SessionRef) :
    (m.removeSession fd).heap s =
      if m.registry.sessions.lookup fd = some s then { m.heap s with alive := false }
      else m.heap s := by
  rcases removeSession_cases m fd with ⟨hnone, he⟩ | ⟨t, ht, he⟩
  · rw [he, Finmap.lookup_eq_none.2 hnone]
    rfl
  · rw [he, ht]
    by_cases hst : s = t
    · subst hst
      rw [if_pos rfl]
      exact update_self _ _ _
    · rw [if_neg fun heq => hst (Option.some.inj heq).symm]
      exact update_of_ne hst _ _

@[simp] theorem removeSession_socketFd (s : SessionRef) :
    ((m.removeSession fd).heap s).socketFd = (m.heap s).socketFd := by
  rw [removeSession_heap]
  split <;> rfl

@[simp] theorem removeSession_username (s : SessionRef) :
    ((m.removeSession fd).heap s).username = (m.heap s).username := by
  rw [removeSession_heap]
  split <;> rfl

end RemoveSession

/-- No operation accepts a connection. -/
theorem exec_nextConn {idle : Int} {o : MemOp} {ch : Choice} {r : o.Resp}
    (h : m.exec idle o ch = some (r, m')) : m'.nextConn = m.nextConn := by
  by_cases hremove : ∃ fd, o = .removeSession fd
  · have ⟨fd, ho⟩ := hremove
    subst ho
    cases h
    exact removeSession_nextConn m fd
  by_cases hclose : ∃ fd, o = .close fd
  · have ⟨fd, ho⟩ := hclose
    subst ho
    cases h
    rfl
  · exact (exec_frame h (fun fd ho => hremove ⟨fd, ho⟩) fun fd ho => hclose ⟨fd, ho⟩).nextConn

/-- No operation enters a session in the registry, or creates one. -/
theorem exec_sessions {idle : Int} {o : MemOp} {ch : Choice} {r : o.Resp}
    (h : m.exec idle o ch = some (r, m')) :
    m'.nextRef = m.nextRef ∧ ∀ fd s, m'.registry.sessions.lookup fd = some s →
      m.registry.sessions.lookup fd = some s := by
  by_cases hremove : ∃ fd, o = .removeSession fd
  · have ⟨fd, ho⟩ := hremove
    subst ho
    cases h
    refine ⟨removeSession_nextRef m fd, fun k s hs => ?_⟩
    rw [removeSession_lookup] at hs
    split at hs
    · cases hs
    · exact hs
  by_cases hclose : ∃ fd, o = .close fd
  · have ⟨fd, ho⟩ := hclose
    subst ho
    cases h
    exact ⟨rfl, fun _ _ hs => hs⟩
  · have hf := exec_frame h (fun fd ho => hremove ⟨fd, ho⟩) fun fd ho => hclose ⟨fd, ho⟩
    refine ⟨hf.nextRef, fun fd s hs => ?_⟩
    rwa [hf.registry] at hs

/-! ## What never changes -/

/-- A later memory knows the sessions and connections of an earlier one. -/
structure Later (m m' : Memory) : Prop where
  nextConn : m.nextConn ≤ m'.nextConn
  nextRef : m.nextRef ≤ m'.nextRef
  registeredOn : ∀ s, s < m.nextRef → m'.registeredOn s = m.registeredOn s
  username : ∀ s, s < m.nextRef → (m'.heap s).username = (m.heap s).username
  ip : ∀ s, s < m.nextRef → (m'.heap s).ip = (m.heap s).ip
  socketFd : ∀ s, s < m.nextRef → (m'.heap s).socketFd = (m.heap s).socketFd

theorem Later.refl (m : Memory) : Later m m :=
  ⟨Nat.le_refl _, Nat.le_refl _, fun _ _ => rfl, fun _ _ => rfl, fun _ _ => rfl, fun _ _ => rfl⟩

theorem Later.trans {m'' : Memory} (h : Later m m') (h' : Later m' m'') : Later m m'' := by
  have hlt : ∀ s, s < m.nextRef → s < m'.nextRef := fun s hs => Nat.lt_of_lt_of_le hs h.nextRef
  exact ⟨h.nextConn.trans h'.nextConn, h.nextRef.trans h'.nextRef,
    fun s hs => (h'.registeredOn s (hlt s hs)).trans (h.registeredOn s hs),
    fun s hs => (h'.username s (hlt s hs)).trans (h.username s hs),
    fun s hs => (h'.ip s (hlt s hs)).trans (h.ip s hs),
    fun s hs => (h'.socketFd s (hlt s hs)).trans (h.socketFd s hs)⟩

theorem Frame.later (h : Frame m m') : Later m m' :=
  ⟨h.nextConn.ge, h.nextRef.ge, fun s _ => by rw [h.registeredOn], fun s _ => h.username s,
    fun s _ => h.ip s, fun s _ => h.socketFd s⟩

theorem later_removeSession (m : Memory) (fd : Fd) : Later m (m.removeSession fd) := by
  refine ⟨by simp, by simp, fun _ _ => by simp, fun s _ => by simp, fun s _ => ?_,
    fun s _ => by simp⟩
  rw [removeSession_heap]
  split <;> rfl

theorem later_register (m : Memory) (c : ConnId) (fd : Fd) (u a : String) :
    Later m (m.register c fd u a).2 := by
  rcases register_cases_created m c fd u a with ⟨-, he⟩ | ⟨-, -, -, he⟩ <;> rw [he]
  · exact .refl m
  · refine ⟨Nat.le_refl _, Nat.le_succ _, fun s hs => ?_, fun s hs => ?_, fun s hs => ?_,
      fun s hs => ?_⟩ <;>
      simp [Nat.ne_of_lt hs]

/-! ## The invariant -/

/-- The three maps of the registry fit together. -/
structure Consistent (m : Memory) : Prop where
  allocated : ∀ fd s, m.registry.sessions.lookup fd = some s → s < m.nextRef
  socketFd : ∀ fd s, m.registry.sessions.lookup fd = some s → (m.heap s).socketFd = fd
  nonempty : ∀ fd s, m.registry.sessions.lookup fd = some s → (m.heap s).username ≠ ""
  names : IsIndex (fun s => (m.heap s).username) m.registry.sessions m.registry.usernameToFd
  ips : IsIndex (fun s => (m.heap s).ip) m.registry.sessions m.registry.ipToFd

theorem consistent_init : Memory.init.Consistent where
  allocated fd s h := by simp [Memory.init] at h
  socketFd fd s h := by simp [Memory.init] at h
  nonempty fd s h := by simp [Memory.init] at h
  names := .empty _
  ips := .empty _

/-- The registry, and what identifies sessions and connections, are as they were. -/
structure SameSessions (m m' : Memory) : Prop where
  registry : m'.registry = m.registry
  nextRef : m'.nextRef = m.nextRef
  registeredOn : m'.registeredOn = m.registeredOn
  nextConn : m'.nextConn = m.nextConn
  connFd : ∀ c, (m'.conns c).fd = (m.conns c).fd
  username : ∀ s, (m'.heap s).username = (m.heap s).username
  ip : ∀ s, (m'.heap s).ip = (m.heap s).ip
  socketFd : ∀ s, (m'.heap s).socketFd = (m.heap s).socketFd

theorem Frame.sameSessions (h : Frame m m') : SameSessions m m' :=
  ⟨h.registry, h.nextRef, h.registeredOn, h.nextConn, h.connFd, h.username, h.ip, h.socketFd⟩

theorem SameSessions.trans {m'' : Memory} (h : SameSessions m m') (h' : SameSessions m' m'') :
    SameSessions m m'' :=
  ⟨h'.registry.trans h.registry, h'.nextRef.trans h.nextRef,
    h'.registeredOn.trans h.registeredOn, h'.nextConn.trans h.nextConn,
    fun c => (h'.connFd c).trans (h.connFd c), fun s => (h'.username s).trans (h.username s),
    fun s => (h'.ip s).trans (h.ip s), fun s => (h'.socketFd s).trans (h.socketFd s)⟩

theorem Consistent.same (h : m.Consistent) (hs : SameSessions m m') : m'.Consistent where
  allocated fd s hl := by
    rw [hs.registry] at hl
    rw [hs.nextRef]
    exact h.allocated fd s hl
  socketFd fd s hl := by
    rw [hs.registry] at hl
    rw [hs.socketFd]
    exact h.socketFd fd s hl
  nonempty fd s hl := by
    rw [hs.registry] at hl
    rw [hs.username]
    exact h.nonempty fd s hl
  names := by
    rw [hs.registry]
    exact h.names.congr fun _ s _ => hs.username s
  ips := by
    rw [hs.registry]
    exact h.ips.congr fun _ s _ => hs.ip s

theorem Consistent.frame (h : m.Consistent) (hf : Frame m m') : m'.Consistent :=
  h.same hf.sameSessions

/-- Two descriptors never share a session object. -/
theorem Consistent.sessions_injective (h : m.Consistent) {fd fd' : Fd} {s : SessionRef}
    (hs : m.registry.sessions.lookup fd = some s)
    (hs' : m.registry.sessions.lookup fd' = some s) : fd = fd' :=
  (h.socketFd fd s hs).symm.trans (h.socketFd fd' s hs')

/-- A loop over `sessions_` visits the sessions in the registry, each once. -/
theorem Consistent.visited {m : Memory} (h : m.Consistent) {order : List Fd}
    (horder : m.IterationOrder order) :
    (m.visited order).Nodup ∧
      ∀ s, s ∈ m.visited order ↔ ∃ fd, m.registry.sessions.lookup fd = some s := by
  have hkeys : order.Nodup := by
    rw [← Multiset.coe_nodup, show (order : Multiset Fd) = _ from horder]
    exact m.registry.sessions.keys.nodup
  have hinj : ∀ fd fd' s, s ∈ m.registry.sessions.lookup fd → s ∈ m.registry.sessions.lookup fd' →
      fd = fd' := fun fd fd' s hs hs' => h.sessions_injective hs hs'
  refine ⟨hkeys.filterMap hinj, fun s => ?_⟩
  rw [Memory.visited, List.mem_filterMap]
  constructor
  · intro ⟨fd, _, hfd⟩
    exact ⟨fd, hfd⟩
  · intro ⟨fd, hfd⟩
    refine ⟨fd, ?_, hfd⟩
    rw [← Multiset.mem_coe, show (order : Multiset Fd) = _ from horder, Finset.mem_val,
      Finmap.mem_keys]
    exact Finmap.mem_of_lookup_eq_some hfd

/-- The two-step lookup finds the session with the name. -/
theorem Consistent.findUser_eq_some {m : Memory} (h : m.Consistent) {u : String}
    {s : SessionRef} :
    m.findUser u = some s ↔
      ∃ fd, m.registry.sessions.lookup fd = some s ∧ (m.heap s).username = u := by
  rw [← h.names.lookup_two_step, findUser]
  cases m.registry.usernameToFd.lookup u <;> rfl

theorem Consistent.register (h : m.Consistent) {c : ConnId} {fd : Fd} {u a : String}
    (hu : u ≠ "") : (m.register c fd u a).2.Consistent := by
  rcases register_cases_created m c fd u a with ⟨_, he⟩ | ⟨hfd, hname, hip, he⟩ <;> rw [he]
  · exact h
  · -- The new object is not one of those the maps refer to.
    have hne : ∀ k s, m.registry.sessions.lookup k = some s → s ≠ m.nextRef := fun k s hs =>
      Nat.ne_of_lt (h.allocated k s hs)
    have hold : ∀ k s, (m.registry.sessions.insert fd m.nextRef).lookup k = some s →
        (k = fd ∧ s = m.nextRef) ∨ (m.registry.sessions.lookup k = some s ∧ s ≠ m.nextRef) := by
      intro k s hs
      by_cases hk : k = fd
      · subst hk
        rw [Finmap.lookup_insert, Option.some.injEq] at hs
        exact Or.inl ⟨rfl, hs.symm⟩
      · rw [Finmap.lookup_insert_of_ne _ hk] at hs
        exact Or.inr ⟨hs, hne k s hs⟩
    refine ⟨fun k s hs => ?_, fun k s hs => ?_, fun k s hs => ?_, ?_, ?_⟩
    · rcases hold k s hs with ⟨_, rfl⟩ | ⟨hs, _⟩
      · exact Nat.lt_succ_self _
      · exact Nat.lt_succ_of_lt (h.allocated k s hs)
    · rcases hold k s hs with ⟨rfl, rfl⟩ | ⟨hs, hn⟩
      · simp
      · simpa [hn] using h.socketFd k s hs
    · rcases hold k s hs with ⟨rfl, rfl⟩ | ⟨hs, hn⟩
      · simpa using hu
      · simpa [hn] using h.nonempty k s hs
    · have hins := (h.names.congr (g := fun s => (update m.heap m.nextRef
        { username := u, ip := a, socketFd := fd, lastActivity := m.clock } s).username)
        fun k s hs => by simp [hne k s hs]).insert (v := m.nextRef) hfd (by simpa using hname)
      simpa using hins
    · have hins := (h.ips.congr (g := fun s => (update m.heap m.nextRef
        { username := u, ip := a, socketFd := fd, lastActivity := m.clock } s).ip)
        fun k s hs => by simp [hne k s hs]).insert (v := m.nextRef) hfd (by simpa using hip)
      simpa using hins

theorem Consistent.removeSession (h : m.Consistent) (fd : Fd) :
    (m.removeSession fd).Consistent := by
  rcases removeSession_cases m fd with ⟨_, he⟩ | ⟨s, hs, he⟩ <;> rw [he]
  · exact h
  · -- Only `alive` changes in the heap, so the attributes stay.
    have hname : ∀ t, (update m.heap s { m.heap s with alive := false } t).username =
        (m.heap t).username := by
      intro t
      by_cases ht : t = s
      · subst ht
        simp
      · simp [ht]
    have hip : ∀ t, (update m.heap s { m.heap s with alive := false } t).ip =
        (m.heap t).ip := by
      intro t
      by_cases ht : t = s
      · subst ht
        simp
      · simp [ht]
    have hsock : ∀ t, (update m.heap s { m.heap s with alive := false } t).socketFd =
        (m.heap t).socketFd := by
      intro t
      by_cases ht : t = s
      · subst ht
        simp
      · simp [ht]
    have hold : ∀ k t, (m.registry.sessions.erase fd).lookup k = some t →
        m.registry.sessions.lookup k = some t := by
      intro k t ht
      by_cases hk : k = fd
      · rw [hk, Finmap.lookup_erase] at ht
        cases ht
      · rwa [Finmap.lookup_erase_ne hk] at ht
    refine ⟨fun k t ht => h.allocated k t (hold k t ht), fun k t ht => ?_, fun k t ht => ?_,
      ?_, ?_⟩
    · exact (hsock t).trans (h.socketFd k t (hold k t ht))
    · intro h0
      exact h.nonempty k t (hold k t ht) ((hname t).symm.trans h0)
    · exact (h.names.erase hs).congr fun _ t _ => hname t
    · exact (h.ips.erase hs).congr fun _ t _ => hip t

end Memory

end SimpleChat
