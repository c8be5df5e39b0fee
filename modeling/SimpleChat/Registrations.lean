import SimpleChat.Ownership

/-!
# The registry and its history

What the registry is for: it holds the registrations that were answered 200 and
whose owner has not run `remove_session` yet.  `liveRegistrations` reads them
off the history of a run alone, and `Roster.answer` is the answer that a new
REGISTER should get from them.

There are three groups.

* `registry_mutually_inverse`: the three maps in every reachable state.
* `mem_liveRegistrations`: the sessions in the registry are the live
  registrations of the history.
* `register_refines_history`: the locked block of `handle_register` gives the
  answer that the history calls for.
-/

namespace SimpleChat

open Conc Function Data

/-! ## The three maps -/

/-- The three maps of the registry are mutually inverse. -/
structure Memory.MutuallyInverse (m : Memory) : Prop where
  session : ∀ fd s, m.registry.sessions.lookup fd = some s →
    (m.heap s).socketFd = fd ∧ (m.heap s).username ≠ "" ∧
      m.registry.usernameToFd.lookup (m.heap s).username = some fd ∧
      m.registry.ipToFd.lookup (m.heap s).ip = some fd
  username : ∀ u fd, m.registry.usernameToFd.lookup u = some fd →
    ∃ s, m.registry.sessions.lookup fd = some s ∧ (m.heap s).username = u
  ip : ∀ a fd, m.registry.ipToFd.lookup a = some fd →
    ∃ s, m.registry.sessions.lookup fd = some s ∧ (m.heap s).ip = a

/-- In every reachable state the three maps are mutually inverse, no two
sessions share a name or an address, and the two-step lookup finds a session
for `u` exactly if one is registered as `u`. -/
theorem registry_mutually_inverse {cfg : Config} {p : State}
    (h : (system cfg).Reaches Lts.Any p) :
    p.shared.mem.MutuallyInverse ∧
      (∀ fd fd' s s', p.shared.mem.registry.sessions.lookup fd = some s →
        p.shared.mem.registry.sessions.lookup fd' = some s' →
        ((p.shared.mem.heap s).username = (p.shared.mem.heap s').username ∨
          (p.shared.mem.heap s).ip = (p.shared.mem.heap s').ip) → fd = fd' ∧ s = s') ∧
      ∀ u s, p.shared.mem.findUser u = some s ↔
        ∃ fd, p.shared.mem.registry.sessions.lookup fd = some s ∧
          (p.shared.mem.heap s).username = u := by
  obtain ⟨qs, -, hown, -⟩ := reachable_owned h
  have hc := hown.consistent
  refine ⟨⟨fun fd s hs => ?_, fun u fd hu => ?_, fun a fd ha => ?_⟩, ?_,
    fun u s => hc.findUser_eq_some⟩
  · exact ⟨hc.socketFd fd s hs, hc.nonempty fd s hs, hc.names.lookup_index hs,
      hc.ips.lookup_index hs⟩
  · exact (hc.names u fd).1 hu
  · exact (hc.ips a fd).1 ha
  · intro fd fd' s s' hs hs' hshare
    have hfd : fd = fd' := by
      rcases hshare with hname | hip
      · exact hc.names.injective hs hs' hname
      · exact hc.ips.injective hs hs' hip
    subst hfd
    rw [hs, Option.some.injEq] at hs'
    exact ⟨rfl, hs'⟩

/-- In `reuseRun` the third client has the descriptor and the name of the first. -/
theorem registry_mutually_inverse_registered :
    ∃ p, (system sampleConfig).Reaches Lts.Any p ∧
      p.shared.mem.registry.sessions.lookup 5 = some 1 ∧
      p.shared.mem.registry.sessions.lookup 4 = some 2 ∧
      p.shared.mem.findUser "a" = some 2 ∧ p.shared.mem.MutuallyInverse := by
  obtain ⟨p, hp, hlook⟩ := Lts.exists_reaches_of_run (L := system sampleConfig) reuseRun
    (fun p => decide (p.shared.mem.registry.sessions.lookup 5 = some 1 ∧
      p.shared.mem.registry.sessions.lookup 4 = some 2 ∧ (p.shared.mem.heap 2).username = "a"))
    (by decide +kernel)
  obtain ⟨hb, ha, hname⟩ := of_decide_eq_true hlook
  obtain ⟨hinverse, -, hfind⟩ := registry_mutually_inverse hp
  exact ⟨p, hp, hb, ha, (hfind "a" 2).2 ⟨4, ha, hname⟩, hinverse⟩

/-! ## The live registrations -/

/-- A registration: who it was for. -/
structure Registration where
  conn : ConnId
  name : String
  ip : String
  deriving DecidableEq

/-- The registrations that are live at some point of a run. -/
abbrev Roster := List Registration

namespace Roster

/-- No two live registrations share the connection, the name or the address. -/
def Unique (live : Roster) : Prop :=
  live.Pairwise fun r r' => r.conn ≠ r'.conn ∧ r.name ≠ r'.name ∧ r.ip ≠ r'.ip

/-- The status code that a REGISTER for `r` should be answered with. -/
def answer (live : Roster) (r : Registration) : Int :=
  if ∃ r' ∈ live, r'.conn = r.conn then StatusCode.BAD_REQUEST
  else if ∃ r' ∈ live, r'.name = r.name then StatusCode.USERNAME_TAKEN
  else if ∃ r' ∈ live, r'.ip = r.ip then StatusCode.IP_TAKEN
  else StatusCode.OK_REGISTER

/-- What an event does to the roster. -/
def track (live : Roster) : Event Server Tid → Roster
  | ⟨.handler c, .register _ u a, .registered _⟩ => ⟨c, u, a⟩ :: live
  | ⟨.handler c, .mem (.removeSession _), _⟩ => live.filter fun r => r.conn ≠ c
  | _ => live

theorem answer_eq_ok_iff {live : Roster} {r : Registration} :
    live.answer r = StatusCode.OK_REGISTER ↔
      ∀ r' ∈ live, r'.conn ≠ r.conn ∧ r'.name ≠ r.name ∧ r'.ip ≠ r.ip := by
  rw [answer]
  constructor
  · intro h
    split_ifs at h with hconn hname hip
    · cases h
    · cases h
    · cases h
    · exact fun r' hr' => ⟨fun he => hconn ⟨r', hr', he⟩, fun he => hname ⟨r', hr', he⟩,
        fun he => hip ⟨r', hr', he⟩⟩
  · intro h
    rw [if_neg, if_neg, if_neg]
    · rintro ⟨r', hr', he⟩
      exact (h r' hr').2.2 he
    · rintro ⟨r', hr', he⟩
      exact (h r' hr').2.1 he
    · rintro ⟨r', hr', he⟩
      exact (h r' hr').1 he

/-- A registration that is answered 200 keeps the roster unique. -/
theorem Unique.cons {live : Roster} {r : Registration} (h : live.Unique)
    (hr : live.answer r = StatusCode.OK_REGISTER) : Unique (r :: live) := by
  refine List.pairwise_cons.2 ⟨fun r' hr' => ?_, h⟩
  obtain ⟨h1, h2, h3⟩ := answer_eq_ok_iff.1 hr r' hr'
  exact ⟨h1.symm, h2.symm, h3.symm⟩

theorem track_eq_self {live : Roster} {e : Event Server Tid}
    (hregister : ∀ fd u a, e.op ≠ .register fd u a)
    (hremove : ∀ fd, e.op ≠ .mem (.removeSession fd)) : live.track e = live := by
  unfold track
  split
  · exact absurd rfl (hregister _ _ _)
  · exact absurd rfl (hremove _)
  · rfl

end Roster

/-- The registrations that were answered 200 and whose owner has not run
`remove_session`. -/
def liveRegistrations (log : List (Event Server Tid)) : Roster := log.foldl Roster.track []

@[simp] theorem liveRegistrations_append (log : List (Event Server Tid)) (e : Event Server Tid) :
    liveRegistrations (log ++ [e]) = (liveRegistrations log).track e := by
  simp [liveRegistrations]

/-- The registration that a session stands for. -/
def Memory.registration (m : Memory) (s : SessionRef) : Registration :=
  ⟨m.registeredOn s, (m.heap s).username, (m.heap s).ip⟩

/-- The roster is the set of the sessions in the registry. -/
def Represents (m : Memory) (live : Roster) : Prop :=
  ∀ r, r ∈ live ↔ ∃ fd s, m.registry.sessions.lookup fd = some s ∧ m.registration s = r

namespace Represents

variable {m m' : Memory} {live : Roster} {qs : Tid → Phase}

theorem frame (h : Represents m live) (hf : m.Frame m') : Represents m' live := by
  intro r
  rw [h r, hf.registry]
  simp only [Memory.registration, hf.registeredOn, hf.username, hf.ip]

/-- The descriptor has a session exactly if the connection is registered. -/
theorem conn_iff (h : Represents m live) (hown : m.Owned qs) {c : ConnId} {fd : Fd}
    (hq : qs (.handler c) = ⟨fd, .serving⟩) :
    (∃ r ∈ live, r.conn = c) ↔ fd ∈ m.registry.sessions := by
  rw [Finmap.mem_iff]
  constructor
  · rintro ⟨r, hr, rfl⟩
    obtain ⟨k, s, hs, rfl⟩ := (h r).1 hr
    exact ⟨s, (hown.registeredOn_eq_iff hq hs).1 rfl ▸ hs⟩
  · rintro ⟨s, hs⟩
    exact ⟨_, (h _).2 ⟨fd, s, hs, rfl⟩, (hown.registeredOn_eq_iff hq hs).2 rfl⟩

theorem name_iff (h : Represents m live) (hc : m.Consistent) {u : String} :
    (∃ r ∈ live, r.name = u) ↔ u ∈ m.registry.usernameToFd := by
  rw [hc.names.mem_iff]
  constructor
  · rintro ⟨r, hr, rfl⟩
    obtain ⟨k, s, hs, rfl⟩ := (h r).1 hr
    exact ⟨k, s, hs, rfl⟩
  · rintro ⟨k, s, hs, rfl⟩
    exact ⟨_, (h _).2 ⟨k, s, hs, rfl⟩, rfl⟩

theorem ip_iff (h : Represents m live) (hc : m.Consistent) {a : String} :
    (∃ r ∈ live, r.ip = a) ↔ a ∈ m.registry.ipToFd := by
  rw [hc.ips.mem_iff]
  constructor
  · rintro ⟨r, hr, rfl⟩
    obtain ⟨k, s, hs, rfl⟩ := (h r).1 hr
    exact ⟨k, s, hs, rfl⟩
  · rintro ⟨k, s, hs, rfl⟩
    exact ⟨_, (h _).2 ⟨k, s, hs, rfl⟩, rfl⟩

end Represents

/-- The answer that the locked block of `handle_register` gives is the one that
the roster calls for, and the maps change only if it is 200. -/
theorem Memory.register_answer {m : Memory} {live : Roster} {qs : Tid → Phase}
    (h : Represents m live) (hown : m.Owned qs) {c : ConnId} {fd : Fd} {u a : String}
    (hq : qs (.handler c) = ⟨fd, .serving⟩) :
    (∃ via text success, registerReply u a (m.register c fd u a).1 =
        (via, response (live.answer ⟨c, u, a⟩) text success) ∧
      ∀ s, via = some s → ((m.register c fd u a).2.heap s).socketFd = fd) ∧
    (live.answer ⟨c, u, a⟩ ≠ StatusCode.OK_REGISTER → (m.register c fd u a).2 = m) ∧
    (∀ s, (m.register c fd u a).1 = .registered s ↔
      live.answer ⟨c, u, a⟩ = StatusCode.OK_REGISTER ∧ s = m.nextRef) := by
  have hc := hown.consistent
  simp only [Roster.answer, h.conn_iff hown hq, h.name_iff hc, h.ip_iff hc]
  rcases register_cases m c fd u a with ⟨s, hs, he⟩ | ⟨h1, h2, he⟩ | ⟨h1, h2, h3, he⟩ |
    ⟨h1, h2, h3, he⟩ <;> rw [he]
  · rw [if_pos (Finmap.mem_iff.2 ⟨s, hs⟩)]
    refine ⟨⟨some s, _, _, rfl, ?_⟩, fun _ => rfl, by simp [StatusCode.BAD_REQUEST,
      StatusCode.OK_REGISTER]⟩
    rintro _ ⟨rfl⟩
    exact hc.socketFd fd s hs
  · rw [if_neg h1, if_pos h2]
    exact ⟨⟨none, _, _, rfl, by simp⟩, fun _ => rfl, by simp [StatusCode.USERNAME_TAKEN,
      StatusCode.OK_REGISTER]⟩
  · rw [if_neg h1, if_neg h2, if_pos h3]
    exact ⟨⟨none, _, _, rfl, by simp⟩, fun _ => rfl, by simp [StatusCode.IP_TAKEN,
      StatusCode.OK_REGISTER]⟩
  · rw [if_neg h1, if_neg h2, if_neg h3]
    refine ⟨⟨some m.nextRef, _, _, rfl, ?_⟩, fun hne => absurd rfl hne, by simp [eq_comm]⟩
    rintro _ ⟨rfl⟩
    simp

/-- A new session adds its registration. -/
theorem Represents.register {m : Memory} {live : Roster} {qs : Tid → Phase}
    (h : Represents m live) (hown : m.Owned qs) {c : ConnId} {fd : Fd} {u a : String}
    {s : SessionRef} (hs : (m.register c fd u a).1 = .registered s) :
    Represents (m.register c fd u a).2 (⟨c, u, a⟩ :: live) := by
  rcases Memory.register_cases_created m c fd u a with ⟨hno, _⟩ | ⟨hfd, _, _, he⟩
  · exact absurd hs (hno s)
  · rw [he]
    intro r
    have hold : ∀ k t, m.registry.sessions.lookup k = some t → t ≠ m.nextRef ∧ k ≠ fd := by
      intro k t ht
      refine ⟨Nat.ne_of_lt (hown.consistent.allocated k t ht), ?_⟩
      rintro rfl
      exact hfd (Finmap.mem_iff.2 ⟨t, ht⟩)
    rw [List.mem_cons, h r]
    constructor
    · rintro (rfl | ⟨k, t, ht, rfl⟩)
      · exact ⟨fd, m.nextRef, Finmap.lookup_insert _, by simp [Memory.registration]⟩
      · obtain ⟨hne, hk⟩ := hold k t ht
        exact ⟨k, t, by rw [Finmap.lookup_insert_of_ne _ hk, ht],
          by simp [Memory.registration, hne]⟩
    · rintro ⟨k, t, ht, rfl⟩
      by_cases hk : k = fd
      · subst hk
        rw [Finmap.lookup_insert, Option.some.injEq] at ht
        subst ht
        exact Or.inl (by simp [Memory.registration])
      · rw [Finmap.lookup_insert_of_ne _ hk] at ht
        obtain ⟨hne, -⟩ := hold k t ht
        exact Or.inr ⟨k, t, ht, by simp [Memory.registration, hne]⟩

/-- Removing a session removes the registration of its connection. -/
theorem Represents.removeSession {m : Memory} {live : Roster} {qs : Tid → Phase}
    (h : Represents m live) (hown : m.Owned qs) {c : ConnId} {fd : Fd}
    (hq : qs (.handler c) = ⟨fd, .serving⟩) :
    Represents (m.removeSession fd) (live.filter fun r => r.conn ≠ c) := by
  have hmem : ∀ r, r ∈ (live.filter fun r => r.conn ≠ c) ↔
      ∃ k s, m.registry.sessions.lookup k = some s ∧ k ≠ fd ∧ m.registration s = r := by
    intro r
    rw [List.mem_filter, h r, decide_eq_true_eq]
    constructor
    · rintro ⟨⟨k, s, hs, rfl⟩, hne⟩
      exact ⟨k, s, hs, mt (hown.registeredOn_eq_iff hq hs).2 hne, rfl⟩
    · rintro ⟨k, s, hs, hk, rfl⟩
      exact ⟨⟨k, s, hs, rfl⟩, mt (hown.registeredOn_eq_iff hq hs).1 hk⟩
  intro r
  rw [hmem r]
  have hreg : ∀ s, (m.removeSession fd).registration s = m.registration s := by
    intro s
    rw [Memory.registration, Memory.removeSession_heap, Memory.removeSession_registeredOn]
    split <;> rfl
  refine exists_congr fun k => exists_congr fun s => ?_
  rw [hreg, Memory.removeSession_lookup]
  by_cases hk : k = fd
  · simp [hk]
  · simp [hk]

/-- In every run the registry holds the live registrations of the history, and
they are pairwise distinct. -/
theorem represents_liveRegistrations {cfg : Config} {C : State → Step → Prop} {p : State}
    (h : (system cfg).Reaches C p) :
    Represents p.shared.mem (liveRegistrations p.log) ∧ (liveRegistrations p.log).Unique := by
  refine world_invariant (I := fun w log => Represents w.mem (liveRegistrations log) ∧
    (liveRegistrations log).Unique) ⟨?_, .nil⟩ ?_ ?_ h
  · intro r
    simp [liveRegistrations, Memory.init]
  · rintro p qs t o k ch r w hq ⟨hrep, huniq⟩ hprog - he
    have hown := hq.2.1
    have hallows := hq.allows hprog
    rw [liveRegistrations_append]
    rcases World.exec_mem_cases he with ⟨hf, h1, -, h3⟩ | ⟨fd, rfl, hm⟩ | ⟨fd, rfl, hm⟩ |
      ⟨c, fd, u, a, rfl, rfl, hm⟩
    · rw [Roster.track_eq_self h3 h1]
      exact ⟨hrep.frame hf, huniq⟩
    · cases t with
      | watchdog => exact hallows.elim
      | handler c =>
        obtain ⟨hl, rfl⟩ := hallows
        rw [hm]
        exact ⟨hrep.removeSession hown (by rw [← hl]), huniq.filter _⟩
    · rw [Roster.track_eq_self (by simp) (by simp), hm]
      exact ⟨hrep, huniq⟩
    · obtain ⟨hl, rfl, hu⟩ := hallows
      have hq' : qs (.handler c) = ⟨(qs (.handler c)).fd, .serving⟩ := by rw [← hl]
      obtain ⟨-, hsame, hok⟩ := Memory.register_answer hrep hown (u := u) (a := a) hq'
      obtain ⟨rfl, -⟩ := World.exec_register.1 he
      rw [hm]
      cases hr : (p.shared.mem.register c (qs (.handler c)).fd u a).1 with
      | registered s =>
        exact ⟨hrep.register hown hr, huniq.cons ((hok s).1 hr).1⟩
      | alreadyRegistered s =>
        rw [hsame fun hans => by simpa [hr] using (hok p.shared.mem.nextRef).2 ⟨hans, rfl⟩]
        exact ⟨hrep, huniq⟩
      | usernameTaken =>
        rw [hsame fun hans => by simpa [hr] using (hok p.shared.mem.nextRef).2 ⟨hans, rfl⟩]
        exact ⟨hrep, huniq⟩
      | ipTaken =>
        rw [hsame fun hans => by simpa [hr] using (hok p.shared.mem.nextRef).2 ⟨hans, rfl⟩]
        exact ⟨hrep, huniq⟩
  · rintro p qs e w start - ⟨hrep, huniq⟩ - he
    rcases World.env_mem_cases he with ⟨-, hf, -⟩ | ⟨fd, peerIp, -, -, -, rfl⟩
    · exact ⟨hrep.frame hf, huniq⟩
    · exact ⟨hrep, huniq⟩

/-! ## The answers and the history -/

/-- The event is a REGISTER that was answered 200. -/
def Registers (e : Event Server Tid) (r : Registration) : Prop :=
  ∃ fd s, e = ⟨.handler r.conn, .register fd r.name r.ip, .registered s⟩

/-- A registration stays live until its owner runs `remove_session`. -/
theorem mem_liveRegistrations_of_not_left {L R : List (Event Server Tid)} {r : Registration}
    (h : r ∈ liveRegistrations L) (hR : ∀ e ∈ R, ¬ Leaves e r.conn) :
    r ∈ liveRegistrations (L ++ R) := by
  induction R using List.reverseRecOn with
  | nil => simpa using h
  | append_singleton R e ih =>
    have hr := ih fun e' he' => hR e' (List.mem_append_left _ he')
    have hne := hR e (List.mem_append_right _ List.mem_cons_self)
    rw [← List.append_assoc, liveRegistrations_append]
    unfold Roster.track
    split
    · exact List.mem_cons_of_mem _ hr
    · rename_i c fd _
      refine List.mem_filter.2 ⟨hr, ?_⟩
      rw [decide_eq_true_eq]
      intro hc
      exact hne ⟨by rw [hc], fd, rfl⟩
    · exact hr

theorem mem_liveRegistrations_of_registers {L R : List (Event Server Tid)}
    {e : Event Server Tid} {r : Registration} (he : Registers e r)
    (hR : ∀ e ∈ R, ¬ Leaves e r.conn) : r ∈ liveRegistrations (L ++ e :: R) := by
  obtain ⟨fd, s, rfl⟩ := he
  have hr : r ∈ liveRegistrations
      (L ++ [⟨.handler r.conn, .register fd r.name r.ip, .registered s⟩]) := by
    rw [liveRegistrations_append]
    exact List.mem_cons_self
  rw [List.append_cons]
  exact mem_liveRegistrations_of_not_left hr hR

/-- A live registration goes back to a REGISTER that was answered 200. -/
theorem registers_of_mem_liveRegistrations {log : List (Event Server Tid)} {r : Registration}
    (h : r ∈ liveRegistrations log) : ∃ L e R, log = L ++ e :: R ∧ Registers e r := by
  induction log using List.reverseRecOn with
  | nil => cases h
  | append_singleton log e ih =>
    rw [liveRegistrations_append] at h
    have hold : r ∈ liveRegistrations log →
        ∃ L e' R, log ++ [e] = L ++ e' :: R ∧ Registers e' r := by
      intro hr
      obtain ⟨L, e', R, hlog, he'⟩ := ih hr
      exact ⟨L, e', R ++ [e], by rw [hlog]; simp, he'⟩
    unfold Roster.track at h
    split at h
    · rename_i c fd u a s
      rcases List.mem_cons.1 h with rfl | hr
      · exact ⟨log, _, [], rfl, fd, s, rfl⟩
      · exact hold hr
    · exact hold (List.mem_filter.1 h).1
    · exact hold h

/-- A connection whose handler has run `remove_session` is not registered. -/
theorem not_mem_liveRegistrations_of_hasLeft {cfg : Config} {C : State → Step → Prop} {p : State}
    (h : (system cfg).Reaches C p) {r : Registration} (hleft : HasLeft p.log r.conn) :
    r ∉ liveRegistrations p.log := by
  intro hr
  obtain ⟨qs, -, hown, hq⟩ := reachable_owned h
  obtain ⟨fd, s, hs, rfl⟩ := ((represents_liveRegistrations h).1 r).1 hr
  exact ((hq _).1 hleft).2 (hown.owner fd s hs).2

/-- The answer of the locked block of `handle_register`, in a run. -/
theorem register_step {cfg : Config} {C : State → Step → Prop} {p p' : State}
    (h : (system cfg).Reaches C p) {c : ConnId} {ch : Choice} {fd : Fd} {u a : String}
    {k : Memory.RegisterOutcome → Prog Server Ctl}
    (hprog : p.prog (.handler c) = .call (S := Server) (.register fd u a) k)
    (hs : (machine cfg).step p (.op (.handler c) ch) = some p') :
    (∃ via text success, p'.shared.out = update p.shared.out c (p.shared.out c ++
        [⟨via, response ((liveRegistrations p.log).answer ⟨c, u, a⟩) text success⟩])) ∧
      ((liveRegistrations p.log).answer ⟨c, u, a⟩ ≠ StatusCode.OK_REGISTER →
        p'.shared.mem.registry = p.shared.mem.registry) ∧
      ∀ r, ((∃ s, r = .registered s) ∧ p'.log = p.log ++ [⟨.handler c, .register fd u a, r⟩]) →
        (liveRegistrations p.log).answer ⟨c, u, a⟩ = StatusCode.OK_REGISTER := by
  obtain ⟨qs, hq⟩ := reachable_owned h
  have hown := hq.2.1
  obtain ⟨hl, hfd, -⟩ := hq.allows hprog
  have hq' : qs (.handler c) = ⟨fd, .serving⟩ := by rw [← hl, hfd]
  obtain ⟨⟨via, text, success, hreply, hvia⟩, hsame, hok⟩ :=
    Memory.register_answer (represents_liveRegistrations h).1 hown (u := u) (a := a) hq'
  obtain ⟨o, k', r, w, hprog', he, rfl⟩ := Machine.step_op.1 hs
  rw [hprog] at hprog'
  cases hprog'
  change p.shared.exec cfg (.handler c) (.register fd u a) ch = some (r, w) at he
  obtain ⟨rfl, rfl⟩ := World.exec_register.1 he
  obtain ⟨hserve, hopen⟩ := hown.serves c (by simp [hq'])
  have hopen' : (p.shared.mem.register c fd u a).2.fds fd = some c := by
    rw [Memory.register_fds, ← hopen, ← hserve, hq']
  refine ⟨⟨via, text, success, ?_⟩, fun hne => ?_, ?_⟩
  · rw [Pool.afterOp_shared, hreply, World.reply]
    cases via with
    | none => exact World.write_out _ hopen' _ _
    | some s =>
      dsimp only
      rw [hvia s rfl]
      exact World.write_out _ hopen' _ _
  · rw [Pool.afterOp_shared, World.reply_mem]
    dsimp only
    rw [hsame hne]
  · rintro r ⟨⟨s, rfl⟩, hlog⟩
    rw [Pool.afterOp_log, List.append_cancel_left_eq, List.singleton_inj] at hlog
    injection hlog with _ _ hresp
    exact ((hok s).1 hresp).1

/-- A well-formed REGISTER with a name runs the locked block with the address
of the peer, and the block answers what the history calls for: 200 exactly if
no live registration has the connection, the name or the address.  So of two
registrations that share a name or an address the first owner has left before
the second, and a registration is live exactly until its owner leaves. -/
theorem register_refines_history {cfg : Config} {p : State}
    (h : (system cfg).Reaches Lts.Any p) :
    (∀ fd payload reg, cfg.pb.parseRegister payload = some reg → reg.username ≠ "" →
      handleRegister cfg fd payload = (do
        let a ← getPeerIp fd
        let _ ← Prog.perform (S := Server) (.register fd reg.username a)
        pure ())) ∧
    (∀ c fd (k : String → Prog Server Ctl),
      p.prog (.handler c) = .call (S := Server) (.mem (.getPeerIp fd)) k →
      p.shared.mem.fds fd = some c) ∧
    (∀ c ch fd u a (k : Memory.RegisterOutcome → Prog Server Ctl) p',
      p.prog (.handler c) = .call (S := Server) (.register fd u a) k →
      (system cfg).step p (.op (.handler c) ch) = some p' →
      (∃ via text success, p'.shared.out = update p.shared.out c (p.shared.out c ++
        [⟨via, response ((liveRegistrations p.log).answer ⟨c, u, a⟩) text success⟩])) ∧
      ((liveRegistrations p.log).answer ⟨c, u, a⟩ = StatusCode.OK_REGISTER ↔
        ∀ r ∈ liveRegistrations p.log, r.conn ≠ c ∧ r.name ≠ u ∧ r.ip ≠ a) ∧
      ((liveRegistrations p.log).answer ⟨c, u, a⟩ ≠ StatusCode.OK_REGISTER →
        p'.shared.mem.registry = p.shared.mem.registry)) ∧
    (∀ L M R e e' r r', p.log = L ++ e :: (M ++ e' :: R) → Registers e r → Registers e' r' →
      (r.conn = r'.conn ∨ r.name = r'.name ∨ r.ip = r'.ip) → ∃ l ∈ M, Leaves l r.conn) ∧
    ∀ L R e r, p.log = L ++ e :: R → Registers e r →
      (r ∈ liveRegistrations p.log ↔ ∀ l ∈ R, ¬ Leaves l r.conn) := by
  refine ⟨fun fd payload reg hparse hne => ?_, fun c fd k hprog => ?_,
    fun c ch fd u a k p' hprog hs => ?_, fun L M R e e' r r' hlog he he' hshare => ?_,
    fun L R e r hlog he => ⟨fun hr l hl hleft => ?_, fun hR => ?_⟩⟩
  · simp [handleRegister, hparse, hne]
  · obtain ⟨qs, hq⟩ := reachable_owned h
    obtain ⟨hl, rfl⟩ := hq.allows hprog
    obtain ⟨hserve, hopen⟩ := hq.2.1.serves c (by rw [hl]; decide)
    rw [hserve]
    exact hopen
  · obtain ⟨hout, hsame, -⟩ := register_step h hprog hs
    exact ⟨hout, Roster.answer_eq_ok_iff, hsame⟩
  · -- At the second registration the first one is no longer live.
    by_contra hM
    have hM' : ∀ l ∈ M, ¬ Leaves l r.conn := fun l hl hleft => hM ⟨l, hl, hleft⟩
    rw [← List.cons_append, ← List.append_assoc] at hlog
    obtain ⟨fd, s, rfl⟩ := he'
    obtain ⟨q, k, ch, w, hq, hqlog, -, hprog, -, hqs, -⟩ := event_step h hlog
    have hans := (register_step hq hprog hqs).2.2 _ ⟨⟨s, rfl⟩, rfl⟩
    have hr := mem_liveRegistrations_of_registers (L := L) he hM'
    rw [← hqlog] at hr
    obtain ⟨h1, h2, h3⟩ := Roster.answer_eq_ok_iff.1 hans r hr
    rcases hshare with h | h | h
    · exact h1 h
    · exact h2 h
    · exact h3 h
  · exact not_mem_liveRegistrations_of_hasLeft h
      ⟨l, hlog ▸ List.mem_append_right _ (List.mem_cons_of_mem _ hl), hleft⟩ hr
  · rw [hlog]
    exact mem_liveRegistrations_of_registers he hR

/-- The first REGISTER of the second client in `reuseRun` is refused, and "a" registers
again after it has left. -/
theorem register_refines_history_registered :
    (∃ p p', (system sampleConfig).Reaches Lts.Any p ∧
      (system sampleConfig).step p (.op (.handler 1) { want := 100 }) = some p' ∧
      (∃ via text success, p'.shared.out 1 =
        [⟨via, response StatusCode.USERNAME_TAKEN text success⟩]) ∧
      p'.shared.mem.registry = p.shared.mem.registry) ∧
    ∃ p L M R e e', (system sampleConfig).Reaches Lts.Any p ∧ p.log = L ++ e :: (M ++ e' :: R) ∧
      Registers e ⟨0, "a", "10.0.0.1"⟩ ∧ Registers e' ⟨2, "a", "10.0.0.3"⟩ ∧
      (∃ l ∈ M, Leaves l 0) ∧
      liveRegistrations p.log = [⟨2, "a", "10.0.0.3"⟩, ⟨1, "b", "10.0.0.2"⟩] := by
  constructor
  · obtain ⟨p, hp, hbefore⟩ := Lts.exists_reaches_of_run (L := system sampleConfig)
      (reuseRun.take 17)
      (fun p => decide (p.next (.handler 1) = some (.register 5 "a" "10.0.0.2") ∧
        liveRegistrations p.log = [⟨0, "a", "10.0.0.1"⟩] ∧ p.shared.out 1 = []))
      (by decide +kernel)
    obtain ⟨hnext, hlive, hout⟩ := of_decide_eq_true hbefore
    obtain ⟨k, hprog⟩ := Pool.call_of_next hnext
    have hexec : p.shared.exec sampleConfig (.handler 1) (.register 5 "a" "10.0.0.2")
        { want := 100 } = some (_, _) := World.exec_register.2 ⟨rfl, rfl⟩
    have hstep : (system sampleConfig).step p (.op (.handler 1) { want := 100 }) = some _ :=
      Machine.step_op.2 ⟨_, k, _, _, hprog, hexec, rfl⟩
    have hanswer : (liveRegistrations p.log).answer ⟨1, "a", "10.0.0.2"⟩ =
        StatusCode.USERNAME_TAKEN := by
      rw [hlive]
      rfl
    obtain ⟨⟨via, text, success, hreply⟩, -, hsame⟩ :=
      (register_refines_history hp).2.2.1 1 _ 5 "a" "10.0.0.2" k _ hprog hstep
    refine ⟨p, _, hp, hstep, ⟨via, text, success, ?_⟩, hsame ?_⟩
    · rw [hreply, update_self, hout, hanswer]
      rfl
    · rw [hanswer]
      decide
  · obtain ⟨p, hp, hlive⟩ := Lts.exists_reaches_of_run (L := system sampleConfig) reuseRun
      (fun p => decide (⟨0, "a", "10.0.0.1"⟩ ∈ liveRegistrations (p.log.take 6) ∧
        ⟨2, "a", "10.0.0.3"⟩ ∈ liveRegistrations (p.log.drop 6) ∧
        liveRegistrations p.log = [⟨2, "a", "10.0.0.3"⟩, ⟨1, "b", "10.0.0.2"⟩]))
      (by decide +kernel)
    obtain ⟨hfirst, hsecond, hlive⟩ := of_decide_eq_true hlive
    obtain ⟨L, e, M, hL, he⟩ := registers_of_mem_liveRegistrations hfirst
    obtain ⟨M', e', R, hR, he'⟩ := registers_of_mem_liveRegistrations hsecond
    have hlog : p.log = L ++ e :: ((M ++ M') ++ e' :: R) := by
      rw [← List.take_append_drop 6 p.log, hL, hR]
      simp
    refine ⟨p, L, M ++ M', R, e, e', hp, hlog, he, he', ?_, hlive⟩
    exact (register_refines_history hp).2.2.2.1 L _ R e e' _ _ hlog he he' (Or.inr (Or.inl rfl))

end SimpleChat
