import SimpleChat.Conc.Fair
import SimpleChat.Replies

/-!
# Every request is answered

No handler runs forever on what its client has sent.  In each turn of the loop of
`handle_client` it reads some bytes or leaves the loop, and between two calls of `recv` it
is at the end after finitely many operations, whatever the responses are (`onward_wf`).

Hence a fair schedule brings it to where it waits for bytes or has ended, whatever the
other clients do.  There all the frames of its client are dispatched, and nothing is owed
(`requests_answered`).
-/

namespace SimpleChat

open Conc Function Data

/-! ## What is left of a turn -/

/-- The operation is a `recv` that has given bytes. -/
def gotBytes : (o : ServerOp) → o.Resp → Bool
  | .mem (.recv _ _), some ⟨_ :: _, _⟩ => true
  | _, _ => false

/-- Whether the program has got bytes. -/
def bytesMonitor : Prog.Monitor Server Bool :=
  .det (fun _ _ => True) fun q o r => q || gotBytes o r

/-- A handler is back at the head of the loop only after it has got bytes. -/
def LoopsWithBytes : Ctl → Bool → Prop
  | .loop _, q => q = true
  | _, _ => True

theorem obeys_bytes {α : Type} (p : Prog Server α) (q : Bool) :
    p.Obeys bytesMonitor (fun _ q' => q = true → q' = true) q := by
  induction p generalizing q with
  | ret a => exact id
  | call o k ih =>
    refine Prog.obeys_det_call.2 ⟨trivial, fun r => (ih r _).weaken fun _ _ hq h => hq ?_⟩
    rw [h]
    rfl

theorem readExact_bytes (fd : Fd) (n : Nat) :
    ((readExact fd (n + 1)).lift recvEmbedding).Obeys bytesMonitor
      (fun bs q => bs.isSome = true → q = true) false := by
  unfold readExact
  rw [readExactLoop_succ, Prog.lift_call]
  refine Prog.obeys_det_call.2 ⟨trivial, fun r => ?_⟩
  rcases r with _ | ⟨_ | ⟨b, bs⟩, hbs⟩
  · exact fun h => (Bool.false_ne_true h).elim
  · exact fun h => (Bool.false_ne_true h).elim
  · exact (obeys_bytes _ true).weaken fun _ _ hq _ => hq rfl

theorem recvMessage_bytes (fd : Fd) :
    ((recvMessage fd).lift recvEmbedding).Obeys bytesMonitor
      (fun frame q => frame.isSome = true → q = true) false := by
  unfold recvMessage
  rw [Prog.lift_bind]
  refine (readExact_bytes fd 4).bind fun h q hq => ?_
  cases h with
  | none => exact fun h => (Bool.false_ne_true h).elim
  | some h =>
    rw [hq rfl]
    exact (obeys_bytes _ true).weaken fun _ _ hq _ => hq rfl

section Turn

variable (cfg : Config) (fd : Fd)

theorem handleClient_bytes : (handleClient cfg fd).Obeys bytesMonitor LoopsWithBytes false := by
  simp only [handleClient, mem_eq, Prog.call_bind, Prog.ret_bind]
  refine Prog.obeys_det_call.2 ⟨trivial, fun running => ?_⟩
  cases running with
  | false => trivial
  | true =>
    show Prog.Obeys _ _ (_ >>= _) false
    refine (recvMessage_bytes fd).bind fun frame q hq => ?_
    cases frame with
    | none => trivial
    | some frame =>
      rw [hq rfl]
      refine (obeys_bytes _ true).weaken fun ctl q hq => ?_
      cases ctl with
      | loop fd => exact hq rfl
      | cleanup | watchdog | ended => trivial

/-- What is left of a handler after a move, in comparison to before: the number of bytes
that wait for it, and its program. -/
inductive Onward : Nat × Prog Server Ctl → Nat × Prog Server Ctl → Prop
  | op {n m : Nat} {o : ServerOp} {k : o.Resp → Prog Server Ctl} {r : o.Resp} (hle : m ≤ n)
    (hlt : gotBytes o r = true → m < n) : Onward (m, k r) (n, .call (S := Server) o k)
  | loop (n : Nat) (fd : Fd) : Onward (n, handleClient cfg fd) (n, .ret (.loop fd))
  | cleanup (n : Nat) (fd : Fd) : Onward (n, handleClientCleanup fd) (n, .ret (.cleanup fd))

variable {cfg} {n : Nat}

/-- A program comes to its end, or to where it has got bytes. -/
theorem acc_of_obeys {post : Ctl → Bool → Prop} (hfewer : ∀ m < n, ∀ p, Acc (Onward cfg) (m, p))
    (hret : ∀ ctl, post ctl false → Acc (Onward cfg) (n, .ret ctl)) {p : Prog Server Ctl}
    (hp : p.Obeys bytesMonitor post false) : Acc (Onward cfg) (n, p) := by
  induction p with
  | ret ctl => exact hret ctl hp
  | call o k ih =>
    refine ⟨_, fun y hy => ?_⟩
    cases hy with
    | @op _ m _ _ r hle hlt =>
      rcases Nat.lt_or_eq_of_le hle with hm | rfl
      · exact hfewer m hm _
      · have hno : gotBytes o r = false := by
          by_contra hgot
          exact Nat.lt_irrefl m (hlt (Bool.eq_true_of_not_eq_false hgot))
        have hk := (Prog.obeys_det_call.1 hp).2 r
        rw [hno] at hk
        exact ih r hk

theorem acc_ret {ctl : Ctl} (hloop : ∀ fd, ctl ≠ .loop fd) (hcleanup : ∀ fd, ctl ≠ .cleanup fd) :
    Acc (Onward cfg) (n, .ret ctl) := by
  refine ⟨_, fun y hy => ?_⟩
  cases hy with
  | loop fd => exact absurd rfl (hloop _)
  | cleanup fd => exact absurd rfl (hcleanup _)

theorem acc_cleanup (hfewer : ∀ m < n, ∀ p, Acc (Onward cfg) (m, p)) (fd : Fd) :
    Acc (Onward cfg) (n, .ret (.cleanup fd)) := by
  refine ⟨_, fun y hy => ?_⟩
  cases hy
  have hends : (handleClientCleanup fd).Obeys bytesMonitor (fun ctl _ => ctl = .ended) false := by
    refine Prog.obeys_det_call.2 ⟨trivial, fun _ => ?_⟩
    exact Prog.obeys_det_call.2 ⟨trivial, fun _ => rfl⟩
  refine acc_of_obeys hfewer ?_ hends
  rintro _ rfl
  exact acc_ret (by simp) (by simp)

theorem acc_loop (hfewer : ∀ m < n, ∀ p, Acc (Onward cfg) (m, p)) (fd : Fd) :
    Acc (Onward cfg) (n, .ret (.loop fd)) := by
  refine ⟨_, fun y hy => ?_⟩
  cases hy
  refine acc_of_obeys hfewer (fun ctl hctl => ?_) (handleClient_bytes cfg fd)
  cases ctl with
  | loop fd => cases hctl
  | cleanup fd => exact acc_cleanup hfewer fd
  | watchdog | ended => exact acc_ret (by simp) (by simp)

/-- No handler runs forever on a finite number of bytes. -/
theorem onward_wf (cfg : Config) : WellFounded (Onward cfg) := by
  refine ⟨fun ⟨n, p⟩ => ?_⟩
  -- The induction is on the bytes that wait, and for each number of them on the program.
  induction n using Nat.strong_induction_on generalizing p with
  | _ n hfewer =>
    refine acc_of_obeys hfewer (fun ctl _ => ?_) (obeys_bytes p false)
    cases ctl with
    | loop fd => exact acc_loop hfewer fd
    | cleanup fd => exact acc_cleanup hfewer fd
    | watchdog | ended => exact acc_ret (by simp) (by simp)

end Turn

/-! ## The steps of a handler -/

/-- The steps of the handler of connection `c`, as long as it has not ended. -/
def HandlerMoves (c : ConnId) (p : State) : Step → Prop
  | .op t _ => t = .handler c
  | .jump t => t = .handler c ∧ p.prog t ≠ .ret .ended
  | .env _ => False

/-- What is left of the handler: the number of bytes that wait for it, and its program. -/
def State.left (p : State) (c : ConnId) : Nat × Prog Server Ctl :=
  ((p.shared.mem.conns c).pending.length, p.prog (.handler c))

section Steps

variable {cfg : Config} {p p' : State} {c : ConnId} {l : Step}

/-- A handler that is at a control point is at one of `handle_client`. -/
theorem Owned.ne_watchdog {qs : Tid → Phase} (h : Owned p qs) {ctl : Ctl}
    (hprog : p.prog (.handler c) = .ret ctl) : ctl ≠ .watchdog := by
  rintro rfl
  have hat := h.1 (.handler c)
  rw [hprog] at hat
  exact hat

/-- An operation takes no byte of its connection, or gives those that it takes. -/
theorem exec_pending {w w' : World} {o : ServerOp} {ch : Choice} {r : o.Resp}
    (hown : ∀ fd len, o = .mem (.recv fd len) → w.mem.fds fd = some c)
    (he : w.exec cfg (.handler c) o ch = some (r, w')) :
    (w'.mem.conns c).pending.length ≤ (w.mem.conns c).pending.length ∧
      (gotBytes o r = true →
        (w'.mem.conns c).pending.length < (w.mem.conns c).pending.length) := by
  by_cases hrecv : ∃ fd len, o = .mem (.recv fd len)
  · obtain ⟨fd, len, rfl⟩ := hrecv
    obtain ⟨⟨r', m⟩, hm, hx⟩ := Option.map_eq_some_iff.1 he
    cases hx
    rcases Memory.recv_cases hm with ⟨-, rfl, rfl⟩ | ⟨_, -, -, -, rfl, rfl⟩ |
      ⟨d, bs, hd, rfl, hfirst, -, rfl⟩
    · exact ⟨Nat.le_refl _, fun hgot => (Bool.false_ne_true hgot).elim⟩
    · exact ⟨Nat.le_refl _, fun hgot => (Bool.false_ne_true hgot).elim⟩
    · cases hd.symm.trans (hown fd len rfl)
      have hlen := hfirst.length_le
      rw [modifyConn_self]
      show (List.drop _ _).length ≤ _ ∧ (_ → (List.drop _ _).length < _)
      rw [List.length_drop]
      refine ⟨Nat.sub_le _ _, fun hgot => ?_⟩
      have hpos : 0 < bs.val.length := by
        obtain ⟨_ | ⟨b, rest⟩, hbs⟩ := bs
        · exact (Bool.false_ne_true hgot).elim
        · exact Nat.succ_pos _
      omega
  · have hnot : ∀ fd len, o ≠ .mem (.recv fd len) := fun fd len heq => hrecv ⟨fd, len, heq⟩
    rw [exec_conns he hnot]
    refine ⟨Nat.le_refl _, fun hgot => ?_⟩
    unfold gotBytes at hgot
    split at hgot
    · exact absurd rfl (hnot _ _)
    · exact (Bool.false_ne_true hgot).elim

/-- A move of the handler brings it on. -/
theorem onward_of_move (h : (system cfg).Reaches Lts.Any p) (hmove : HandlerMoves c p l)
    (hs : (system cfg).step p l = some p') : Onward cfg (p'.left c) (p.left c) := by
  obtain ⟨qs, hown⟩ := reachable_owned h
  cases l with
  | op t ch =>
    obtain rfl : t = .handler c := hmove
    obtain ⟨o, k, r, w, hprog, he, rfl⟩ := Machine.step_op.1 hs
    have hfd : ∀ fd len, o = .mem (.recv fd len) → p.shared.mem.fds fd = some c := by
      rintro fd len rfl
      obtain ⟨d, hd, hfds⟩ := hown.recv_own hprog
      cases hd
      exact hfds
    obtain ⟨hle, hlt⟩ := exec_pending hfd he
    unfold State.left
    rw [hprog, Pool.afterOp_prog, update_self]
    exact .op hle hlt
  | jump t =>
    obtain ⟨rfl, hne⟩ := hmove
    obtain ⟨ctl, hprog, rfl⟩ := Machine.step_jump.1 hs
    unfold State.left
    rw [hprog, Pool.withProg_prog, update_self]
    cases ctl with
    | loop fd => exact .loop _ fd
    | cleanup fd => exact .cleanup _ fd
    | watchdog => exact absurd rfl (hown.ne_watchdog hprog)
    | ended => exact absurd hprog hne
  | env e => exact hmove.elim

/-- The other steps leave it where it is, unless the client sends something. -/
theorem left_of_other (h : (system cfg).Reaches Lts.Any p) (hc : c < p.shared.mem.nextConn)
    (hmove : ¬ HandlerMoves c p l) (hinput : ∀ bs, l ≠ .env (.clientSend c bs))
    (hs : (system cfg).step p l = some p') : p'.left c = p.left c := by
  obtain ⟨qs, hown⟩ := reachable_owned h
  unfold State.left
  cases l with
  | op t ch =>
    obtain ⟨o, k, r, w, hprog, he, rfl⟩ := Machine.step_op.1 hs
    have ht : t ≠ .handler c := hmove
    rw [Pool.afterOp_shared, Pool.afterOp_prog, update_of_ne (Ne.symm ht),
      exec_conns_other hown hprog he ht]
  | jump t =>
    obtain ⟨ctl, hprog, rfl⟩ := Machine.step_jump.1 hs
    rw [Pool.withProg_prog]
    by_cases ht : t = .handler c
    · subst ht
      have hended : p.prog (.handler c) = .ret .ended := by
        by_contra hne
        exact hmove ⟨rfl, hne⟩
      rw [update_self, hended]
      cases hprog.symm.trans hended
      rfl
    · rw [update_of_ne (Ne.symm ht)]
      rfl
  | env e =>
    obtain ⟨w, start, he, rfl⟩ := Machine.step_env.1 hs
    cases e with
    | accept fd peerIp =>
      obtain ⟨_, he⟩ := Option.ite_none_right_eq_some.1 he
      cases he
      have hne : Tid.handler c ≠ .handler p.shared.mem.nextConn := fun heq =>
        Nat.ne_of_lt hc (Tid.handler.inj heq)
      rw [Pool.afterEnv_shared, Pool.afterEnv_some_prog, update_of_ne hne,
        accept_conns_of_ne _ fd peerIp (Nat.ne_of_lt hc)]
    | clientSend d bs =>
      obtain ⟨_, he⟩ := Option.ite_none_right_eq_some.1 he
      cases he
      have hd : c ≠ d := by
        rintro rfl
        exact hinput bs rfl
      rw [Pool.afterEnv_shared, modifyConn_of_ne _ _ _ hd]
      rfl
    | clientClose d =>
      obtain ⟨_, he⟩ := Option.ite_none_right_eq_some.1 he
      cases he
      rw [Pool.afterEnv_shared]
      by_cases hd : c = d
      · subst hd
        rw [modifyConn_self]
        rfl
      · rw [modifyConn_of_ne _ _ _ hd]
        rfl
    | tick d =>
      cases he
      rfl

/-- `recv` does not wait if there is something to read. -/
theorem recv_enabled {m : Memory} {fd : Fd} (hfd : m.fds fd = some c)
    (hne : (m.conns c).pending ≠ []) (len want : Nat) :
    ∃ r m', m.recv fd len want = some (r, m') := by
  unfold Memory.recv
  rw [hfd]
  dsimp only
  rw [if_neg hne]
  exact ⟨_, _, rfl⟩

/-- A handler that cannot move waits for bytes or has ended. -/
theorem starved_of_stuck (h : (system cfg).Reaches Lts.Any p)
    (hstuck : ¬ (system cfg).Can (HandlerMoves c) p) :
    Starved p c ∨ p.prog (.handler c) = .ret .ended := by
  obtain ⟨qs, hown⟩ := reachable_owned h
  cases hprog : p.prog (.handler c) with
  | ret ctl =>
    refine Or.inr ?_
    by_contra hne
    refine hstuck ⟨.jump (.handler c), _, ⟨rfl, ?_⟩, Machine.step_jump.2 ⟨ctl, hprog, rfl⟩⟩
    rwa [hprog]
  | call o k =>
    refine Or.inl ?_
    have hexec : ∀ ch r w, p.shared.exec cfg (.handler c) o ch ≠ some (r, w) := fun ch r w he =>
      hstuck ⟨.op (.handler c) ch, _, rfl, Machine.step_op.2 ⟨o, k, r, w, hprog, he, rfl⟩⟩
    by_cases hrecv : ∃ fd len, o = .mem (.recv fd len)
    · obtain ⟨fd, len, rfl⟩ := hrecv
      obtain ⟨d, hd, hfds⟩ := hown.recv_own hprog
      cases hd
      refine ⟨?_, fd, len, k, hprog⟩
      by_contra hne
      obtain ⟨r, m, hm⟩ := recv_enabled hfds hne len 1
      exact hexec {} r _ (World.exec_mem hm)
    · have hnot : ∀ fd len, o ≠ .mem (.recv fd len) := fun fd len heq => hrecv ⟨fd, len, heq⟩
      obtain ⟨ch, r, w, he⟩ := exec_enabled p.shared o hnot
      exact absurd he (hexec ch r w)

/-- It cannot while it waits for bytes of a client that has not closed its end. -/
theorem not_can_of_starved (h : (system cfg).Reaches Lts.Any p) (hstarved : Starved p c)
    (heof : (p.shared.mem.conns c).eof = false) : ¬ (system cfg).Can (HandlerMoves c) p := by
  rintro ⟨l, p', hmove, hs⟩
  obtain ⟨qs, hown⟩ := reachable_owned h
  obtain ⟨hnil, fd, len, k, hprog⟩ := hstarved
  cases l with
  | op t ch =>
    obtain rfl : t = .handler c := hmove
    obtain ⟨o, k', r, w, hprog', he, -⟩ := Machine.step_op.1 hs
    cases hprog.symm.trans hprog'
    obtain ⟨d, hd, hfd⟩ := hown.recv_own hprog
    cases hd
    obtain ⟨x, hx, -⟩ := Option.map_eq_some_iff.1 he
    change p.shared.mem.recv fd len ch.want = some x at hx
    unfold Memory.recv at hx
    rw [hfd] at hx
    dsimp only at hx
    rw [if_pos hnil, heof] at hx
    cases hx
  | jump t =>
    obtain ⟨rfl, -⟩ := hmove
    obtain ⟨ctl, hctl, -⟩ := Machine.step_jump.1 hs
    cases hprog.symm.trans hctl
  | env e => exact hmove.elim

end Steps

/-! ## The result -/

section Path

variable {cfg : Config} {r : (system cfg).Path} {c : ConnId}

theorem path_reaches (h : (system cfg).Reaches Lts.Any (r.state 0)) (n : Nat) :
    (system cfg).Reaches Lts.Any (r.state n) := h.steps (Lts.Path.steps (Nat.zero_le n))

theorem path_accepted (hc : c < (r.state 0).shared.mem.nextConn) (n : Nat) :
    c < (r.state n).shared.mem.nextConn :=
  Nat.lt_of_lt_of_le hc (steps_later (Lts.Path.steps (Nat.zero_le n))).nextConn

/-- Where the client sends nothing, nothing arrives. -/
theorem path_sentBytes (h : (system cfg).Reaches Lts.Any (r.state 0))
    (hinput : ∀ n bs, r.label n ≠ .env (.clientSend c bs)) (n : Nat) :
    (r.state n).shared.mem.sentBytes c = (r.state 0).shared.mem.sentBytes c := by
  induction n with
  | zero => rfl
  | succ n ih =>
    have hnone : arrivals c (r.label n) = [] := by
      unfold arrivals
      split
      · rename_i d bs hl
        refine if_neg fun hd => ?_
        exact hinput n bs (hd ▸ hl)
      · rfl
    rw [step_sentBytes (path_reaches h n) (r.step n), hnone, List.append_nil, ih]

/-- On a path that is fair to the handler of a connection, and on which its client sends
nothing more, the handler comes to where it waits for bytes or has ended, and stays there.
The requests that it has dispatched then are all the frames that the client has sent, up to
the first QUIT, and nothing is owed to the client. -/
theorem requests_answered (h : (system cfg).Reaches Lts.Any (r.state 0))
    (hc : c < (r.state 0).shared.mem.nextConn)
    (hinput : ∀ n bs, r.label n ≠ .env (.clientSend c bs)) (hfair : r.Fair (HandlerMoves c)) :
    ∃ n fs, frameCode.IsLongest ((r.state 0).shared.mem.sentBytes c) fs ∧ ∀ m, n ≤ m →
      (Starved (r.state m) c ∨ (r.state m).prog (.handler c) = .ret .ended) ∧
        (transcript c (r.state m).log).entries.filterMap Entry.asRequest =
          (cutAfter isQuit fs).map Subtype.val ∧
        ∃ turn, Orderly cfg (transcript c (r.state m).log).entries turn ∧
          (turn = .idle ∨ turn = .quitting) := by
  obtain ⟨n, hstuck, hleft⟩ := Lts.Path.settles (f := fun p => p.left c) (onward_wf cfg)
    (fun n hmove => onward_of_move (path_reaches h n) hmove (r.step n))
    (fun n hmove =>
      left_of_other (path_reaches h n) (path_accepted hc n) hmove (hinput n) (r.step n))
    hfair
  have hend := starved_of_stuck (path_reaches h n) hstuck
  obtain ⟨fs, hfs⟩ := PrefixCode.exists_isLongest frameCode ((r.state 0).shared.mem.sentBytes c)
  refine ⟨n, fs, hfs, fun m hm => ?_⟩
  have hreach := path_reaches h m
  obtain ⟨hlength, hprog⟩ := Prod.mk.inj (hleft m hm)
  have hrest : Starved (r.state m) c ∨ (r.state m).prog (.handler c) = .ret .ended := by
    rcases hend with ⟨hnil, fd, len, k, hrecv⟩ | hended
    · rw [hnil] at hlength
      exact Or.inl ⟨List.eq_nil_of_length_eq_zero hlength, fd, len, k, hprog.trans hrecv⟩
    · exact Or.inr (hprog.trans hended)
  refine ⟨hrest, ?_, ?_⟩
  · obtain ⟨gs, hgs, -, hall⟩ := dispatched_cut hreach (path_accepted hc m)
    rw [path_sentBytes h hinput] at hgs
    rw [transcript_requests, hall, hgs.unique hfs]
    rcases hrest with hstarved | hended
    · exact Or.inr hstarved
    · rw [hended]
      exact Or.inl trivial
  · obtain ⟨turn, horderly, hrecv, hctl, -⟩ := transcript_orderly hreach c
    refine ⟨turn, horderly, ?_⟩
    rcases hrest with ⟨-, fd, len, k, hwaits⟩ | hended
    · exact Or.inl (hrecv fd len (Pool.next_of_call hwaits))
    · exact hctl _ hended

end Path

/-- The handler reads the Register message of "a", answers it, and waits. -/
def answerRun : List Step := turn (.handler 0) 6 ++ turn (.handler 0) 1

/-- While another thread, which has ended, is all that goes on, "a" is answered. -/
theorem requests_answered_register :
    ∃ r : (system sampleConfig).Path, (system sampleConfig).Reaches Lts.Any (r.state 0) ∧
      dispatched 0 (r.state 0).log = [] ∧ r.Fair (HandlerMoves 0) ∧
      ∃ n, ∀ m, n ≤ m →
        (transcript 0 (r.state m).log).entries.filterMap Entry.asRequest = [(1, [10, 1, 97])] ∧
        ∃ turn, Orderly sampleConfig (transcript 0 (r.state m).log).entries turn ∧
          (turn = .idle ∨ turn = .quitting) := by
  have ⟨p, hp, hrun⟩ := Lts.exists_reaches_of_run (L := system sampleConfig)
    [.env (.accept 4 "10.0.0.1"), .env (.clientSend 0 [1, 0, 0, 0, 3, 10, 1, 97])]
    (fun p => decide (0 < p.shared.mem.nextConn) && decide (dispatched 0 p.log = []) &&
      ((system sampleConfig).run p answerRun).any fun s : State =>
        decide ((s.shared.mem.conns 0).pending = []) && !(s.shared.mem.conns 0).eof &&
        decide (s.next (.handler 0) = some (.mem (.recv 4 5))) &&
        decide ((s.prog (.handler 7)).returned = some .ended) &&
        decide ((transcript 0 s.log).entries.filterMap Entry.asRequest = [(1, [10, 1, 97])]))
    (by decide +kernel)
  simp only [Bool.and_eq_true, decide_eq_true_eq, Option.any_eq_true, Bool.not_eq_true',
    Prog.returned_eq_some] at hrun
  obtain ⟨⟨hlt, hnone⟩, s, hs, ⟨⟨⟨hnil, heof⟩, hnext⟩, hended⟩, hrequests⟩ := hrun
  obtain ⟨k, hprog⟩ := Pool.call_of_next hnext
  have hstay : (system sampleConfig).step s (.jump (.handler 7)) = some s := by
    refine Machine.step_jump.2 ⟨.ended, hended, ?_⟩
    show s = { s with prog := update s.prog (.handler 7) (.ret .ended) }
    rw [← hended, update_eq_self]
  obtain ⟨r, hr, hlabels, N, hend⟩ := Lts.Path.exists_of_run hs hstay
  have hsteps : (system sampleConfig).Reaches Lts.Any s :=
    hp.steps (.of_run hs fun _ _ _ => trivial)
  have hfair : r.Fair (HandlerMoves 0) :=
    .of_end hend (not_can_of_starved hsteps ⟨hnil, 4, 5, k, hprog⟩ heof)
  have hinput : ∀ n bs, r.label n ≠ .env (.clientSend 0 bs) := by
    intro n bs hl
    rcases hlabels n with hn | hn
    · rw [hl] at hn
      cases hn
    · rw [hl] at hn
      simp [answerRun, turn] at hn
  rw [← hr] at hp hlt hnone
  obtain ⟨n, fs, -, hall⟩ := requests_answered hp hlt hinput hfair
  have hfs : (cutAfter isQuit fs).map Subtype.val = [(1, [10, 1, 97])] := by
    rw [← (hall (max n N) (Nat.le_max_left n N)).2.1, hend _ (Nat.le_max_right n N)]
    exact hrequests
  refine ⟨r, hp, hnone, hfair, n, fun m hm => ?_⟩
  obtain ⟨-, hdispatched, hturn⟩ := hall m hm
  exact ⟨hdispatched.trans hfs, hturn⟩

end SimpleChat
