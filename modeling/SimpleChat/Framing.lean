import SimpleChat.Data.PrefixCode
import SimpleChat.Protocol

/-!
# Framing

A frame on the wire is a type byte, four length bytes in big endian, and the
payload.  The frames whose payload `recv_message` accepts form a prefix code
(`frameCode`), so a byte stream can be cut into frames in one way only.

`readMonitor` and `writeMonitor` say what the loops of `read_exact` and
`write_exact` do to the stream, whatever each single `recv()` and `send()`
returns.  `recvMessage_reads_frame` and `sendMessage_writes_frame` are the two
functions in these terms, and `recv_frames_sent` puts them together.
-/

namespace SimpleChat

open Conc Data

/-! ## The header -/

/-- A byte of the header, as a number. -/
theorem toNat_byte (len : UInt32) (k : UInt32) (hk : k.toNat < 32) :
    ((len >>> k) &&& 0xFF).toUInt8.toNat = len.toNat / 2 ^ k.toNat % 256 := by
  have hmask : (0xFF : UInt32).toNat = 2 ^ 8 - 1 := rfl
  rw [UInt32.toNat_toUInt8, UInt32.toNat_and, UInt32.toNat_shiftRight, hmask,
    Nat.and_two_pow_sub_one_eq_mod, Nat.mod_eq_of_lt hk, Nat.shiftRight_eq_div_pow]
  omega

theorem toNat_byte0 (len : UInt32) : (len &&& 0xFF).toUInt8.toNat = len.toNat % 256 := by
  have hmask : (0xFF : UInt32).toNat = 2 ^ 8 - 1 := rfl
  rw [UInt32.toNat_toUInt8, UInt32.toNat_and, hmask, Nat.and_two_pow_sub_one_eq_mod]
  omega

/-- A byte shifted into place, without the wrap around. -/
theorem toNat_shift (b : UInt8) (k : UInt32) (hk : k.toNat ≤ 24) :
    (b.toUInt32 <<< k).toNat = b.toNat * 2 ^ k.toNat := by
  have hpow : 2 ^ k.toNat ≤ 2 ^ 24 := Nat.pow_le_pow_right (by decide) hk
  have hb : b.toNat * 2 ^ k.toNat ≤ 255 * 2 ^ 24 :=
    Nat.mul_le_mul (by have := b.toNat_lt; omega) hpow
  rw [UInt32.toNat_shiftLeft, UInt8.toNat_toUInt32, Nat.mod_eq_of_lt (show k.toNat < 32 by omega),
    Nat.shiftLeft_eq, Nat.mod_eq_of_lt (by omega)]

/-- A number below the lowest bit of another is added by `or`. -/
theorem or_low {a b i : Nat} (h : b < 2 ^ i) : (a * 2 ^ i) ||| b = a * 2 ^ i + b := by
  rw [← Nat.shiftLeft_eq, ← Nat.shiftLeft_add_eq_or_of_lt h]

/-- The length field as a number: the bytes in big endian. -/
theorem toNat_headerLen (t b3 b2 b1 b0 : UInt8) (rest : Bytes) :
    (headerLen (t :: b3 :: b2 :: b1 :: b0 :: rest)).toNat =
      b3.toNat * 2 ^ 24 + b2.toNat * 2 ^ 16 + b1.toNat * 2 ^ 8 + b0.toNat := by
  have h2 := b2.toNat_lt
  have h1 := b1.toNat_lt
  have h0 := b0.toNat_lt
  have e24 : (24 : UInt32).toNat = 24 := rfl
  have e16 : (16 : UInt32).toNat = 16 := rfl
  have e8 : (8 : UInt32).toNat = 8 := rfl
  simp only [headerLen, List.getD_cons_succ, List.getD_cons_zero, UInt32.toNat_or,
    toNat_shift b3 24 (by decide), toNat_shift b2 16 (by decide), toNat_shift b1 8 (by decide),
    UInt8.toNat_toUInt32, e24, e16, e8]
  have hhigh : b3.toNat * 2 ^ 24 ||| b2.toNat * 2 ^ 16 =
      (b3.toNat * 2 ^ 8 + b2.toNat) * 2 ^ 16 := by
    rw [or_low (by omega)]
    omega
  have hmid : (b3.toNat * 2 ^ 8 + b2.toNat) * 2 ^ 16 ||| b1.toNat * 2 ^ 8 =
      ((b3.toNat * 2 ^ 8 + b2.toNat) * 2 ^ 8 + b1.toNat) * 2 ^ 8 := by
    rw [or_low (by omega)]
    omega
  rw [hhigh, hmid, or_low (by omega)]
  omega

/-- The length that `send_message` writes is the length that `recv_message`
reads. -/
theorem headerLen_header (msgType : UInt8) (len : UInt32) (rest : Bytes) :
    headerLen (header msgType len ++ rest) = len := by
  have hlen := len.toNat_lt
  apply UInt32.toNat_inj.1
  show (headerLen (_ :: _ :: _ :: _ :: _ :: rest)).toNat = len.toNat
  rw [toNat_headerLen, toNat_byte _ _ (by decide), toNat_byte _ _ (by decide),
    toNat_byte _ _ (by decide), toNat_byte0]
  show len.toNat / 2 ^ 24 % 256 * 2 ^ 24 + len.toNat / 2 ^ 16 % 256 * 2 ^ 16 +
    len.toNat / 2 ^ 8 % 256 * 2 ^ 8 + len.toNat % 256 = len.toNat
  omega

/-- Every five bytes are the header of their type and length. -/
theorem header_headerLen {h : Bytes} (hlen : h.length = HEADER_SIZE) :
    header (h.getD 0 0) (headerLen h) = h := by
  match h, hlen with
  | [t, b3, b2, b1, b0], _ =>
    have hnat := toNat_headerLen t b3 b2 b1 b0 []
    have h3 := b3.toNat_lt
    have h2 := b2.toNat_lt
    have h1 := b1.toNat_lt
    have h0 := b0.toNat_lt
    have e3 : ((headerLen [t, b3, b2, b1, b0] >>> 24) &&& 0xFF).toUInt8 = b3 := by
      apply UInt8.toNat_inj.1
      rw [toNat_byte _ _ (by decide), hnat]
      show _ / 2 ^ 24 % 256 = _
      omega
    have e2 : ((headerLen [t, b3, b2, b1, b0] >>> 16) &&& 0xFF).toUInt8 = b2 := by
      apply UInt8.toNat_inj.1
      rw [toNat_byte _ _ (by decide), hnat]
      show _ / 2 ^ 16 % 256 = _
      omega
    have e1 : ((headerLen [t, b3, b2, b1, b0] >>> 8) &&& 0xFF).toUInt8 = b1 := by
      apply UInt8.toNat_inj.1
      rw [toNat_byte _ _ (by decide), hnat]
      show _ / 2 ^ 8 % 256 = _
      omega
    have e0 : (headerLen [t, b3, b2, b1, b0] &&& 0xFF).toUInt8 = b0 := by
      apply UInt8.toNat_inj.1
      rw [toNat_byte0, hnat]
      omega
    rw [header, e3, e2, e1, e0]
    rfl

@[simp] theorem length_header (msgType : UInt8) (len : UInt32) :
    (header msgType len).length = HEADER_SIZE := rfl

/-- The type byte is the first of the header. -/
theorem header_type (msgType : UInt8) (len : UInt32) (rest : Bytes) :
    (header msgType len ++ rest).getD 0 0 = msgType := rfl

/-- What follows the header does not change the length field. -/
theorem headerLen_append {h : Bytes} (hlen : h.length = HEADER_SIZE) (rest : Bytes) :
    headerLen (h ++ rest) = headerLen h := by
  match h, hlen with
  | [t, b3, b2, b1, b0], _ => rfl

/-! ## Frames -/

/-- The bytes that `send_message` writes for a payload.  The payload is cut
where its length does not fit in the length field. -/
def encodeFrame (msgType : UInt8) (payload : Bytes) : Bytes :=
  header msgType (UInt32.ofNat payload.length) ++
    payload.take (UInt32.ofNat payload.length).toNat

/-- A frame that `recv_message` accepts. -/
abbrev WireFrame := {f : UInt8 × Bytes // f.2.length ≤ MAX_PAYLOAD}

/-- A payload within the limit has a length that fits in the length field. -/
theorem toNat_payload_length {payload : Bytes} (h : payload.length ≤ MAX_PAYLOAD) :
    (UInt32.ofNat payload.length).toNat = payload.length := by
  unfold MAX_PAYLOAD at h
  rw [UInt32.toNat_ofNat']
  omega

theorem encodeFrame_of_le {payload : Bytes} (h : payload.length ≤ MAX_PAYLOAD) (msgType : UInt8) :
    encodeFrame msgType payload = header msgType (UInt32.ofNat payload.length) ++ payload := by
  rw [encodeFrame, toNat_payload_length h, List.take_length]

theorem encodeFrame_ne_nil (msgType : UInt8) (payload : Bytes) :
    encodeFrame msgType payload ≠ [] := by
  simp [encodeFrame, header]

/-- A stream that starts with a frame has the length of its payload in the
length field, and is no shorter than the frame. -/
theorem headerLen_of_prefix {payload s : Bytes} {msgType : UInt8}
    (h : payload.length ≤ MAX_PAYLOAD) (hs : encodeFrame msgType payload <+: s) :
    (headerLen s).toNat = payload.length ∧ HEADER_SIZE + payload.length ≤ s.length ∧
      s.getD 0 0 = msgType := by
  have ⟨rest, hrest⟩ := hs
  rw [encodeFrame_of_le h, List.append_assoc] at hrest
  subst hrest
  refine ⟨?_, ?_, header_type _ _ _⟩
  · rw [headerLen_header, toNat_payload_length h]
  · simp only [List.length_append, length_header]
    omega

/-- The frames that `recv_message` accepts, as a prefix code. -/
def frameCode : PrefixCode WireFrame UInt8 where
  word f := encodeFrame f.1.1 f.1.2
  word_ne_nil f := by
    simp [encodeFrame, header]
  prefix_free f g h := by
    have hg := headerLen_of_prefix g.2 (List.prefix_refl (encodeFrame g.1.1 g.1.2))
    have hf := headerLen_of_prefix f.2 h
    have hlen : f.1.2.length = g.1.2.length := hf.1.symm.trans hg.1
    have htype : f.1.1 = g.1.1 := hf.2.2.symm.trans hg.2.2
    rw [encodeFrame_of_le f.2, encodeFrame_of_le g.2, htype, hlen,
      List.prefix_append_right_inj] at h
    exact Subtype.ext (Prod.ext htype (h.eq_of_length hlen))

/-- A stream shorter than its length field says starts with no frame. -/
theorem stuck_of_short {s : Bytes} (h : s.length < HEADER_SIZE + (headerLen s).toNat) :
    frameCode.Stuck s := by
  intro f hf
  have hlen := headerLen_of_prefix f.2 hf
  omega

theorem stuck_of_header {s : Bytes} (h : s.length < HEADER_SIZE) : frameCode.Stuck s :=
  stuck_of_short (by omega)

/-- A stream whose length field is over the limit starts with no frame. -/
theorem stuck_of_oversize {s : Bytes} (h : MAX_PAYLOAD < (headerLen s).toNat) :
    frameCode.Stuck s := by
  intro f hf
  have hlen := headerLen_of_prefix f.2 hf
  have hmax := f.2
  omega

/-! ## Reading -/

/-- Why a reader stops. -/
inductive Ending where
  /-- `recv` returned no byte. -/
  | eof
  | error
  /-- A frame of type QUIT was read. -/
  | quit
  deriving DecidableEq

/-- What a reader has taken from its stream since the last frame. -/
structure Reading where
  got : Bytes := []
  ending : Option Ending := none

/-- The effect of a response of `recv`. -/
def Reading.after {n : Nat} (q : Reading) : Option {bs : Bytes // bs.length ≤ n} → Reading
  | none => { q with ending := some .error }
  | some ⟨[], _⟩ => { q with ending := some .eof }
  | some ⟨b :: bs, _⟩ => { q with got := q.got ++ b :: bs }

/-- No frame can be read any more. -/
def Reading.Done (q : Reading) : Prop :=
  match q.ending with
  | none => ∀ rest, frameCode.Stuck (q.got ++ rest)
  | some .eof => frameCode.Stuck q.got
  | some .error => True
  | some .quit => q.got = []

/-- A reader asks for at least one byte, and only while it has no complete
frame and has not stopped. -/
def readMonitor : Prog.Monitor Recv Reading where
  guard q o := 0 < o.len ∧ frameCode.Stuck q.got ∧ q.ending = none
  next q _ r q' := q' = q.after r

/-- The outcome of reading `len` bytes on top of `got`. -/
def ReadsExact (got buf : Bytes) (len : Nat) : Option Bytes → Reading → Prop
  | some b, q => ∃ bs, b = buf ++ bs ∧ bs.length = len ∧ q = ⟨got ++ bs, none⟩
  | none, q => ∃ bs, bs.length < len ∧ q.got = got ++ bs ∧
      (q.ending = some .eof ∨ q.ending = some .error)

theorem readExactLoop_obeys (fd : Fd) {fuel len : Nat} {got buf : Bytes} (hfuel : len ≤ fuel)
    (hstuck : ∀ bs : Bytes, bs.length < len → frameCode.Stuck (got ++ bs)) :
    (readExactLoop fd fuel len buf).Obeys readMonitor (ReadsExact got buf len) ⟨got, none⟩ := by
  induction fuel generalizing len got buf with
  | zero =>
    have hlen : len = 0 := by omega
    subst hlen
    exact ⟨[], by simp, rfl, by simp⟩
  | succ fuel ih =>
    cases len with
    | zero => exact ⟨[], by simp, rfl, by simp⟩
    | succ len =>
      rw [readExactLoop_succ, Prog.obeys_call]
      have hnow : frameCode.Stuck got := by simpa using hstuck [] (by simp)
      refine ⟨⟨Nat.succ_pos len, hnow, rfl⟩, fun r => ⟨_, rfl, ?_⟩⟩
      match r with
      | none => exact ⟨[], by simp, by simp [Reading.after], Or.inr rfl⟩
      | some ⟨[], _⟩ => exact ⟨[], by simp, by simp [Reading.after], Or.inl rfl⟩
      | some ⟨b :: bs, hbs⟩ =>
        -- The bytes that `recv` gave move from what is left to what was read.
        have hle : (b :: bs).length ≤ len + 1 := hbs
        have hpos : 0 < (b :: bs).length := by simp
        have hrest : ∀ bs' : Bytes, bs'.length < len + 1 - (b :: bs).length →
            frameCode.Stuck (got ++ (b :: bs) ++ bs') := by
          intro bs' hbs'
          rw [List.append_assoc]
          apply hstuck
          rw [List.length_append]
          omega
        refine (ih (by omega) hrest).weaken fun r q hq => ?_
        cases r with
        | none =>
          have ⟨bs', hlen, hgot, hend⟩ := hq
          refine ⟨b :: bs ++ bs', ?_, by rw [hgot, List.append_assoc], hend⟩
          rw [List.length_append]
          omega
        | some r =>
          have ⟨bs', hr, hlen, hq⟩ := hq
          refine ⟨b :: bs ++ bs', by rw [hr, List.append_assoc], ?_, ?_⟩
          · rw [List.length_append]
            omega
          · rw [hq, List.append_assoc]

theorem readExact_obeys (fd : Fd) {len : Nat} {got : Bytes}
    (hstuck : ∀ bs : Bytes, bs.length < len → frameCode.Stuck (got ++ bs)) :
    (readExact fd len).Obeys readMonitor (ReadsExact got [] len) ⟨got, none⟩ :=
  readExactLoop_obeys fd (Nat.le_refl len) hstuck

/-- The outcome of `recv_message`: it read the frame that it returns, or no
frame can be read. -/
def ReadsFrame : Option (UInt8 × Bytes) → Reading → Prop
  | some f, q => f.2.length ≤ MAX_PAYLOAD ∧ q = ⟨encodeFrame f.1 f.2, none⟩
  | none, q => q.Done

/-- A read that fell short leaves no frame in what was read. -/
theorem done_of_short {q : Reading} (hstuck : frameCode.Stuck q.got)
    (hend : q.ending = some .eof ∨ q.ending = some .error) : q.Done := by
  unfold Reading.Done
  rcases hend with h | h <;> rw [h]
  · exact hstuck
  · trivial

/-- Whatever the single calls of `recv` return, `recv_message` returns the
frame that it read, and fails only where no frame can be read. -/
theorem recvMessage_obeys (fd : Fd) :
    (recvMessage fd).Obeys readMonitor ReadsFrame ⟨[], none⟩ := by
  unfold recvMessage
  have hheader : ∀ bs : Bytes, bs.length < HEADER_SIZE → frameCode.Stuck ([] ++ bs) :=
    fun bs hbs => stuck_of_header hbs
  refine (readExact_obeys fd hheader).bind fun r q hq => ?_
  cases r with
  | none =>
    have ⟨bs, hlen, hgot, hend⟩ := hq
    exact done_of_short (by rw [hgot]; exact hheader bs hlen) hend
  | some h =>
    have ⟨bs, hbs, hlen, hq⟩ := hq
    rw [List.nil_append] at hbs hq
    subst hbs hq
    have hframe := header_headerLen hlen
    show Prog.Obeys _ _ (if 16 * 1024 * 1024 < headerLen h then _ else _) _
    split
    · rename_i hover
      intro rest
      apply stuck_of_oversize
      rw [headerLen_append hlen]
      exact UInt32.lt_iff_toNat_lt.1 hover
    · rename_i hover
      have hmax : (headerLen h).toNat ≤ MAX_PAYLOAD := by
        have hnot : ¬ MAX_PAYLOAD < (headerLen h).toNat :=
          fun hlt => hover (UInt32.lt_iff_toNat_lt.2 hlt)
        omega
      split
      · have hpayload : ∀ bs : Bytes, bs.length < (headerLen h).toNat →
            frameCode.Stuck (h ++ bs) := by
          intro bs hbs
          apply stuck_of_short
          rw [headerLen_append hlen, List.length_append]
          omega
        refine (readExact_obeys fd hpayload).bind fun r q hq => ?_
        cases r with
        | none =>
          have ⟨bs, hlt, hgot, hend⟩ := hq
          exact done_of_short (by rw [hgot]; exact hpayload bs hlt) hend
        | some payload =>
          have ⟨bs, hbs, hlt, hq⟩ := hq
          rw [List.nil_append] at hbs
          subst hbs hq
          have hle : payload.length ≤ MAX_PAYLOAD := by omega
          refine ⟨hle, ?_⟩
          have hofNat : UInt32.ofNat payload.length = headerLen h := by
            rw [hlt, UInt32.ofNat_toNat]
          rw [encodeFrame_of_le hle, hofNat, hframe]
      · rename_i hzero
        have hnil : headerLen h = 0 := by
          have hnot : ¬ 0 < (headerLen h).toNat := fun hlt => hzero (UInt32.lt_iff_toNat_lt.2 hlt)
          exact UInt32.toNat_inj.1 (by rw [UInt32.toNat_zero]; omega)
        refine ⟨Nat.zero_le _, ?_⟩
        rw [encodeFrame_of_le (Nat.zero_le _)]
        rw [hnil] at hframe
        show (⟨h, none⟩ : Reading) = ⟨header (h.getD 0 0) 0 ++ [], none⟩
        rw [hframe, List.append_nil]

theorem readExactLoop_zero (fd : Fd) (fuel : Nat) (buf : Bytes) :
    readExactLoop fd fuel 0 buf = .ret (some buf) := by
  cases fuel <;> rfl

/-- The bytes may come all at once. -/
theorem readExact_trace (fd : Fd) {bs : Bytes} {len : Nat} (hlen : bs.length = len)
    (hpos : 0 < len) :
    (readExact fd len).Trace [⟨⟨fd, len⟩, some ⟨bs, Nat.le_of_eq hlen⟩⟩] (.ret (some bs)) := by
  cases len with
  | zero => omega
  | succ n =>
    cases bs with
    | nil => cases hlen
    | cons b bs =>
      have hrest : n + 1 - (b :: bs).length = 0 := by omega
      unfold readExact
      rw [readExactLoop_succ]
      refine .cons ?_
      show Prog.Trace (readExactLoop fd n (n + 1 - (b :: bs).length) ([] ++ b :: bs)) [] _
      rw [hrest, readExactLoop_zero]
      exact .nil _

/-- A frame may come in two calls of `recv`. -/
theorem recvMessage_trace (fd : Fd) {h payload : Bytes} (hlen : h.length = HEADER_SIZE)
    (hpayload : payload.length = (headerLen h).toNat) (hpos : 0 < payload.length)
    (hmax : payload.length ≤ MAX_PAYLOAD) :
    (recvMessage fd).Trace
      [⟨⟨fd, HEADER_SIZE⟩, some ⟨h, Nat.le_of_eq hlen⟩⟩,
        ⟨⟨fd, (headerLen h).toNat⟩, some ⟨payload, Nat.le_of_eq hpayload⟩⟩]
      (.ret (some (h.getD 0 0, payload))) := by
  have hover : ¬ 16 * 1024 * 1024 < headerLen h := by
    intro hlt
    have hnat : MAX_PAYLOAD < (headerLen h).toNat := UInt32.lt_iff_toNat_lt.1 hlt
    omega
  have hsome : 0 < headerLen h := by
    apply UInt32.lt_iff_toNat_lt.2
    rw [← hpayload]
    exact hpos
  unfold recvMessage
  refine ((readExact_trace fd hlen (by decide)).bind _).append ?_
  show Prog.Trace (if 16 * 1024 * 1024 < headerLen h then _ else _) _ _
  rw [if_neg hover, if_pos hsome]
  exact (readExact_trace fd hpayload (by omega)).bind _

/-! ## Writing -/

/-- What a writer has put on its stream, and whether a `send` failed. -/
structure Writing where
  sent : Bytes := []
  failed : Bool := false

/-- The effect of a response of `send`. -/
def Writing.after (q : Writing) (o : SendOp) (n : {n : Int // n ≤ o.buf.length}) : Writing :=
  if n.val ≤ 0 then { q with failed := true }
  else { q with sent := q.sent ++ o.buf.take n.val.toNat }

/-- A writer of `frame` offers the bytes that come next, and at least one. -/
def writeMonitor (frame : Bytes) : Prog.Monitor Send Writing where
  guard q o := o.buf ≠ [] ∧ q.failed = false ∧ q.sent ++ o.buf <+: frame
  next q o n q' := q' = q.after o n

/-- The outcome of writing up to `sent`. -/
def Writes.exact (sent : Bytes) (ok : Bool) (q : Writing) : Prop :=
  if ok then q = ⟨sent, false⟩ else q.failed = true

theorem writeExactLoop_obeys (fd : Fd) {frame sent buf : Bytes} {fuel : Nat}
    (hfuel : buf.length ≤ fuel) (hframe : sent ++ buf <+: frame) :
    (writeExactLoop fd fuel buf).Obeys (writeMonitor frame) (Writes.exact (sent ++ buf))
      ⟨sent, false⟩ := by
  induction fuel generalizing sent buf with
  | zero =>
    have hbuf : buf = [] := List.length_eq_zero_iff.1 (by omega)
    subst hbuf
    simp [writeExactLoop, Writes.exact]
  | succ fuel ih =>
    cases buf with
    | nil => simp [writeExactLoop, Writes.exact]
    | cons b bs =>
      rw [writeExactLoop_succ, Prog.obeys_call]
      refine ⟨⟨List.cons_ne_nil b bs, rfl, hframe⟩, fun n => ⟨_, rfl, ?_⟩⟩
      unfold Writing.after
      split
      · rfl
      · -- The bytes that `send` took move from what is left to what was sent.
        rename_i hn
        have hmove : sent ++ (b :: bs).take n.val.toNat ++ (b :: bs).drop n.val.toNat =
            sent ++ b :: bs := by rw [List.append_assoc, List.take_append_drop]
        have hlen : ((b :: bs).drop n.val.toNat).length ≤ fuel := by
          rw [List.length_drop]
          omega
        have hrest := ih hlen (by rw [hmove]; exact hframe)
        rw [hmove] at hrest
        exact hrest

theorem writeExact_obeys (fd : Fd) {frame sent buf : Bytes} (hframe : sent ++ buf <+: frame) :
    (writeExact fd buf).Obeys (writeMonitor frame) (Writes.exact (sent ++ buf)) ⟨sent, false⟩ :=
  writeExactLoop_obeys fd (Nat.le_refl _) hframe

/-- Whatever the single calls of `send` return, `send_message` writes its frame
from the first byte on, and all of it if it returns `true`. -/
theorem sendMessage_obeys (fd : Fd) (msgType : UInt8) (payload : Bytes) :
    (sendMessage fd msgType (some payload)).Obeys (writeMonitor (encodeFrame msgType payload))
      (Writes.exact (encodeFrame msgType payload)) ⟨[], false⟩ := by
  have hheader : [] ++ header msgType (UInt32.ofNat payload.length) <+:
      encodeFrame msgType payload := List.prefix_append _ _
  show Prog.Obeys _ _ (_ >>= _) _
  refine (writeExact_obeys fd hheader).bind fun ok q hq => ?_
  cases ok with
  | false => exact hq
  | true =>
    rw [Writes.exact, if_pos rfl, List.nil_append] at hq
    subst hq
    show Prog.Obeys _ _ (if 0 < UInt32.ofNat payload.length then _ else _) _
    split
    · refine (writeExact_obeys fd (List.prefix_refl _)).bind fun ok q hq => ?_
      cases ok with
      | false => exact hq
      | true => exact hq
    · rename_i hzero
      have hnat : (UInt32.ofNat payload.length).toNat = 0 := by
        have hnot : ¬ 0 < (UInt32.ofNat payload.length).toNat :=
          fun hlt => hzero (UInt32.lt_iff_toNat_lt.2 hlt)
        omega
      show (⟨_, false⟩ : Writing) = ⟨encodeFrame msgType payload, false⟩
      rw [encodeFrame, hnat, List.take_zero, List.append_nil]

/-! ## A list of frames, from one end to the other -/

/-- `send_message` for each frame of a list. -/
def sendMessages (fd : Fd) : List (UInt8 × Bytes) → Prog Send (List Bool)
  | [] => pure []
  | f :: fs => do
    let ok ← sendMessage fd f.1 (some f.2)
    let oks ← sendMessages fd fs
    pure (ok :: oks)

/-- A number of calls of `recv_message`. -/
def recvMessages (fd : Fd) : Nat → Prog Recv (List (Option (UInt8 × Bytes)))
  | 0 => pure []
  | n + 1 => do
    let f ← recvMessage fd
    let fs ← recvMessages fd n
    pure (f :: fs)

/-- The stream that `send` appends to, and how often it was called. -/
structure Sink where
  wire : Bytes
  calls : Nat

/-- How many of `len > 0` bytes move when `want` would like to. -/
def moved (want len : Nat) : Nat := min (max 1 want) len

theorem SendOp.moved_le (o : SendOp) (want : Nat) : (moved want o.buf.length : Int) ≤ o.buf.length :=
  Int.ofNat_le.2 (Nat.min_le_right _ _)

theorem SendOp.failed_le (o : SendOp) : (-1 : Int) ≤ o.buf.length := by omega

/-- `send`, which takes as many bytes as `takes` says for each call, but at
least one and at most all. -/
def Sink.send (takes : Nat → Nat) (o : SendOp) : StateM Sink {n : Int // n ≤ o.buf.length} :=
  fun s =>
    let n := moved (takes s.calls) o.buf.length
    (⟨n, Int.ofNat_le.2 (Nat.min_le_right _ _)⟩, ⟨s.wire ++ o.buf.take n, s.calls + 1⟩)

/-- The stream that `recv` reads from, which ends, and how often it was
called. -/
structure Source where
  rest : Bytes
  calls : Nat

/-- `recv`, which gives as many bytes as `gives` says for each call, but at
least one, and at most what there is and what was asked for. -/
def Source.recv (gives : Nat → Nat) (o : RecvOp) :
    StateM Source (Option {bs : Bytes // bs.length ≤ o.len}) :=
  fun s =>
    let n := moved (gives s.calls) o.len
    (some ⟨s.rest.take n, (List.length_take_le _ _).trans (Nat.min_le_right _ _)⟩,
      ⟨s.rest.drop n, s.calls + 1⟩)

/-- How the stream and a writer that started on `before` fit together. -/
def Sink.Wrote (before : Bytes) (q : Writing) (t : Sink) : Prop :=
  q.failed = false ∧ t.wire = before ++ q.sent

/-- How the stream and a reader that started on `before` fit together. -/
def Source.Gave (before : Bytes) (q : Reading) (t : Source) : Prop :=
  before = q.got ++ t.rest ∧ (q.ending = none ∨ q.ending = some .eof ∧ t.rest = [])

theorem moved_pos {want len : Nat} (h : 0 < len) : 0 < moved want len := by
  unfold moved
  omega

theorem wrote_send (takes : Nat → Nat) {frame before : Bytes} (q : Writing) (t : Sink)
    (o : SendOp) (q' : Writing) (h : Sink.Wrote before q t) (hguard : (writeMonitor frame).guard q o)
    (hnext : (writeMonitor frame).next q o (Sink.send takes o t).1 q') :
    Sink.Wrote before q' (Sink.send takes o t).2 := by
  have hpos : 0 < moved (takes t.calls) o.buf.length :=
    moved_pos (List.length_pos_iff.2 hguard.1)
  have hn : ¬ (Sink.send takes o t).1.val ≤ 0 := by
    show ¬ ((moved (takes t.calls) o.buf.length : Nat) : Int) ≤ 0
    omega
  rw [show q' = q.after o _ from hnext, Writing.after, if_neg hn]
  refine ⟨h.1, ?_⟩
  show t.wire ++ _ = before ++ (q.sent ++ _)
  rw [h.2, List.append_assoc]
  rfl

theorem gave_recv (gives : Nat → Nat) {before : Bytes} (q : Reading) (t : Source) (o : RecvOp)
    (q' : Reading) (h : Source.Gave before q t) (hguard : readMonitor.guard q o)
    (hnext : readMonitor.next q o (Source.recv gives o t).1 q') :
    Source.Gave before q' (Source.recv gives o t).2 := by
  rw [show q' = q.after (Source.recv gives o t).1 from hnext]
  have hpos : 0 < moved (gives t.calls) o.len := moved_pos hguard.1
  have hsplit := List.take_append_drop (moved (gives t.calls) o.len) t.rest
  have hbefore := h.1
  cases htake : t.rest.take (moved (gives t.calls) o.len) with
  | nil =>
    have hnil : t.rest = [] := by
      rcases List.take_eq_nil_iff.1 htake with hzero | hnil
      · omega
      · exact hnil
    simp [Source.Gave, Source.recv, Reading.after, hbefore, hnil]
  | cons b bs =>
    rw [htake] at hsplit
    simp only [Source.Gave, Source.recv, htake, Reading.after, List.append_assoc, hsplit]
    exact ⟨hbefore, Or.inl hguard.2.2⟩

/-- `send_message` puts its frame on the stream. -/
theorem sendMessage_run (takes : Nat → Nat) (fd : Fd) (msgType : UInt8) (payload : Bytes)
    (s : Sink) :
    ((sendMessage fd msgType (some payload)).interp (Sink.send takes) s).1 = true ∧
      ((sendMessage fd msgType (some payload)).interp (Sink.send takes) s).2.wire =
        s.wire ++ encodeFrame msgType payload := by
  have hstart : Sink.Wrote s.wire ⟨[], false⟩ s := ⟨rfl, (List.append_nil _).symm⟩
  have ⟨q, hpost, hfailed, hwire⟩ := (sendMessage_obeys fd msgType payload).interp (wrote_send takes)
    hstart
  unfold Writes.exact at hpost
  split at hpost
  · rename_i hok
    exact ⟨hok, by rw [hwire, hpost]⟩
  · rw [hfailed] at hpost
    exact absurd hpost (by decide)

theorem sendMessages_run (takes : Nat → Nat) (fd : Fd) (fs : List (UInt8 × Bytes)) (s : Sink) :
    ((sendMessages fd fs).interp (Sink.send takes) s).1 = fs.map (fun _ => true) ∧
      ((sendMessages fd fs).interp (Sink.send takes) s).2.wire =
        s.wire ++ fs.flatMap fun f => encodeFrame f.1 f.2 := by
  induction fs generalizing s with
  | nil => exact ⟨rfl, (List.append_nil _).symm⟩
  | cons f fs ih =>
    have hone := sendMessage_run takes fd f.1 f.2 s
    have hrest := ih ((sendMessage fd f.1 (some f.2)).interp (Sink.send takes) s).2
    simp only [sendMessages, Prog.interp_bind_state]
    refine ⟨?_, ?_⟩
    · show _ :: _ = true :: _
      rw [hone.1, hrest.1]
    · show Sink.wire _ = _
      rw [List.flatMap_cons, ← List.append_assoc, ← hone.2]
      exact hrest.2

/-- What `recv_message` does on a stream that ends: it takes off one frame, or
there is none to take off. -/
theorem recvMessage_run (gives : Nat → Nat) (fd : Fd) (s : Source) :
    match (recvMessage fd).interp (Source.recv gives) s with
    | (some f, s') => f.2.length ≤ MAX_PAYLOAD ∧ s.rest = encodeFrame f.1 f.2 ++ s'.rest
    | (none, _) => frameCode.Stuck s.rest := by
  have hstart : Source.Gave s.rest ⟨[], none⟩ s := ⟨rfl, Or.inl rfl⟩
  have ⟨q, hpost, hrest, hend⟩ := (recvMessage_obeys fd).interp (gave_recv gives) hstart
  split
  · rename_i f s' heq
    rw [heq] at hpost hrest
    have ⟨hmax, hq⟩ := hpost
    rw [hq] at hrest
    exact ⟨hmax, hrest⟩
  · rename_i s' heq
    rw [heq] at hpost hrest hend
    have hdone : q.Done := hpost
    unfold Reading.Done at hdone
    rcases hend with hend | ⟨hend, hnil⟩
    · rw [hend] at hdone
      rw [hrest]
      exact hdone _
    · rw [hend] at hdone
      rw [hrest, hnil, List.append_nil]
      exact hdone

/-- `recv_message` takes off the frame that the stream starts with. -/
theorem recvMessage_frame (gives : Nat → Nat) (fd : Fd) {s : Source} {f : UInt8 × Bytes}
    {rest : Bytes} (hf : f.2.length ≤ MAX_PAYLOAD) (hs : s.rest = encodeFrame f.1 f.2 ++ rest) :
    ((recvMessage fd).interp (Source.recv gives) s).1 = some f ∧
      ((recvMessage fd).interp (Source.recv gives) s).2.rest = rest := by
  have hword : frameCode.word ⟨f, hf⟩ <+: s.rest := by
    rw [hs]
    exact List.prefix_append _ _
  have hrun := recvMessage_run gives fd s
  split at hrun
  · rename_i g s' heq
    have ⟨hg, hrest⟩ := hrun
    have hword' : frameCode.word ⟨g, hg⟩ <+: s.rest := by
      rw [hrest]
      exact List.prefix_append _ _
    have hfg : g = f := congrArg Subtype.val (PrefixCode.word_unique hword' hword)
    subst hfg
    rw [hs] at hrest
    rw [heq]
    exact ⟨rfl, (List.append_cancel_left hrest).symm⟩
  · exact absurd hword (hrun _)

/-- Calls of `recv_message` take off the frames that the stream starts with. -/
theorem recvMessages_frames (gives : Nat → Nat) (fd : Fd) {fs : List (UInt8 × Bytes)}
    (hfs : ∀ f ∈ fs, f.2.length ≤ MAX_PAYLOAD) {n : Nat} (hn : n ≤ fs.length) {s : Source}
    (hs : s.rest = fs.flatMap fun f => encodeFrame f.1 f.2) :
    ((recvMessages fd n).interp (Source.recv gives) s).1 = (fs.take n).map some ∧
      ((recvMessages fd n).interp (Source.recv gives) s).2.rest =
        (fs.drop n).flatMap fun f => encodeFrame f.1 f.2 := by
  induction n generalizing fs s with
  | zero => exact ⟨rfl, hs⟩
  | succ n ih =>
    cases fs with
    | nil => simp at hn
    | cons f fs =>
      rw [List.flatMap_cons] at hs
      have hone := recvMessage_frame gives fd (hfs f List.mem_cons_self) hs
      have hrest := ih (fun g hg => hfs g (List.mem_cons_of_mem f hg))
        (Nat.le_of_succ_le_succ hn) hone.2
      simp only [recvMessages, Prog.interp_bind_state]
      refine ⟨?_, hrest.2⟩
      show _ :: _ = some f :: _
      rw [hone.1, hrest.1]

/-- At the end of the stream there is no frame. -/
theorem recvMessage_end (gives : Nat → Nat) (fd : Fd) {s : Source} (hs : s.rest = []) :
    ((recvMessage fd).interp (Source.recv gives) s).1 = none := by
  have hrun := recvMessage_run gives fd s
  split at hrun
  · rename_i f s' heq
    have hempty := hrun.2
    rw [hs, encodeFrame_of_le hrun.1] at hempty
    cases hempty
  · rename_i s' heq
    rw [heq]

theorem recvMessages_end (gives : Nat → Nat) (fd : Fd) {fs : List (UInt8 × Bytes)}
    (hfs : ∀ f ∈ fs, f.2.length ≤ MAX_PAYLOAD) {s : Source}
    (hs : s.rest = fs.flatMap fun f => encodeFrame f.1 f.2) :
    ((recvMessages fd (fs.length + 1)).interp (Source.recv gives) s).1 = fs.map some ++ [none] := by
  induction fs generalizing s with
  | nil =>
    have hone := recvMessage_end gives fd hs
    simp only [List.length_nil, recvMessages, Prog.interp_bind_state]
    show [_] = [none]
    rw [hone]
  | cons f fs ih =>
    rw [List.flatMap_cons] at hs
    have hone := recvMessage_frame gives fd (hfs f List.mem_cons_self) hs
    have hrest := ih (fun g hg => hfs g (List.mem_cons_of_mem f hg)) hone.2
    rw [List.length_cons, recvMessages, Prog.interp_bind_state, Prog.interp_bind_state]
    show _ :: _ = some f :: _
    rw [hone.1, hrest]
    rfl

/-- The frames that `send_message` wrote come out of `recv_message` as they were
put in, however `send` and `recv` split them.  Each call takes off one frame,
and one more call finds the end of the stream. -/
theorem recv_frames_sent (fs : List (UInt8 × Bytes)) (hfs : ∀ f ∈ fs, f.2.length ≤ MAX_PAYLOAD)
    (fd fd' : Fd) (takes gives : Nat → Nat) :
    ∃ oks sink, (sendMessages fd fs).interp (Sink.send takes) ⟨[], 0⟩ = (oks, sink) ∧
      oks = fs.map (fun _ => true) ∧
      (∀ n ≤ fs.length, ∃ source,
        (recvMessages fd' n).interp (Source.recv gives) ⟨sink.wire, 0⟩ =
          ((fs.take n).map some, source) ∧
        source.rest = (fs.drop n).flatMap fun f => encodeFrame f.1 f.2) ∧
      ∃ source, (recvMessages fd' (fs.length + 1)).interp (Source.recv gives) ⟨sink.wire, 0⟩ =
        (fs.map some ++ [none], source) := by
  have hsent := sendMessages_run takes fd fs ⟨[], 0⟩
  refine ⟨_, _, rfl, hsent.1, fun n hn => ?_, ?_⟩
  · have hrun := recvMessages_frames gives fd' hfs hn (s := ⟨_, 0⟩) hsent.2
    exact ⟨_, Prod.ext hrun.1 rfl, hrun.2⟩
  · have hrun := recvMessages_end gives fd' hfs (s := ⟨_, 0⟩) hsent.2
    exact ⟨_, Prod.ext hrun rfl⟩

/-- An empty payload and one of two bytes, sent and received byte by byte. -/
theorem recv_frames_sent_two : ∃ oks sink,
    (sendMessages 4 [(1, []), (7, [8, 1])]).interp (Sink.send fun _ => 1) ⟨[], 0⟩ = (oks, sink) ∧
      ∃ source, (recvMessages 4 3).interp (Source.recv fun _ => 1) ⟨sink.wire, 0⟩ =
        ([some (1, []), some (7, [8, 1]), none], source) := by
  have ⟨oks, sink, hsent, _, _, hrecv⟩ := recv_frames_sent [(1, []), (7, [8, 1])] (by decide) 4 4
    (fun _ => 1) (fun _ => 1)
  exact ⟨oks, sink, hsent, hrecv⟩

end SimpleChat
