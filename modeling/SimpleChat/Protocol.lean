import SimpleChat.Conc.Prog
import SimpleChat.Data.Proto3
import Mathlib.Data.Nat.Bitwise

/-!
# The wire protocol

The model of `include/chat/protocol.h` and of the messages under `protos/`.

The protobuf library is not part of the repository.  `Protobuf` collects what
the program calls of it, as a parameter of the model: one parser for each
message that a client sends, and one serializer for the messages that the
server sends.  A proto3 string is valid UTF-8, so it is a `String`.
`ServerMsg.encode` is the proto3 encoding of the messages that the server sends,
which the serializer gives, and `ServerMsg.wireSize` is its length.

The socket calls are the operations of two signatures.  `readExact`,
`writeExact`, `sendMessage` and `recvMessage` are programs over them, so that
every result that `recv()` and `send()` may return is a branch of the program.
-/

namespace SimpleChat

open Conc

abbrev Bytes := List UInt8

/-- A socket descriptor. -/
abbrev Fd := Nat

/-! ## Message types and status codes -/

namespace MsgType

def REGISTER : UInt8 := 1
def MESSAGE_GENERAL : UInt8 := 2
def MESSAGE_DM : UInt8 := 3
def CHANGE_STATUS : UInt8 := 4
def LIST_USERS : UInt8 := 5
def GET_USER_INFO : UInt8 := 6
def QUIT : UInt8 := 7

def SERVER_RESPONSE : UInt8 := 10
def ALL_USERS : UInt8 := 11
def FOR_DM : UInt8 := 12
def BROADCAST_DELIVERY : UInt8 := 13
def GET_USER_INFO_RESPONSE : UInt8 := 14

end MsgType

namespace StatusCode

def OK_REGISTER : Int := 200
def OK_STATUS_CHANGED : Int := 201
def OK_DM_SENT : Int := 202
def OK_QUIT : Int := 203
def BAD_REQUEST : Int := 400
def NOT_REGISTERED : Int := 401
def USER_NOT_FOUND : Int := 404
def USERNAME_TAKEN : Int := 409
def IP_TAKEN : Int := 410
def AUTO_INACTIVE : Int := 602
def STATUS_RESTORED : Int := 603

end StatusCode

/-! ## Messages -/

/-- `StatusEnum` of `common.proto`.  A proto3 enum is open: a parsed field may
hold a number that names no value. -/
inductive StatusEnum where
  | ACTIVE
  | DO_NOT_DISTURB
  | INVISIBLE
  | unrecognized (value : Int) (h : value < 0 ∨ 2 < value)
  deriving DecidableEq, Repr

/-- The number of an enum value. -/
def StatusEnum.number : StatusEnum → Int
  | .ACTIVE => 0
  | .DO_NOT_DISTURB => 1
  | .INVISIBLE => 2
  | .unrecognized value _ => value

/-- `status_to_display`. -/
def statusToDisplay : StatusEnum → String
  | .ACTIVE => "ACTIVO"
  | .DO_NOT_DISTURB => "OCUPADO"
  | .INVISIBLE => "INACTIVO"
  | .unrecognized _ _ => "DESCONOCIDO"

structure Register where
  username : String
  ip : String
  deriving DecidableEq

structure MessageGeneral where
  message : String
  status : StatusEnum
  usernameOrigin : String
  ip : String
  deriving DecidableEq

structure MessageDM where
  message : String
  status : StatusEnum
  usernameDes : String
  ip : String
  deriving DecidableEq

structure ChangeStatus where
  status : StatusEnum
  username : String
  ip : String
  deriving DecidableEq

structure ListUsers where
  username : String
  ip : String
  deriving DecidableEq

structure GetUserInfo where
  usernameDes : String
  username : String
  ip : String
  deriving DecidableEq

structure Quit where
  quit : Bool
  ip : String
  deriving DecidableEq

structure ServerResponse where
  statusCode : Int
  message : String
  isSuccessful : Bool
  deriving DecidableEq

structure AllUsers where
  usernames : List String
  status : List StatusEnum
  deriving DecidableEq

structure ForDm where
  usernameDes : String
  message : String
  deriving DecidableEq

structure BroadcastDelivery where
  message : String
  usernameOrigin : String
  deriving DecidableEq

structure GetUserInfoResponse where
  ipAddress : String
  username : String
  status : StatusEnum
  deriving DecidableEq

/-- The messages that the server sends. -/
inductive ServerMsg where
  | serverResponse (m : ServerResponse)
  | allUsers (m : AllUsers)
  | forDm (m : ForDm)
  | broadcastDelivery (m : BroadcastDelivery)
  | getUserInfoResponse (m : GetUserInfoResponse)
  deriving DecidableEq

/-- The type byte that goes out with a message. -/
def ServerMsg.msgType : ServerMsg → UInt8
  | .serverResponse _ => MsgType.SERVER_RESPONSE
  | .allUsers _ => MsgType.ALL_USERS
  | .forDm _ => MsgType.FOR_DM
  | .broadcastDelivery _ => MsgType.BROADCAST_DELIVERY
  | .getUserInfoResponse _ => MsgType.GET_USER_INFO_RESPONSE

section Encode

open Data.Proto3

/-- The value that proto3 encodes for an `int32` and for an enum: the two's
complement in 64 bits. -/
def int32Bits (n : Int) : Nat := (n % 2 ^ 64).toNat

/-- The proto3 encoding of a message under `protos/server-side`. -/
def ServerMsg.encode : ServerMsg → Bytes
  | .serverResponse m =>
    varintField 1 (int32Bits m.statusCode) ++ stringField 2 m.message ++
      varintField 3 m.isSuccessful.toNat
  | .allUsers m =>
    repeatedString 1 m.usernames ++ packedField 2 (m.status.map fun st => int32Bits st.number)
  | .forDm m => stringField 1 m.usernameDes ++ stringField 2 m.message
  | .broadcastDelivery m => stringField 1 m.message ++ stringField 2 m.usernameOrigin
  | .getUserInfoResponse m =>
    stringField 1 m.ipAddress ++ stringField 2 m.username ++
      varintField 3 (int32Bits m.status.number)

/-- The size of a message on the wire. -/
def ServerMsg.wireSize : ServerMsg → Nat
  | .serverResponse m =>
    varintFieldSize (int32Bits m.statusCode) + stringSize m.message +
      varintFieldSize m.isSuccessful.toNat
  | .allUsers m =>
    repeatedStringSize m.usernames + packedSize (m.status.map fun st => int32Bits st.number)
  | .forDm m => stringSize m.usernameDes + stringSize m.message
  | .broadcastDelivery m => stringSize m.message + stringSize m.usernameOrigin
  | .getUserInfoResponse m =>
    stringSize m.ipAddress + stringSize m.username + varintFieldSize (int32Bits m.status.number)

theorem ServerMsg.length_encode (m : ServerMsg) : m.encode.length = m.wireSize := by
  cases m <;> simp [encode, wireSize, Nat.add_assoc]

end Encode

/-- What the program calls of the generated protobuf code: `ParseFromString` of
each message that a client sends, and `SerializeToString` of the messages that
the server sends.  `none` is a `false` result. -/
structure Protobuf where
  parseRegister : Bytes → Option Register
  parseMessageGeneral : Bytes → Option MessageGeneral
  parseMessageDM : Bytes → Option MessageDM
  parseChangeStatus : Bytes → Option ChangeStatus
  parseListUsers : Bytes → Option ListUsers
  parseGetUserInfo : Bytes → Option GetUserInfo
  parseQuit : Bytes → Option Quit
  serialize : ServerMsg → Option Bytes

/-! ## Socket calls -/

/-- The call `::recv(fd, ptr, len, 0)`. -/
structure RecvOp where
  fd : Fd
  len : Nat
  deriving DecidableEq

/-- The call `::send(fd, buf, buf.size(), MSG_NOSIGNAL)`. -/
structure SendOp where
  fd : Fd
  buf : Bytes
  deriving DecidableEq

/-- `recv` returns the bytes it read, no byte at the end of the stream, or
`none` on an error.  It never reads more than it was asked to. -/
abbrev Recv : Sig := ⟨RecvOp, fun o => Option {bs : Bytes // bs.length ≤ o.len}⟩

/-- `send` returns how many bytes it took, or a negative number on an error.
It never takes more than it was given. -/
abbrev Send : Sig := ⟨SendOp, fun o => {n : Int // n ≤ o.buf.length}⟩

/-- `HEADER_SIZE`: one type byte and four length bytes. -/
def HEADER_SIZE : Nat := 5

/-- The largest payload that `recv_message` accepts. -/
def MAX_PAYLOAD : Nat := 16 * 1024 * 1024

/-- The loop of `read_exact`.  Each turn moves at least one byte, so `len`
turns are enough and the fuel never runs out before `remaining` does. -/
def readExactLoop (fd : Fd) : (fuel remaining : Nat) → (buf : Bytes) → Prog Recv (Option Bytes)
  | _, 0, buf => pure (some buf)
  | 0, _ + 1, _ => pure none
  | fuel + 1, remaining + 1, buf => do
    match ← Prog.perform (S := Recv) ⟨fd, remaining + 1⟩ with
    | none => pure none
    | some ⟨[], _⟩ => pure none
    | some ⟨b :: bs, _⟩ =>
      readExactLoop fd fuel (remaining + 1 - (b :: bs).length) (buf ++ (b :: bs))

/-- One turn of the loop: the bytes that `recv` gave are appended. -/
theorem readExactLoop_succ (fd : Fd) (fuel remaining : Nat) (buf : Bytes) :
    readExactLoop fd (fuel + 1) (remaining + 1) buf =
      .call (S := Recv) ⟨fd, remaining + 1⟩ fun r =>
        match r with
        | none => .ret none
        | some ⟨[], _⟩ => .ret none
        | some ⟨b :: bs, _⟩ =>
          readExactLoop fd fuel (remaining + 1 - (b :: bs).length) (buf ++ (b :: bs)) := rfl

/-- `read_exact`: the bytes read, or `none` on the end of the stream and on an
error. -/
def readExact (fd : Fd) (len : Nat) : Prog Recv (Option Bytes) :=
  readExactLoop fd len len []

/-- The loop of `write_exact`, with the bytes that remain to be sent. -/
def writeExactLoop (fd : Fd) : (fuel : Nat) → (buf : Bytes) → Prog Send Bool
  | _, [] => pure true
  | 0, _ :: _ => pure false
  | fuel + 1, b :: bs => do
    let n ← Prog.perform (S := Send) ⟨fd, b :: bs⟩
    if n.val ≤ 0 then pure false
    else writeExactLoop fd fuel ((b :: bs).drop n.val.toNat)

/-- One turn of the loop: the bytes that `send` took are dropped. -/
theorem writeExactLoop_succ (fd : Fd) (fuel : Nat) (b : UInt8) (bs : Bytes) :
    writeExactLoop fd (fuel + 1) (b :: bs) =
      .call (S := Send) ⟨fd, b :: bs⟩ fun n =>
        if n.val ≤ 0 then .ret false
        else writeExactLoop fd fuel ((b :: bs).drop n.val.toNat) := rfl

/-- `write_exact`. -/
def writeExact (fd : Fd) (buf : Bytes) : Prog Send Bool :=
  writeExactLoop fd buf.length buf

/-- The header that `send_message` builds: the type, and the length in big
endian. -/
def header (msgType : UInt8) (len : UInt32) : Bytes :=
  [msgType, ((len >>> 24) &&& 0xFF).toUInt8, ((len >>> 16) &&& 0xFF).toUInt8,
    ((len >>> 8) &&& 0xFF).toUInt8, (len &&& 0xFF).toUInt8]

/-- `send_message`.  `serialized` is what `SerializeToString` gave. -/
def sendMessage (fd : Fd) (msgType : UInt8) (serialized : Option Bytes) : Prog Send Bool :=
  match serialized with
  | none => pure false
  | some payload => do
    let len := UInt32.ofNat payload.length
    if !(← writeExact fd (header msgType len)) then pure false
    else if 0 < len then do
      if !(← writeExact fd (payload.take len.toNat)) then pure false
      else pure true
    else pure true

/-- The length field of a header. -/
def headerLen (h : Bytes) : UInt32 :=
  ((h.getD 1 0).toUInt32 <<< 24) ||| ((h.getD 2 0).toUInt32 <<< 16) |||
    ((h.getD 3 0).toUInt32 <<< 8) ||| (h.getD 4 0).toUInt32

/-- `recv_message`: the type and the payload, or `none` where it returns
`false`. -/
def recvMessage (fd : Fd) : Prog Recv (Option (UInt8 × Bytes)) := do
  match ← readExact fd HEADER_SIZE with
  | none => pure none
  | some h =>
    let msgType := h.getD 0 0
    let len := headerLen h
    if 16 * 1024 * 1024 < len then pure none
    else if 0 < len then do
      match ← readExact fd len.toNat with
      | none => pure none
      | some payload => pure (some (msgType, payload))
    else pure (some (msgType, []))

end SimpleChat
