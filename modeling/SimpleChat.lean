import SimpleChat.Conc.Prog
import SimpleChat.Conc.Lts
import SimpleChat.Conc.Pool
import SimpleChat.Conc.Lowering
import SimpleChat.Data.Index
import SimpleChat.Data.Notices
import SimpleChat.Data.PrefixCode
import SimpleChat.Data.Proto3
import SimpleChat.Data.SortsBy
import SimpleChat.Data.Sections
import SimpleChat.Data.TabBook
import SimpleChat.Protocol
import SimpleChat.Framing
import SimpleChat.Memory
import SimpleChat.Server
import SimpleChat.System
import SimpleChat.Wire
import SimpleChat.Registry
import SimpleChat.Ownership
import SimpleChat.HandleClient
import SimpleChat.Registrations
import SimpleChat.Delivery
import SimpleChat.BareReplies
import SimpleChat.WholeFrames
import SimpleChat.DirectMessages
import SimpleChat.StatusNotices
import SimpleChat.FrameLimits
import SimpleChat.Authentic
import SimpleChat.Broadcasts
import SimpleChat.Conc.Turns
import SimpleChat.Conc.Locks
import SimpleChat.Handling
import SimpleChat.HandlerTurns
import SimpleChat.StatusHistory
import SimpleChat.IdleTimer
import SimpleChat.Activity
import SimpleChat.UserLists
import SimpleChat.Transcript
import SimpleChat.Replies
import SimpleChat.Locking
import SimpleChat.Welcome
import SimpleChat.Shutdown
import SimpleChat.Stopping
import SimpleChat.Editors
import SimpleChat.Isolation
import SimpleChat.Rejections
import SimpleChat.Conc.Twins
import SimpleChat.FrameSystem
import SimpleChat.Confidential
import SimpleChat.FailedSends
import SimpleChat.MainWindow
import SimpleChat.StatusMirror
import SimpleChat.Qt
import SimpleChat.ChatWindow
import SimpleChat.DmTabs
import SimpleChat.UserEntries
import SimpleChat.DmTargets
import SimpleChat.Programs
import SimpleChat.Data.Pages
import SimpleChat.Client
import SimpleChat.Signals
import SimpleChat.Requests
import SimpleChat.Slots
import SimpleChat.Hearing
import SimpleChat.Conc.Star
import SimpleChat.Chat
import SimpleChat.Conversations
import SimpleChat.Presence
import SimpleChat.Conc.Atomic
import SimpleChat.CriticalSections
import SimpleChat.Conc.Guarded
import SimpleChat.MapAccess
import SimpleChat.Accepting
import SimpleChat.Echo
import SimpleChat.Conc.Fair
import SimpleChat.Liveness
