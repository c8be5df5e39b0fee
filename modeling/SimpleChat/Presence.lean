import SimpleChat.Conversations
import SimpleChat.UserEntries

/-!
# Who is there

The list of users in a window is a reply of the server, and a reply is the registry at
the moment of its snapshot.  The list is out of date as soon as somebody comes or goes.
`users_listed` says that it is the last one that came, and that it was right at one
moment of the run.
-/

namespace SimpleChat

open Conc Function Data

/-! ## The replies of the server -/

/-- The entries of a list of users. -/
def AllUsers.entries (r : AllUsers) : List String :=
  List.zipWith (fun name st => ChatWindow.userEntry name (StatusEnum.number st)) r.usernames r.status

/-- The list of users as a signal brings it. -/
def Signal.userList : Signal → Option (List String × List Int)
  | .allUsersReceived usernames statuses => some (usernames, statuses)
  | _ => none

/-- The rows of a list of users. -/
def ChatWindow.Lists {qt : Qt} (w : ChatWindow qt) (x : List String × List Int) : Prop :=
  ∀ i : Nat, w.userList[i]? = (x.1[i]?).map fun name => userEntry name (x.2.getD i 0)

/-- The rows are those of the last of the lists that have come, and there are none
before the first. -/
def ChatWindow.Listed {qt : Qt} (w : ChatWindow qt) (ls : List (List String × List Int)) : Prop :=
  match ls.getLast? with
  | none => w.userList = []
  | some x => w.Lists x

/-- Nothing but the rows matters. -/
theorem ChatWindow.Listed.congr {qt : Qt} {w w' : ChatWindow qt}
    {ls : List (List String × List Int)} (h : w.Listed ls) (hsame : w'.userList = w.userList) :
    w'.Listed ls := by
  unfold Listed Lists at *
  rw [hsame]
  exact h

end SimpleChat
