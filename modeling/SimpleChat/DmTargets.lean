import SimpleChat.UserEntries

/-!
# The target of a direct message

The target that the user picks is kept in `dmTargetCombo_` only, and `onAllUsers`
empties the combo box each time a list of users arrives, asked for or not.
`onSendClicked` clears the input before it looks at the target.

`Aim` is what the user has picked, as the history of the window gives it.
`submissions_reach_pick` says that a submission goes to the peer that was picked last
if that was after the last list, and on a clean name; where all double-clicks are on
clean names, only then.
-/

namespace SimpleChat

open Conc Data Function ChatWindow

/-! ## What the user has picked -/

/-- The most recent list of users, the peer picked last, and whether that pick still
counts: no list arrived since, and no double-click was on a name that is not clean. -/
structure Aim where
  latest : List String := []
  picked : Option String := none
  fresh : Bool := false

namespace Aim

variable {qt : Qt} (w : ChatWindow qt) (a : Aim)

/-- The user picks a peer in the combo box. -/
def pick (peer : String) : Aim := { a with picked := some peer, fresh := true }

/-- A double-click on an entry picks its user, unless it is the own entry. -/
def doubleClick (peer : String) : Aim :=
  { a with
    picked := if peer = w.username then a.picked else some peer
    fresh := decide (CleanName qt peer) && (decide (peer ≠ w.username) || a.fresh) }

/-- A list of users arrives. -/
def list (usernames : List String) : Aim := { a with latest := usernames, fresh := false }

/-- What an event of the window does. -/
def after : WindowEvent → Aim
  | .selectTarget index => ((qt.items w.dmTargetCombo)[index]?).elim a a.pick
  | .doubleClick row => (a.latest[row]?).elim a (a.doubleClick w)
  | .receive (.allUsers m) => a.list m.usernames
  | _ => a

end Aim

/-- The window, and what its user has picked. -/
structure Aimed (qt : Qt) where
  window : ChatWindow qt
  aim : Aim

/-- The runs of the window, with what the user picks. -/
def aimedSystem (qt : Qt) (username localIp : String) : Lts (Aimed qt) WindowEvent where
  init := ⟨setupUi qt username localIp, {}⟩
  step p e := (p.window.slot e).map fun x => ⟨x.1, p.aim.after p.window e⟩

/-- The event closes no tab of a peer, and a list holds registered names. -/
def WindowEvent.regular : WindowEvent → Bool
  | .closeTab index => index ≤ 1
  | .receive (.allUsers m) => "" ∉ m.usernames
  | _ => true

/-- The window sends the text to the peer, to no one else, and appends it to the tab of
the peer. -/
structure ChatWindow.SendsTo {qt : Qt} (w : ChatWindow qt) (peer : String) : Prop where
  msgs : w.onSendClicked.2 =
    [.messageDm ⟨qt.trimmed w.messageInput, w.currentStatus, peer, w.localIp⟩]
  echo : ∃ tab, w.onSendClicked.1.dmTabs peer = some tab ∧
    (tab, dmTitle peer) ∈ (qt.tabs w.onSendClicked.1.chatTabs).drop 2 ∧
    w.onSendClicked.1.lines tab = w.lines tab ++ [.chat w.username (qt.trimmed w.messageInput)]

namespace Aimed

variable {qt : Qt} (p : Aimed qt) (e : WindowEvent)

/-- A text that is not blank is submitted in the mode "DM". -/
def Submits : Prop :=
  e = .sendClicked ∧ p.window.modeCombo = .dm ∧ qt.trimmed p.window.messageInput ≠ ""

/-- A submission goes to the peer that was picked last, and the text is not lost. -/
structure Faithful : Prop where
  sent : ∀ peer, p.aim.picked = some peer → peer ∈ p.aim.latest → p.window.SendsTo peer
  only : ∀ m, .messageDm m ∈ p.window.onSendClicked.2 → p.aim.picked = some m.usernameDes
  kept : ∃ m, .messageDm m ∈ p.window.onSendClicked.2 ∧
    m.message = qt.trimmed p.window.messageInput

/-- If the event is a submission, it is faithful. -/
def Faithfully : Prop := p.Submits e → p.Faithful

/-- If the event is a submission, the last pick counts. -/
def Freshly : Prop := p.Submits e → p.aim.fresh = true

instance : Decidable (p.Freshly e) :=
  inferInstanceAs (Decidable (e = .sendClicked ∧ p.window.modeCombo = .dm ∧
    qt.trimmed p.window.messageInput ≠ "" → p.aim.fresh = true))

/-- If the event is a double-click, it is on a clean name. -/
def Cleanly : Prop :=
  ∀ row peer, e = .doubleClick row → p.aim.latest[row]? = some peer → CleanName qt peer

end Aimed

/-! ## What a submission does -/

namespace ChatWindow

variable {qt : Qt} {w : ChatWindow qt} {peer : String}

theorem onSendClicked_of_target (hmode : w.modeCombo = .dm)
    (htext : qt.trimmed w.messageInput ≠ "") (hpeer : qt.currentText w.dmTargetCombo = peer)
    (hne : peer ≠ "") : w.onSendClicked =
      ({ w with messageInput := "" }.appendDmChat peer (qt.trimmed w.messageInput) false,
        [.messageDm ⟨qt.trimmed w.messageInput, w.currentStatus, peer, w.localIp⟩]) := by
  simp only [onSendClicked, MainWindow.onSendClicked, hpeer, hmode, if_neg htext, if_neg hne]
  rfl

theorem onSendClicked_of_no_target (hmode : w.modeCombo = .dm)
    (hnone : qt.currentText w.dmTargetCombo = "") : w.onSendClicked.2 = [] := by
  rw [onSendClicked_msgs]
  simp [MainWindow.onSendClicked, hnone, hmode, Mode.index]

/-- With the target selected and its tab in place, the window sends to the target. -/
theorem sendsTo_of_target (hqt : qt.Documented) (hplaced : w.book.Placed dmTitle fixedTabs)
    (hshown : ¬ w.book.Dangling peer) (hmode : w.modeCombo = .dm)
    (htext : qt.trimmed w.messageInput ≠ "") (hpeer : qt.currentText w.dmTargetCombo = peer)
    (hne : peer ≠ "") : w.SendsTo peer := by
  have hsent := onSendClicked_of_target hmode htext hpeer hne
  refine ⟨congrArg Prod.snd hsent, ?_⟩
  rw [hsent]
  let cleared : ChatWindow qt := { w with messageInput := "" }
  have hbook : (cleared.getOrCreateDmTab peer).2.book = w.book.openTab dmTitle peer :=
    book_getOrCreateDmTab (w := cleared) hqt peer
  have hopened : (cleared.getOrCreateDmTab peer).2.book.Placed dmTitle fixedTabs := by
    rw [hbook]
    exact hplaced.openTab
  have hkept : ¬ (cleared.getOrCreateDmTab peer).2.book.Dangling peer := by
    rw [hbook, hplaced.dangling_openTab_iff]
    exact hshown
  have hkey := getOrCreateDmTab_dmTabs cleared peer
  refine ⟨(cleared.getOrCreateDmTab peer).1, hkey,
    (hopened.mem_drop_iff_not_dangling hkey).2 hkept, ?_⟩
  show update (cleared.getOrCreateDmTab peer).2.lines _ _ _ = _
  rw [update_self, getOrCreateDmTab_lines]
  rfl

/-- What an event does to the list of users and to the target. -/
theorem slot_targets {e : WindowEvent} {x : ChatWindow qt × List ClientMsg}
    (h : w.slot e = some x) :
    (∃ index peer, e = .selectTarget index ∧ (qt.items w.dmTargetCombo)[index]? = some peer ∧
      x.1.dmTargetCombo = qt.setCurrentItem w.dmTargetCombo index ∧ x.1.userList = w.userList) ∨
    (∃ row text, e = .doubleClick row ∧ w.userList[row]? = some text ∧
      x.1 = w.onUserDoubleClicked text) ∨
    (∃ m, e = .receive (.allUsers m) ∧
      x.1 = w.onAllUsers m.usernames (m.status.map StatusEnum.number)) ∨
    (x.1.dmTargetCombo = w.dmTargetCombo ∧ x.1.userList = w.userList ∧
      ∀ a : Aim, a.after w e = a) := by
  cases e with
  | selectTarget index =>
    have ⟨⟨_, hlt⟩, he⟩ := Option.ite_none_right_eq_some.1 h
    rw [← Option.some.inj he]
    exact Or.inl ⟨index, _, rfl, List.getElem?_eq_getElem hlt, rfl, rfl⟩
  | doubleClick row =>
    have ⟨text, htext, he⟩ := Option.map_eq_some_iff.1 h
    have hx : x = (w.onUserDoubleClicked text, []) := he.symm
    rw [hx]
    dsimp only
    exact Or.inr (Or.inl ⟨row, text, rfl, htext, rfl⟩)
  | receive msg =>
    rw [← Option.some.inj h]
    cases msg with
    | allUsers m => exact Or.inr (Or.inr (Or.inl ⟨m, rfl, rfl⟩))
    | forDm m =>
      refine Or.inr (Or.inr (Or.inr ⟨?_, ?_, fun _ => rfl⟩))
      · exact appendDmChat_dmTargetCombo w m.usernameDes m.message true
      · exact appendDmChat_userList w m.usernameDes m.message true
    | serverResponse | broadcastDelivery | getUserInfoResponse =>
      exact Or.inr (Or.inr (Or.inr ⟨rfl, rfl, fun _ => rfl⟩))
  | sendClicked =>
    have ⟨_, he⟩ := Option.ite_none_right_eq_some.1 h
    rw [← Option.some.inj he]
    exact Or.inr (Or.inr (Or.inr
      ⟨onSendClicked_dmTargetCombo w, onSendClicked_userList w, fun _ => rfl⟩))
  | closeTab index =>
    have ⟨_, he⟩ := Option.ite_none_right_eq_some.1 h
    rw [← Option.some.inj he]
    exact Or.inr (Or.inr (Or.inr
      ⟨tabCloseRequested_dmTargetCombo w index, tabCloseRequested_userList w index, fun _ => rfl⟩))
  | edit | selectTab | pickStatus =>
    have ⟨_, he⟩ := Option.ite_none_right_eq_some.1 h
    rw [← Option.some.inj he]
    exact Or.inr (Or.inr (Or.inr ⟨rfl, rfl, fun _ => rfl⟩))
  | selectMode | refreshUsers | showUserInfo | connectionLost =>
    rw [← Option.some.inj h]
    exact Or.inr (Or.inr (Or.inr ⟨rfl, rfl, fun _ => rfl⟩))

end ChatWindow

/-! ## The pick and the combo box -/

/-- What holds of the window and the pick in a run that closes no tab of a peer. -/
structure Tracks {qt : Qt} (p : Aimed qt) : Prop where
  placed : p.window.book.Placed dmTitle fixedTabs
  shown : ¬ ∃ u, p.window.book.Dangling u
  registered : "" ∉ p.aim.latest
  items : qt.items p.window.dmTargetCombo =
    p.aim.latest.filter fun name => name ≠ p.window.username
  rows : ∀ (row : Nat) text, p.window.userList[row]? = some text →
    ∃ peer st, p.aim.latest[row]? = some peer ∧ text = userEntry peer st
  fresh : p.aim.fresh = true → ∃ peer, p.aim.picked = some peer ∧ peer ≠ "" ∧
    qt.currentText p.window.dmTargetCombo = peer

namespace Tracks

variable {qt : Qt} {p p' : Aimed qt} {e : WindowEvent} {username localIp : String}

/-- The peer of a row is offered, unless it is the user. -/
theorem offered (h : Tracks p) {peer : String} (hpeer : peer ∈ p.aim.latest)
    (hother : peer ≠ p.window.username) : peer ∈ qt.items p.window.dmTargetCombo := by
  rw [h.items, List.mem_filter]
  exact ⟨hpeer, decide_eq_true hother⟩

variable (hqt : qt.Documented)
include hqt

theorem init : Tracks (aimedSystem qt username localIp).init where
  placed := placed_setupUi hqt
  shown := by
    show ¬ ∃ u, (setupUi qt username localIp).book.Dangling u
    rw [book_setupUi hqt]
    intro ⟨_, _, hx, _⟩
    cases hx
  registered := List.not_mem_nil
  items := hqt.items_new
  rows _ _ h := by cases h
  fresh h := by cases h

/-- The user picks a target in the combo box. -/
theorem selectTarget (h : Tracks p) {w' : ChatWindow qt} {index : Nat} {peer : String}
    (hplaced : w'.book.Placed dmTitle fixedTabs) (hshown : ¬ ∃ u, w'.book.Dangling u)
    (huser : w'.username = p.window.username)
    (hitem : (qt.items p.window.dmTargetCombo)[index]? = some peer)
    (hcombo : w'.dmTargetCombo = qt.setCurrentItem p.window.dmTargetCombo index)
    (hlist : w'.userList = p.window.userList) : Tracks ⟨w', p.aim.pick peer⟩ where
  placed := hplaced
  shown := hshown
  registered := h.registered
  items := by
    show qt.items w'.dmTargetCombo = p.aim.latest.filter fun name => name ≠ w'.username
    rw [hcombo, huser, hqt.items_setCurrentItem]
    exact h.items
  rows := by
    show ∀ row text, w'.userList[row]? = some text → _
    rw [hlist]
    exact h.rows
  fresh _ := by
    have hmem := List.mem_of_getElem? hitem
    rw [h.items, List.mem_filter] at hmem
    refine ⟨peer, rfl, fun hempty => h.registered (hempty ▸ hmem.1), ?_⟩
    show qt.currentText w'.dmTargetCombo = peer
    rw [hcombo]
    exact hqt.currentText_setCurrentItem hitem

/-- The user double-clicks the entry of a peer. -/
theorem doubleClick (h : Tracks p) {w' : ChatWindow qt} {row : Nat} {peer : String} {st : Int}
    (hplaced : w'.book.Placed dmTitle fixedTabs) (hshown : ¬ ∃ u, w'.book.Dangling u)
    (huser : w'.username = p.window.username) (hrow : p.aim.latest[row]? = some peer)
    (hw : w' = p.window.onUserDoubleClicked (userEntry peer st)) :
    Tracks ⟨w', p.aim.doubleClick p.window peer⟩ where
  placed := hplaced
  shown := hshown
  registered := h.registered
  items := by
    show qt.items w'.dmTargetCombo = p.aim.latest.filter fun name => name ≠ w'.username
    rw [huser, hw, items_onUserDoubleClicked hqt]
    exact h.items
  rows := by
    show ∀ row text, w'.userList[row]? = some text → _
    rw [hw, onUserDoubleClicked_userList]
    exact h.rows
  fresh hfresh := by
    have hfresh' : CleanName qt peer ∧ (peer ≠ p.window.username ∨ p.aim.fresh = true) := by
      simpa [Aim.doubleClick] using hfresh
    have ⟨hclean, hcounts⟩ := hfresh'
    by_cases hother : peer = p.window.username
    · have ⟨peer', hpicked, hne, hcurrent⟩ := h.fresh (hcounts.resolve_left (not_not.2 hother))
      refine ⟨peer', (if_pos hother).trans hpicked, hne, ?_⟩
      show qt.currentText w'.dmTargetCombo = peer'
      rw [hw, onUserDoubleClicked_of_clean hqt hclean, if_pos (Or.inr hother)]
      exact hcurrent
    · have hmem := List.mem_of_getElem? hrow
      have hne : peer ≠ "" := fun hempty => h.registered (hempty ▸ hmem)
      refine ⟨peer, if_neg hother, hne, ?_⟩
      show qt.currentText w'.dmTargetCombo = peer
      rw [hw]
      exact currentText_of_clean hqt hclean hne hother (h.offered hmem hother) st

/-- A list of users arrives. -/
theorem list {w w' : ChatWindow qt} {a : Aim} {usernames : List String} {statuses : List Int}
    (hplaced : w'.book.Placed dmTitle fixedTabs) (hshown : ¬ ∃ u, w'.book.Dangling u)
    (huser : w'.username = w.username) (hregistered : "" ∉ usernames)
    (hw : w' = w.onAllUsers usernames statuses) : Tracks ⟨w', a.list usernames⟩ where
  placed := hplaced
  shown := hshown
  registered := hregistered
  items := by
    show qt.items w'.dmTargetCombo = usernames.filter fun name => name ≠ w'.username
    rw [huser, hw]
    exact items_onAllUsers hqt usernames statuses
  rows row text htext := by
    change w'.userList[row]? = some text at htext
    rw [hw, getElem?_userList, Option.map_eq_some_iff] at htext
    have ⟨peer, hpeer, he⟩ := htext
    exact ⟨peer, _, hpeer, he.symm⟩
  fresh hfresh := by cases hfresh

theorem step (h : Tracks p) (hregular : e.regular = true)
    (hs : (aimedSystem qt username localIp).step p e = some p') : Tracks p' := by
  have ⟨x, hslot, he⟩ := Option.map_eq_some_iff.1 hs
  rw [← he]
  have hplaced := Placed.slot hqt h.placed hslot
  have hshown := (not_dangling_slot hqt h.placed hslot).2 ⟨h.shown, fun index hclose => by
    rw [hclose] at hregular
    exact of_decide_eq_true hregular⟩
  have huser := slot_username hslot
  rcases slot_targets hslot with ⟨index, peer, hevent, hitem, hcombo, hlist⟩ |
    ⟨row, text, hevent, hrow, hx⟩ | ⟨m, hevent, hx⟩ | ⟨hcombo, hlist, hsame⟩
  · have hafter : p.aim.after p.window e = p.aim.pick peer := by
      rw [hevent, Aim.after, hitem]
      rfl
    rw [hafter]
    exact h.selectTarget hqt hplaced hshown huser hitem hcombo hlist
  · have ⟨peer, st, hpeer, htext⟩ := h.rows row text hrow
    have hafter : p.aim.after p.window e = p.aim.doubleClick p.window peer := by
      rw [hevent, Aim.after, hpeer]
      rfl
    rw [hafter]
    exact h.doubleClick hqt hplaced hshown huser hpeer (htext ▸ hx)
  · have hafter : p.aim.after p.window e = p.aim.list m.usernames := by
      rw [hevent]
      rfl
    rw [hevent] at hregular
    rw [hafter]
    exact Tracks.list hqt hplaced hshown huser (of_decide_eq_true hregular) hx
  · rw [hsame]
    refine ⟨hplaced, hshown, h.registered, ?_, ?_, ?_⟩
    · show qt.items x.1.dmTargetCombo = p.aim.latest.filter fun name => name ≠ x.1.username
      rw [hcombo, huser]
      exact h.items
    · show ∀ row text, x.1.userList[row]? = some text → _
      rw [hlist]
      exact h.rows
    · show _ → ∃ peer, _ ∧ _ ∧ qt.currentText x.1.dmTargetCombo = peer
      rw [hcombo]
      exact h.fresh

end Tracks

/-- A pick that does not count has left the combo box without a current item. -/
def Idle {qt : Qt} (p : Aimed qt) : Prop :=
  p.aim.fresh = false → qt.currentItem p.window.dmTargetCombo = none

section

variable {qt : Qt} {p p' : Aimed qt} {e : WindowEvent} {username localIp : String}
  (hqt : qt.Documented)
include hqt

theorem Idle.step (htracks : Tracks p) (h : Idle p) (hcleanly : p.Cleanly e)
    (hs : (aimedSystem qt username localIp).step p e = some p') : Idle p' := by
  have ⟨x, hslot, he⟩ := Option.map_eq_some_iff.1 hs
  rw [← he]
  intro hfresh
  change (p.aim.after p.window e).fresh = false at hfresh
  show qt.currentItem x.1.dmTargetCombo = none
  rcases slot_targets hslot with ⟨index, peer, hevent, hitem, _⟩ |
    ⟨row, text, hevent, hrow, hx⟩ | ⟨m, hevent, hx⟩ | ⟨hcombo, _, hsame⟩
  · rw [hevent, Aim.after, hitem] at hfresh
    cases hfresh
  · have ⟨peer, st, hpeer, htext⟩ := htracks.rows row text hrow
    have hclean := hcleanly row peer hevent hpeer
    rw [hevent, Aim.after, hpeer] at hfresh
    have ⟨hown, hstale⟩ : peer = p.window.username ∧ p.aim.fresh = false := by
      simpa [Aim.doubleClick, hclean] using hfresh
    rw [hx, htext, onUserDoubleClicked_of_clean hqt hclean, if_pos (Or.inr hown)]
    exact h hstale
  · rw [hx]
    exact currentItem_onAllUsers hqt _ _
  · rw [hsame] at hfresh
    rw [hcombo]
    exact h hfresh

/-- A submission after a pick that counts is faithful. -/
theorem Tracks.faithful (h : Tracks p) (hsubmits : p.Submits e) (hfresh : p.aim.fresh = true) :
    p.Faithful := by
  have ⟨_, hmode, htext⟩ := hsubmits
  have ⟨peer, hpicked, hne, hcurrent⟩ := h.fresh hfresh
  have hsends : p.window.SendsTo peer := sendsTo_of_target hqt h.placed
    (fun hdangling => h.shown ⟨peer, hdangling⟩) hmode htext hcurrent hne
  refine ⟨fun peer' hpeer' _ => ?_, fun m hm => ?_, ?_⟩
  · rw [hpicked, Option.some.injEq] at hpeer'
    exact hpeer' ▸ hsends
  · rw [hsends.msgs, List.mem_singleton, ClientMsg.messageDm.injEq] at hm
    rw [hm]
    exact hpicked
  · rw [hsends.msgs]
    exact ⟨_, List.mem_singleton_self _, rfl⟩

omit hqt in
/-- A faithful submission comes after a pick that counts. -/
theorem Idle.fresh (h : Idle p) (hsubmits : p.Submits e) (hfaithful : p.Faithful) :
    p.aim.fresh = true := by
  have ⟨_, hmode, _⟩ := hsubmits
  by_contra hstale
  have hnone := h (Bool.eq_false_iff.2 hstale)
  have ⟨m, hm, _⟩ := hfaithful.kept
  rw [onSendClicked_of_no_target hmode (Qt.currentText_of_none hnone)] at hm
  cases hm

/-- In a run that closes no tab of a peer, the submissions are faithful if each comes
after a pick that counts, and only then if the double-clicks are on clean names. -/
theorem submissions_reach_pick {es : List WindowEvent} (hregular : ∀ e ∈ es, e.regular = true) :
    ((aimedSystem qt username localIp).Meets Aimed.Freshly
        (aimedSystem qt username localIp).init es →
      (aimedSystem qt username localIp).Meets Aimed.Faithfully
        (aimedSystem qt username localIp).init es) ∧
    ((aimedSystem qt username localIp).Meets Aimed.Cleanly
        (aimedSystem qt username localIp).init es →
      (aimedSystem qt username localIp).Meets Aimed.Faithfully
        (aimedSystem qt username localIp).init es →
      (aimedSystem qt username localIp).Meets Aimed.Freshly
        (aimedSystem qt username localIp).init es) := by
  have hmeets : (aimedSystem qt username localIp).Meets (fun _ e => e.regular = true)
      (aimedSystem qt username localIp).init es := .of_forall fun e he _ => hregular e he
  refine ⟨fun hfresh => ?_, fun hclean hfaithful => ?_⟩
  · refine .imp (I := Tracks) (.init hqt) (fun t e t' ht hr hs => ht.step hqt hr hs)
      (fun t e ht _ hfresh hsubmits => ?_) hmeets hfresh
    exact ht.faithful hqt hsubmits (hfresh hsubmits)
  · refine .imp (I := fun p => Tracks p ∧ Idle p) ⟨.init hqt, fun _ => hqt.currentItem_new⟩
      (fun t e t' ht hr hs => ⟨ht.1.step hqt hr.1 hs, ht.2.step hqt ht.1 hr.2 hs⟩)
      (fun t e ht _ hfaithful hsubmits => ?_) (hmeets.and hclean) hfaithful
    exact ht.2.fresh hsubmits (hfaithful hsubmits)

end

/-- A message to bob, after a double-click on him. -/
theorem submission_reaches_bob : (aimedSystem .plain "ann" "10.0.0.1").Meets Aimed.Faithfully
    (aimedSystem .plain "ann" "10.0.0.1").init
    [.receive (.allUsers ⟨["ann", "bob"], [.ACTIVE, .ACTIVE]⟩), .doubleClick 1, .edit "hi",
      .sendClicked] :=
  (submissions_reach_pick Qt.plain_documented (by decide)).1 (Lts.Meets.of_runIf rfl).1

/-- Bob is picked and still there, but the list that follows a reply 201 empties the
combo box: the text is lost. -/
theorem submission_lost : ¬ ∀ es : List WindowEvent, (∀ e ∈ es, e.regular = true) →
    (aimedSystem .plain "ann" "10.0.0.1").Meets Aimed.Faithfully
      (aimedSystem .plain "ann" "10.0.0.1").init es := by
  intro h
  have hmeets := h ([.receive (.allUsers ⟨["ann", "bob"], [.ACTIVE, .ACTIVE]⟩), .selectMode .dm,
    .selectTarget 0, .edit "hi", .receive (.serverResponse ⟨201, "Status changed to ACTIVO", true⟩),
    .receive (.allUsers ⟨["ann", "bob"], [.ACTIVE, .ACTIVE]⟩)] ++ [.sendClicked]) (by decide)
  have hfaithful := hmeets.last rfl ⟨rfl, rfl, by decide⟩
  have hmsgs := (hfaithful.sent "bob" rfl (by decide)).msgs
  cases hmsgs

end SimpleChat
