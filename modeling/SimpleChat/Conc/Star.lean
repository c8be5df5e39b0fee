import SimpleChat.Conc.Lts
import Mathlib.Data.List.Basic

/-!
# A component and its peers

A component in the middle, the hub, and its peers, each behind a link of its own.  A
link carries data in both directions, in order and with any delay.

The labels that take data off a link belong to the systems of the components, so that
a run of the whole is a run of each of them (`reaches_hub`, `reaches_peer`).  What a
component has got over a link is the beginning of what was sent on the other side
(`hub_got`, `peer_got`).
-/

namespace Conc

open Function

/-- The end of a link: the label that takes data off it, and what was sent on it. -/
structure Port (σ ℓ α : Type) where
  take : List α → ℓ
  sent : σ → List α

/-- Nothing that was sent is taken back. -/
def Port.Grows {σ ℓ α : Type} (port : Port σ ℓ α) (L : Lts σ ℓ) : Prop :=
  ∀ s l s', L.step s l = some s' → port.sent s <+: port.sent s'

/-- A hub and its peers.  The components take the steps `hubOwn` and `peerOwn` by
themselves. -/
structure Star (ι α σ ℓ : Type) (τ μ : ι → Type) where
  hub : Lts σ ℓ
  peer : (i : ι) → Lts (τ i) (μ i)
  hubPort : ι → Port σ ℓ α
  peerPort : (i : ι) → Port (τ i) (μ i) α
  hubOwn : ℓ → Bool
  peerOwn : (i : ι) → μ i → Bool

/-- The states of the components, and how much was taken off each link. -/
structure StarState (ι σ : Type) (τ : ι → Type) where
  hub : σ
  peer : (i : ι) → τ i
  /-- What the hub has taken. -/
  up : ι → Nat
  /-- What the peer has taken. -/
  down : ι → Nat

inductive StarLabel (ι ℓ : Type) (μ : ι → Type) where
  | hub (l : ℓ)
  | peer (i : ι) (l : μ i)
  /-- The next `n` data from the peer arrive at the hub. -/
  | up (i : ι) (n : Nat)
  /-- The next `n` data from the hub arrive at the peer. -/
  | down (i : ι) (n : Nat)

namespace Star

variable {ι α σ ℓ : Type} {τ μ : ι → Type} [DecidableEq ι] (S : Star ι α σ ℓ τ μ)

/-- The next `n` data on the link from the peer. -/
def nextUp (s : StarState ι σ τ) (i : ι) (n : Nat) : List α :=
  (((S.peerPort i).sent (s.peer i)).drop (s.up i)).take n

def nextDown (s : StarState ι σ τ) (i : ι) (n : Nat) : List α :=
  (((S.hubPort i).sent s.hub).drop (s.down i)).take n

def step (s : StarState ι σ τ) : StarLabel ι ℓ μ → Option (StarState ι σ τ)
  | .hub l => if S.hubOwn l then (S.hub.step s.hub l).map fun x => { s with hub := x } else none
  | .peer i l =>
    if S.peerOwn i l then
      ((S.peer i).step (s.peer i) l).map fun x => { s with peer := update s.peer i x }
    else none
  | .up i n =>
    let data := S.nextUp s i n
    (S.hub.step s.hub ((S.hubPort i).take data)).map fun x =>
      { s with hub := x, up := update s.up i (s.up i + data.length) }
  | .down i n =>
    let data := S.nextDown s i n
    ((S.peer i).step (s.peer i) ((S.peerPort i).take data)).map fun x =>
      { s with peer := update s.peer i x, down := update s.down i (s.down i + data.length) }

def toLts : Lts (StarState ι σ τ) (StarLabel ι ℓ μ) where
  init := ⟨S.hub.init, fun i => (S.peer i).init, fun _ => 0, fun _ => 0⟩
  step := S.step

variable {S} {C : StarState ι σ τ → StarLabel ι ℓ μ → Prop} {s s' : StarState ι σ τ}

theorem step_hub {l : ℓ} :
    S.toLts.step s (.hub l) = some s' ↔
      S.hubOwn l = true ∧ ∃ x, S.hub.step s.hub l = some x ∧ s' = { s with hub := x } := by
  show (if _ then _ else _) = _ ↔ _
  rw [Option.ite_none_right_eq_some, Option.map_eq_some_iff]
  exact and_congr_right fun _ => exists_congr fun x => and_congr_right fun _ => eq_comm

theorem step_peer {i : ι} {l : μ i} :
    S.toLts.step s (.peer i l) = some s' ↔
      S.peerOwn i l = true ∧
        ∃ x, (S.peer i).step (s.peer i) l = some x ∧ s' = { s with peer := update s.peer i x } := by
  show (if _ then _ else _) = _ ↔ _
  rw [Option.ite_none_right_eq_some, Option.map_eq_some_iff]
  exact and_congr_right fun _ => exists_congr fun x => and_congr_right fun _ => eq_comm

theorem step_up {i : ι} {n : Nat} :
    S.toLts.step s (.up i n) = some s' ↔
      ∃ x, S.hub.step s.hub ((S.hubPort i).take (S.nextUp s i n)) = some x ∧
        s' = { s with hub := x, up := update s.up i (s.up i + (S.nextUp s i n).length) } := by
  show Option.map _ _ = _ ↔ _
  rw [Option.map_eq_some_iff]
  exact exists_congr fun x => and_congr_right fun _ => eq_comm

theorem step_down {i : ι} {n : Nat} :
    S.toLts.step s (.down i n) = some s' ↔
      ∃ x, (S.peer i).step (s.peer i) ((S.peerPort i).take (S.nextDown s i n)) = some x ∧
        s' = { s with
          peer := update s.peer i x
          down := update s.down i (s.down i + (S.nextDown s i n).length) } := by
  show Option.map _ _ = _ ↔ _
  rw [Option.map_eq_some_iff]
  exact exists_congr fun x => and_congr_right fun _ => eq_comm

/-! ## The runs of the components -/

/-- A run of the whole is a run of the hub. -/
theorem reaches_hub {D : σ → ℓ → Prop} (h : S.toLts.Reaches C s)
    (hown : ∀ s l, C s (.hub l) → D s.hub l)
    (htake : ∀ s i data, D s ((S.hubPort i).take data)) : S.hub.Reaches D s.hub := by
  refine h.invariant (I := fun s => S.hub.Reaches D s.hub) .init fun s l s' _ hI hC hs => ?_
  cases l with
  | hub l =>
    obtain ⟨_, x, hx, rfl⟩ := step_hub.1 hs
    exact hI.tail (hown s l hC) hx
  | peer i l =>
    obtain ⟨_, x, _, rfl⟩ := step_peer.1 hs
    exact hI
  | up i n =>
    obtain ⟨x, hx, rfl⟩ := step_up.1 hs
    exact hI.tail (htake _ i _) hx
  | down i n =>
    obtain ⟨x, _, rfl⟩ := step_down.1 hs
    exact hI

/-- A run of the whole is a run of each peer. -/
theorem reaches_peer {i : ι} {D : τ i → μ i → Prop} (h : S.toLts.Reaches C s)
    (hown : ∀ s l, C s (.peer i l) → D (s.peer i) l)
    (htake : ∀ s data, D s ((S.peerPort i).take data)) : (S.peer i).Reaches D (s.peer i) := by
  have hkeep : ∀ {s : StarState ι σ τ} {j : ι} (x : τ j) (l : μ j), (S.peer i).Reaches D (s.peer i) →
      (∀ hji : j = i, D (s.peer i) (hji ▸ l)) → (S.peer j).step (s.peer j) l = some x →
        (S.peer i).Reaches D (update s.peer j x i) := by
    intro s j x l hI hD hx
    by_cases hji : j = i
    · subst hji
      rw [update_self]
      exact hI.tail (hD rfl) hx
    · rw [update_of_ne (Ne.symm hji)]
      exact hI
  refine h.invariant (I := fun s => (S.peer i).Reaches D (s.peer i)) .init fun s l s' _ hI hC hs => ?_
  cases l with
  | hub l =>
    obtain ⟨_, x, _, rfl⟩ := step_hub.1 hs
    exact hI
  | peer j l =>
    obtain ⟨_, x, hx, rfl⟩ := step_peer.1 hs
    refine hkeep x l hI (fun hji => ?_) hx
    subst hji
    exact hown s l hC
  | up j n =>
    obtain ⟨x, _, rfl⟩ := step_up.1 hs
    exact hI
  | down j n =>
    obtain ⟨x, hx, rfl⟩ := step_down.1 hs
    refine hkeep x _ hI (fun hji => ?_) hx
    subst hji
    exact htake _ _

/-! ## What goes over a link -/

/-- `got` is what the hub has taken off the link of a peer. -/
structure HubGets (S : Star ι α σ ℓ τ μ) (i : ι) (got : σ → List α) : Prop where
  init : got S.hub.init = []
  take : ∀ s data s', S.hub.Reaches Lts.Any s →
    S.hub.step s ((S.hubPort i).take data) = some s' → got s' = got s ++ data
  other : ∀ s l s', S.hub.Reaches Lts.Any s →
    (S.hubOwn l = true ∨ ∃ j data, j ≠ i ∧ l = (S.hubPort j).take data) →
      S.hub.step s l = some s' → got s' = got s

/-- `got` is what a peer has taken off its link. -/
structure PeerGets (S : Star ι α σ ℓ τ μ) (i : ι) (got : τ i → List α) : Prop where
  init : got (S.peer i).init = []
  take : ∀ s data s', (S.peer i).step s ((S.peerPort i).take data) = some s' → got s' = got s ++ data
  own : ∀ s l s', S.peerOwn i l = true → (S.peer i).step s l = some s' → got s' = got s

/-- The first `n` data of those that were sent are there. -/
def Taken (sent : List α) (n : Nat) (got : List α) : Prop := n ≤ sent.length ∧ got = sent.take n

theorem Taken.grow {sent sent' got : List α} {n : Nat} (h : Taken sent n got)
    (hsent : sent <+: sent') : Taken sent' n got := by
  obtain ⟨rest, rfl⟩ := hsent
  refine ⟨?_, h.2.trans (List.take_append_of_le_length h.1).symm⟩
  rw [List.length_append]
  exact Nat.le_add_right_of_le h.1

/-- The next data belong to those that are there, too. -/
theorem Taken.next {sent got : List α} {n : Nat} (h : Taken sent n got) (k : Nat) :
    Taken sent (n + ((sent.drop n).take k).length) (got ++ (sent.drop n).take k) := by
  refine ⟨?_, ?_⟩
  · have hle := h.1
    rw [List.length_take, List.length_drop]
    omega
  · rw [h.2, List.take_add, List.length_take, ← List.take_take, List.take_length]

/-- What the hub has got over a link is the beginning of what the peer has sent. -/
theorem hub_got {i : ι} {got : σ → List α} (hgets : S.HubGets i got)
    (hgrows : (S.peerPort i).Grows (S.peer i)) (h : S.toLts.Reaches C s) :
    Taken ((S.peerPort i).sent (s.peer i)) (s.up i) (got s.hub) := by
  have hsent : ∀ {s : StarState ι σ τ} {j : ι} (x : τ j) (l : μ j),
      Taken ((S.peerPort i).sent (s.peer i)) (s.up i) (got s.hub) →
        (S.peer j).step (s.peer j) l = some x →
          Taken ((S.peerPort i).sent (update s.peer j x i)) (s.up i) (got s.hub) := by
    intro s j x l hI hx
    by_cases hji : j = i
    · subst hji
      rw [update_self]
      exact hI.grow (hgrows _ _ _ hx)
    · rw [update_of_ne (Ne.symm hji)]
      exact hI
  refine h.invariant (I := fun s => Taken ((S.peerPort i).sent (s.peer i)) (s.up i) (got s.hub))
    ⟨Nat.zero_le _, hgets.init⟩ fun s l s' hs' hI _ hs => ?_
  have hhub : S.hub.Reaches Lts.Any s.hub := reaches_hub hs' (fun _ _ _ => trivial) fun _ _ _ => trivial
  cases l with
  | hub l =>
    obtain ⟨hown, x, hx, rfl⟩ := step_hub.1 hs
    show Taken _ _ (got x)
    rw [hgets.other _ _ _ hhub (Or.inl hown) hx]
    exact hI
  | peer j l =>
    obtain ⟨_, x, hx, rfl⟩ := step_peer.1 hs
    exact hsent x l hI hx
  | up j n =>
    obtain ⟨x, hx, rfl⟩ := step_up.1 hs
    by_cases hji : j = i
    · subst hji
      show Taken _ (update s.up j _ j) (got x)
      rw [update_self, hgets.take _ _ _ hhub hx]
      exact hI.next n
    · show Taken _ (update s.up j _ i) (got x)
      rw [update_of_ne (Ne.symm hji), hgets.other _ _ _ hhub (Or.inr ⟨j, _, hji, rfl⟩) hx]
      exact hI
  | down j n =>
    obtain ⟨x, hx, rfl⟩ := step_down.1 hs
    exact hsent x _ hI hx

/-- What a peer has got over its link is the beginning of what the hub has sent there. -/
theorem peer_got {i : ι} {got : τ i → List α} (hgets : S.PeerGets i got)
    (hgrows : (S.hubPort i).Grows S.hub) (h : S.toLts.Reaches C s) :
    Taken ((S.hubPort i).sent s.hub) (s.down i) (got (s.peer i)) := by
  refine h.invariant (I := fun s => Taken ((S.hubPort i).sent s.hub) (s.down i) (got (s.peer i)))
    ⟨Nat.zero_le _, hgets.init⟩ fun s l s' _ hI _ hs => ?_
  cases l with
  | hub l =>
    obtain ⟨_, x, hx, rfl⟩ := step_hub.1 hs
    exact hI.grow (hgrows _ _ _ hx)
  | peer j l =>
    obtain ⟨hown, x, hx, rfl⟩ := step_peer.1 hs
    by_cases hji : j = i
    · subst hji
      show Taken _ _ (got (update s.peer j x j))
      rw [update_self, hgets.own _ _ _ hown hx]
      exact hI
    · show Taken _ _ (got (update s.peer j x i))
      rw [update_of_ne (Ne.symm hji)]
      exact hI
  | up j n =>
    obtain ⟨x, hx, rfl⟩ := step_up.1 hs
    exact hI.grow (hgrows _ _ _ hx)
  | down j n =>
    obtain ⟨x, hx, rfl⟩ := step_down.1 hs
    by_cases hji : j = i
    · subst hji
      show Taken _ (update s.down j _ j) (got (update s.peer j x j))
      rw [update_self, update_self, hgets.take _ _ _ hx]
      exact hI.next n
    · show Taken _ (update s.down j _ i) (got (update s.peer j x i))
      rw [update_of_ne (Ne.symm hji), update_of_ne (Ne.symm hji)]
      exact hI

end Star

end Conc
