import GDNet.ENet.Peer

/-!
# What may happen to a slot

A connection goes through its slot in one direction: connecting, accepted,
connected, closing, and then the slot is free again.  `Moves` says so of two
states of one slot, and `HostMoves` of all slots of a host, with the three
things an ENet function has to be entitled to: to free a slot whose connection
had come up, to let a connecting slot go on, and to take a slot out of
CONNECTED.  Each ENet function has one lemma that places it under `HostMoves`.
-/

namespace ENet

/-- The stages of a connection. -/
def PeerState.rank : PeerState → Nat
  | .disconnected => 0
  | .connecting => 1
  | .acknowledgingConnect => 2
  | .connectionPending => 2
  | .connectionSucceeded => 2
  | .connected => 3
  | .disconnectLater => 4
  | .disconnecting => 4
  | .acknowledgingDisconnect => 4
  | .zombie => 4

theorem PeerState.rank_eq_zero {s : PeerState} : s.rank = 0 ↔ s = .disconnected := by
  cases s <;> simp [rank]

theorem PeerState.rank_eq_three {s : PeerState} : s.rank = 3 ↔ s = .connected := by
  cases s <;> simp [rank]

/-- A DISCONNECT waits for its acknowledgement in two states only. -/
def Slot.Answered (s : Slot) : Prop :=
  .disconnect ∈ s.acknowledgements → s.state = .acknowledgingDisconnect ∨ s.state = .zombie

/-- A datagram has come from the address of a connection that got this far. -/
def Slot.Reached (s : Slot) : Prop :=
  s.state.rank = 2 ∨ s.state.rank = 3 → s.address.host ≠ enetHostBroadcast

/-- What a function is entitled to do. -/
structure Allow where
  frees : Prop
  opens : Prop
  closes : Nat → Prop

/-- Entitled to everything. -/
def Allow.all : Allow := ⟨True, True, fun _ => True⟩

/-- The slot `i` goes from `s` to `s'`. -/
structure Moves (a : Allow) (i : Nat) (s s' : Slot) : Prop where
  connection : s'.connection = s.connection
  rank : s'.state = .disconnected ∨ s.state ≠ .disconnected ∧ s.state.rank ≤ s'.state.rank
  frees : 3 ≤ s.state.rank → s'.state = .disconnected → a.frees
  opens : s.state.rank = 1 → s'.state.rank = 2 ∨ s'.state.rank = 3 → a.opens
  closes : s.Answered → s.state = .connected → s'.state ≠ .connected → a.closes i
  address : s.address.host ≠ enetHostBroadcast → s'.address = s.address
  answered : s.Answered → s'.Answered
  reached : s.Reached → s'.Reached

namespace Moves

variable {a b : Allow} {i : Nat} {s s' s'' : Slot}

theorem refl (s : Slot) : Moves a i s s where
  connection := rfl
  rank := by
    by_cases h : s.state = .disconnected
    · exact Or.inl h
    · exact Or.inr ⟨h, Nat.le_refl _⟩
  frees h e := by rw [e] at h; simp [PeerState.rank] at h
  opens h e := by omega
  closes _ h e := absurd h e
  address _ := rfl
  answered h := h
  reached h := h

theorem trans (h : Moves a i s s') (h' : Moves a i s' s'') : Moves a i s s'' where
  connection := h'.connection.trans h.connection
  rank := by
    rcases h'.rank with e | ⟨hne, hle⟩
    · exact Or.inl e
    · rcases h.rank with e | ⟨hne', hle'⟩
      · exact absurd e hne
      · exact Or.inr ⟨hne', Nat.le_trans hle' hle⟩
  frees hr e := by
    by_cases hd : s'.state = .disconnected
    · exact h.frees hr hd
    · refine h'.frees ?_ e
      rcases h.rank with hd' | ⟨_, hle⟩
      · exact absurd hd' hd
      · exact Nat.le_trans hr hle
  opens hr e := by
    by_cases ho : s'.state.rank = 2 ∨ s'.state.rank = 3
    · exact h.opens hr ho
    · refine h'.opens ?_ e
      rcases h'.rank with hd | ⟨hne, hle⟩
      · rw [hd] at e; simp [PeerState.rank] at e
      · have : s'.state.rank ≠ 0 := fun h => hne (PeerState.rank_eq_zero.mp h)
        omega
  closes hok hc e := by
    by_cases hc' : s'.state = .connected
    · exact h'.closes (h.answered hok) hc' e
    · exact h.closes hok hc hc'
  address hb := by
    have he := h.address hb
    rw [h'.address (by rw [he]; exact hb), he]
  answered ha := h'.answered (h.answered ha)
  reached hr := h'.reached (h.reached hr)

theorem mono (h : Moves a i s s') (hf : a.frees → b.frees) (ho : a.opens → b.opens)
    (hc : a.closes i → b.closes i) : Moves b i s s' where
  connection := h.connection
  rank := h.rank
  frees hr e := hf (h.frees hr e)
  opens hr e := ho (h.opens hr e)
  closes hok hs e := hc (h.closes hok hs e)
  address := h.address
  answered := h.answered
  reached := h.reached

/-- A free slot stays free. -/
theorem disconnected (h : Moves a i s s') (hd : s.state = .disconnected) :
    s'.state = .disconnected := by
  rcases h.rank with e | ⟨hne, _⟩
  · exact e
  · exact absurd hd hne

/-- A change of state alone. -/
theorem state {t : PeerState} (hd : s.state ≠ .disconnected) (hr : s.state.rank ≤ t.rank)
    (ho : s.state.rank = 1 → t.rank = 2 ∨ t.rank = 3 → a.opens)
    (hc : s.Answered → s.state = .connected → t ≠ .connected → a.closes i)
    (hack : s.Answered → .disconnect ∈ s.acknowledgements →
      t = .acknowledgingDisconnect ∨ t = .zombie)
    (haddr : s.Reached → t.rank = 2 ∨ t.rank = 3 → s.address.host ≠ enetHostBroadcast) :
    Moves a i s { s with state := t } where
  connection := rfl
  rank := Or.inr ⟨hd, hr⟩
  frees h e := by
    change t = _ at e
    rw [e] at hr
    have h₀ : PeerState.disconnected.rank = 0 := rfl
    omega
  opens := ho
  closes := hc
  address _ := rfl
  answered := hack
  reached := haddr

/-- The slot is freed or its lists are emptied. -/
theorem clear {t : PeerState} (ht : t = .disconnected ∨ t = s.state)
    (hf : 3 ≤ s.state.rank → t = .disconnected → a.frees)
    (hc : s.state = .connected → t ≠ .connected → a.closes i) :
    Moves a i s { s with state := t, acknowledgements := [] } where
  connection := rfl
  rank := by
    rcases ht with h | h
    · exact Or.inl h
    · by_cases hd : s.state = .disconnected
      · exact Or.inl (h.trans hd)
      · exact Or.inr ⟨hd, Nat.le_of_eq (congrArg _ h.symm)⟩
  frees := hf
  opens hr ho := by
    change t.rank = 2 ∨ t.rank = 3 at ho
    rcases ht with h | h
    · rw [h] at ho; simp [PeerState.rank] at ho
    · rw [h] at ho; omega
  closes _ := hc
  address _ := rfl
  answered _ hm := by cases hm
  reached h hr := by
    change t.rank = 2 ∨ t.rank = 3 at hr
    rcases ht with h' | h'
    · rw [h'] at hr; simp [PeerState.rank] at hr
    · rw [h'] at hr; exact h hr

/-- An acknowledgement of a command other than DISCONNECT, or in the state for it. -/
theorem acknowledge {c : ProtocolCommand}
    (hc : c = .disconnect → s.state = .acknowledgingDisconnect) :
    Moves a i s { s with acknowledgements := s.acknowledgements ++ [c] } where
  connection := rfl
  rank := (refl (a := a) (i := i) s).rank
  frees := (refl (a := a) (i := i) s).frees
  opens := (refl (a := a) (i := i) s).opens
  closes := (refl (a := a) (i := i) s).closes
  address _ := rfl
  answered h hm := by
    rcases List.mem_append.mp hm with hm | hm
    · exact h hm
    · exact Or.inl (hc (List.mem_singleton.mp hm).symm)
  reached h := h

/-- Acknowledgements that were sent leave the list. -/
theorem sent (n : Nat) : Moves a i s { s with acknowledgements := s.acknowledgements.drop n } where
  connection := rfl
  rank := (refl (a := a) (i := i) s).rank
  frees := (refl (a := a) (i := i) s).frees
  opens := (refl (a := a) (i := i) s).opens
  closes := (refl (a := a) (i := i) s).closes
  address _ := rfl
  answered h hm := h (List.mem_of_mem_drop hm)
  reached h := h

end Moves

/-- The slot is free and goes to one of the connections numbered from `n` to `m`. -/
structure Takes (n m : Nat) (s s' : Slot) : Prop where
  free : s.state = .disconnected
  fresh : n ≤ s'.connection
  counted : s'.connection < m
  answered : s.Answered → s'.Answered
  reached : s'.Reached

theorem Takes.moves {n m : Nat} {a : Allow} {i : Nat} {s s' s'' : Slot} (h : Takes n m s s')
    (hm : Moves a i s' s'') : Takes n m s s'' where
  free := h.free
  fresh := hm.connection.symm ▸ h.fresh
  counted := hm.connection.symm ▸ h.counted
  answered ha := hm.answered (h.answered ha)
  reached := hm.reached h.reached

/-! ## All slots of a host -/

def Host.slot (h : Host) (i : Nat) : Slot := (h.peers i).slot

structure HostMoves (a : Allow) (h h' : Host) : Prop where
  slots : ∀ i, Moves a i (h.slot i) (h'.slot i)
  peerCount : h'.peerCount = h.peerCount
  connections : h'.connections = h.connections

namespace HostMoves

variable {a b : Allow} {h h' h'' : Host} {i : Nat}

theorem refl (h : Host) : HostMoves a h h := ⟨fun _ => Moves.refl _, rfl, rfl⟩

theorem trans (hm : HostMoves a h h') (hm' : HostMoves a h' h'') : HostMoves a h h'' :=
  ⟨fun i => (hm.slots i).trans (hm'.slots i), hm'.peerCount.trans hm.peerCount,
    hm'.connections.trans hm.connections⟩

theorem mono (hm : HostMoves a h h') (hf : a.frees → b.frees) (ho : a.opens → b.opens)
    (hc : ∀ i, a.closes i → b.closes i) : HostMoves b h h' :=
  ⟨fun i => (hm.slots i).mono hf ho (hc i), hm.peerCount, hm.connections⟩

theorem of_slots (hs : ∀ i, h'.slot i = h.slot i) (hp : h'.peerCount = h.peerCount)
    (hc : h'.connections = h.connections) : HostMoves a h h' :=
  ⟨fun i => hs i ▸ Moves.refl _, hp, hc⟩

theorem update {f : Peer → Peer} (hm : Moves a i (h.slot i) (f (h.peers i)).slot) :
    HostMoves a h (h.update i f) := by
  refine ⟨fun j => ?_, rfl, rfl⟩
  by_cases hj : j = i
  · subst hj
    rw [Host.slot, Host.slot, Host.update_peers_self]
    exact hm
  · rw [Host.slot, Host.slot, Host.update_peers_of_ne h f hj]
    exact Moves.refl _

/-- A change of a peer that leaves its slot alone. -/
theorem update_slot {f : Peer → Peer} (hf : (f (h.peers i)).slot = (h.peers i).slot) :
    HostMoves a h (h.update i f) := by
  refine update ?_
  rw [hf]
  exact Moves.refl _

end HostMoves

/-- The slots move, or are taken by new connections. -/
structure Receives (a : Allow) (h h' : Host) : Prop where
  slots : ∀ i, Moves a i (h.slot i) (h'.slot i) ∨
    a.opens ∧ Takes h.connections h'.connections (h.slot i) (h'.slot i)
  peerCount : h'.peerCount = h.peerCount
  connections : h.connections ≤ h'.connections

theorem HostMoves.receives {a : Allow} {h h' : Host} (hm : HostMoves a h h') : Receives a h h' :=
  ⟨fun i => Or.inl (hm.slots i), hm.peerCount, Nat.le_of_eq hm.connections.symm⟩

theorem Receives.mono {a b : Allow} {h h' : Host} (hr : Receives a h h') (hf : a.frees → b.frees)
    (ho : a.opens → b.opens) (hc : ∀ i, a.closes i → b.closes i) : Receives b h h' :=
  ⟨fun i => (hr.slots i).imp (fun hm => hm.mono hf ho (hc i)) (And.imp_left ho), hr.peerCount,
    hr.connections⟩

/-! ## Reset -/

theorem resetQueues_moves {a : Allow} (h : Host) (i : Nat) :
    HostMoves a h (peerResetQueues h i) := by
  refine ⟨fun j => ?_, rfl, rfl⟩
  by_cases hj : j = i
  · subst hj
    simp only [Host.slot, peerResetQueues, Host.update_peers_self]
    refine Moves.clear (Or.inr rfl) (fun hr e => ?_) (fun e hne => absurd e hne)
    change (h.peers j).state = _ at e
    simp [Peer.slot, e, PeerState.rank] at hr
  · simp only [Host.slot, peerResetQueues, Host.update_peers_of_ne _ _ hj]
    exact Moves.refl _

theorem reset_moves {a : Allow} {h : Host} {i : Nat}
    (hf : 3 ≤ (h.peers i).state.rank → a.frees)
    (hc : (h.peers i).state = .connected → a.closes i) : HostMoves a h (peerReset h i) := by
  refine ⟨fun j => ?_, rfl, rfl⟩
  by_cases hj : j = i
  · subst hj
    simp only [Host.slot, peerReset, peerResetQueues, Host.update_peers_self]
    exact Moves.clear (Or.inl rfl) (fun hr _ => hf hr) (fun e _ => hc e)
  · simp only [Host.slot, peerReset, peerResetQueues, Host.update_peers_of_ne _ _ hj]
    exact Moves.refl _

end ENet
