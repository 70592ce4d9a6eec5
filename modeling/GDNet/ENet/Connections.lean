import GDNet.ENet.Protocol

/-!
# Connections only go forward

Every function of the protocol moves slots as `HostMoves` allows.  What each of
them is entitled to says where a connection can end: a slot that had come up is
freed only together with a DISCONNECT event, and leaves CONNECTED only through a
DISCONNECT command or a timeout of its peer.
-/

namespace ENet

variable {a : Allow} {h : Host} {i : Nat}

/-! ## State changes -/

theorem changeState_moves {t : PeerState} (hd : (h.peers i).state ≠ .disconnected)
    (hr : (h.peers i).state.rank ≤ t.rank)
    (ho : (h.peers i).state.rank = 1 → t.rank = 2 ∨ t.rank = 3 → a.opens)
    (hc : (h.slot i).Answered → (h.peers i).state = .connected → t ≠ .connected → a.closes i)
    (hack : (h.slot i).Answered → .disconnect ∈ (h.peers i).acknowledgements →
      t = .acknowledgingDisconnect ∨ t = .zombie)
    (haddr : (h.slot i).Reached → t.rank = 2 ∨ t.rank = 3 →
      (h.peers i).address.host ≠ enetHostBroadcast) :
    HostMoves a h (protocolChangeState h i t) :=
  HostMoves.update (Moves.state (s := h.slot i) hd hr ho hc hack haddr)

theorem setDispatch_slot (h : Host) (queue : List Nat) (i : Nat) (b : Bool) (j : Nat) :
    (setDispatch h queue i b).slot j = h.slot j := by
  by_cases hj : j = i
  · subst hj; simp [setDispatch, Host.slot, Peer.slot]
  · simp [setDispatch, Host.slot, Host.update_peers_of_ne _ _ hj]

theorem setDispatch_moves (h : Host) (queue : List Nat) (i : Nat) (b : Bool) :
    HostMoves a h (setDispatch h queue i b) :=
  HostMoves.of_slots (setDispatch_slot h queue i b) rfl rfl

theorem queueDispatch_moves (h : Host) (i : Nat) : HostMoves a h (queueDispatch h i) := by
  unfold queueDispatch
  split
  · exact HostMoves.refl h
  · exact setDispatch_moves h _ i true

/-- Closing a slot, for its event to be dispatched later. -/
theorem dispatchZombie_moves (hd : (h.peers i).state ≠ .disconnected)
    (hc : (h.slot i).Answered → (h.peers i).state = .connected → a.closes i) :
    HostMoves a h (protocolDispatchState h i .zombie) := by
  refine (changeState_moves hd ?_ ?_ (fun hok he _ => hc hok he) (fun _ _ => Or.inr rfl) ?_).trans
    (queueDispatch_moves _ i)
  · cases (h.peers i).state <;> simp [PeerState.rank]
  · intro _ h
    simp [PeerState.rank] at h
  · intro _ h
    simp [PeerState.rank] at h

theorem disconnectConnected_moves {data : UInt32} {allocates : Bool}
    (hr : 3 ≤ (h.peers i).state.rank) (hc : (h.peers i).state = .connected → a.closes i) :
    HostMoves a h (peerDisconnectConnected h i data allocates) := by
  refine ⟨fun j => ?_, rfl, rfl⟩
  by_cases hj : j = i
  · subst hj
    have hs : (peerDisconnectConnected h j data allocates).slot j =
        { h.slot j with state := .disconnecting, acknowledgements := [] } := by
      have hq := queueOutgoing_getD_slot ((peerResetQueues h j).peers j)
        { command := .disconnect, acknowledge := true, channelID := 0xFF, data := data } allocates
      simp only [Peer.slot, Slot.mk.injEq] at hq
      simp only [Host.slot, peerDisconnectConnected, Host.update_peers_self, Peer.slot,
        Slot.mk.injEq, true_and]
      refine ⟨hq.2.1.trans ?_, hq.2.2.1.trans ?_, hq.2.2.2.trans ?_⟩ <;>
        simp only [peerResetQueues, Host.update_peers_self]
    rw [hs]
    have hd : (h.peers j).state ≠ .disconnected := by
      intro e
      rw [e] at hr
      simp [PeerState.rank] at hr
    refine (Moves.clear (Or.inr rfl) (fun _ e => absurd e hd) (fun e hne => absurd e hne)).trans
      (Moves.state (s := { h.slot j with acknowledgements := [] }) hd ?_ ?_
        (fun _ e _ => hc e) (fun _ hm => by cases hm) ?_)
    · show (h.peers j).state.rank ≤ 4
      cases (h.peers j).state <;> simp [PeerState.rank]
    · intro e _
      change (h.peers j).state.rank = 1 at e
      omega
    · intro _ e
      simp [PeerState.rank] at e
  · simp only [Host.slot, peerDisconnectConnected, peerResetQueues,
      Host.update_peers_of_ne _ _ hj]
    exact Moves.refl _

/-! ## Events -/

theorem dispatchLoop_moves : ∀ (queue : List Nat) (h : Host),
    ((protocolDispatchLoop queue h).2.isSome → a.frees) →
    HostMoves a h (protocolDispatchLoop queue h).1 := by
  intro queue
  induction queue with
  | nil =>
    intro h _
    exact HostMoves.of_slots (fun _ => rfl) rfl rfl
  | cons i queue ih =>
    intro h hf
    -- Taking the slot off the queue leaves what it holds alone.
    have htake : HostMoves a h (setDispatch h queue i false) := setDispatch_moves h queue i false
    rw [protocolDispatchLoop] at hf ⊢
    generalize setDispatch h queue i false = t at htake hf ⊢
    have hopen : (t.peers i).state.rank = 2 →
        HostMoves a t (protocolChangeState t i .connected) := by
      intro hr
      refine changeState_moves ?_ ?_ ?_ ?_ ?_ ?_
      · intro e; rw [e] at hr; simp [PeerState.rank] at hr
      · show _ ≤ 3; omega
      · intro h _; omega
      · intro _ _ hne; exact absurd rfl hne
      · intro hok hm
        rcases hok hm with e | e <;>
          (change (t.peers i).state = _ at e; rw [e] at hr; simp [PeerState.rank] at hr)
      · intro hok _; exact hok (Or.inl hr)
    cases hs : (t.peers i).state with
    | connectionPending =>
      simp only [hs] at hf ⊢
      exact htake.trans (hopen (by rw [hs]; rfl))
    | connectionSucceeded =>
      simp only [hs] at hf ⊢
      exact htake.trans (hopen (by rw [hs]; rfl))
    | zombie =>
      simp only [hs] at hf ⊢
      exact htake.trans (reset_moves (fun _ => hf rfl) (fun e => by rw [hs] at e; cases e))
    | connected =>
      simp only [hs] at hf ⊢
      cases hdc : (t.peers i).dispatchedCommands with
      | nil =>
        simp only [hdc] at hf ⊢
        exact htake.trans (ih t hf)
      | cons c commands =>
        simp only [hdc] at hf ⊢
        refine htake.trans (HostMoves.trans (HostMoves.update_slot
          (i := i) (f := fun p => { p with dispatchedCommands := commands }) rfl) ?_)
        split
        · exact HostMoves.refl _
        · exact queueDispatch_moves _ _
    | disconnected => simp only [hs] at hf ⊢; exact htake.trans (ih t hf)
    | connecting => simp only [hs] at hf ⊢; exact htake.trans (ih t hf)
    | acknowledgingConnect => simp only [hs] at hf ⊢; exact htake.trans (ih t hf)
    | disconnectLater => simp only [hs] at hf ⊢; exact htake.trans (ih t hf)
    | disconnecting => simp only [hs] at hf ⊢; exact htake.trans (ih t hf)
    | acknowledgingDisconnect => simp only [hs] at hf ⊢; exact htake.trans (ih t hf)

theorem notifyConnect_moves {deliver : Bool} (hr : (h.peers i).state.rank = 1 ∨
    (h.peers i).state.rank = 2) (ho : a.opens) (hb : (h.peers i).address.host ≠ enetHostBroadcast) :
    HostMoves a h (protocolNotifyConnect h i deliver).1 := by
  have hd : (h.peers i).state ≠ .disconnected := by
    intro e
    rw [e] at hr
    simp [PeerState.rank] at hr
  have hne : (h.peers i).state ≠ .connected := by
    intro e
    rw [e] at hr
    simp [PeerState.rank] at hr
  have hopen : ∀ t : PeerState, t.rank = 2 ∨ t.rank = 3 →
      HostMoves a h (protocolChangeState h i t) := by
    intro t ht
    refine changeState_moves hd (by omega) (fun _ _ => ho) (fun _ e => absurd e hne) ?_
      (fun _ _ => hb)
    intro hok hm
    rcases hok hm with e | e <;>
      (change (h.peers i).state = _ at e; rw [e] at hr; simp [PeerState.rank] at hr)
  unfold protocolNotifyConnect
  split
  · exact hopen _ (Or.inr rfl)
  · refine (hopen _ ?_).trans (queueDispatch_moves _ i)
    split <;> exact Or.inl rfl

theorem notifyDisconnect_moves {deliver : Bool}
    (hf : (protocolNotifyDisconnect h i deliver).2.isSome → a.frees)
    (hc : (h.peers i).state = .connected → a.closes i) :
    HostMoves a h (protocolNotifyDisconnect h i deliver).1 := by
  unfold protocolNotifyDisconnect at hf ⊢
  split
  · next hv =>
    refine reset_moves (fun hr => ?_) hc
    -- Such a slot never came up.
    cases hs : (h.peers i).state <;> simp_all [PeerState.rank, PeerState.value]
  · next hv =>
    rw [if_neg hv] at hf
    split
    · next hd =>
      rw [if_pos hd] at hf
      exact reset_moves (fun _ => hf rfl) hc
    · refine HostMoves.trans (HostMoves.update_slot
        (i := i) (f := fun p => { p with eventData := 0 }) rfl) (dispatchZombie_moves ?_ ?_)
      · intro e
        rw [Host.update_peers_self] at e
        change (h.peers i).state = _ at e
        simp [e, PeerState.value] at hv
      · intro _ e
        rw [Host.update_peers_self] at e
        exact hc e

/-! ## Commands -/

@[simp] theorem removeSent_slot (p : Peer) (n : UInt16) (channelID : UInt8) :
    (protocolRemoveSentReliableCommand p n channelID).1.slot = p.slot := by
  unfold protocolRemoveSentReliableCommand
  simp only
  split
  · rfl
  · split <;> rfl

theorem slot_state {p q : Peer} (h : p.slot = q.slot) : p.state = q.state :=
  congrArg Slot.state h

theorem slot_address {p q : Peer} (h : p.slot = q.slot) : p.address = q.address :=
  congrArg Slot.address h

theorem handleAcknowledge_moves {deliver : Bool} {channelID : UInt8} {n : UInt16}
    {inTime allocates : Bool} (ho : a.opens) (hb : (h.peers i).address.host ≠ enetHostBroadcast)
    (hf : (protocolHandleAcknowledge h i deliver channelID n inTime allocates).event.isSome →
      a.frees) :
    HostMoves a h (protocolHandleAcknowledge h i deliver channelID n inTime allocates).host := by
  unfold protocolHandleAcknowledge at hf ⊢
  split
  · exact HostMoves.refl h
  · next hs =>
    rw [if_neg hs] at hf
    have hrem := removeSent_slot (h.peers i) n channelID
    have hm : HostMoves a h (h.update i fun _ =>
        (protocolRemoveSentReliableCommand (h.peers i) n channelID).1) :=
      HostMoves.update_slot hrem
    simp only [Host.update_peers_self] at hf ⊢
    cases hst : (protocolRemoveSentReliableCommand (h.peers i) n channelID).1.state with
    | acknowledgingConnect =>
      simp only [hst] at hf ⊢
      split
      · exact hm
      · refine hm.trans (notifyConnect_moves (Or.inr ?_) ho ?_)
        · rw [Host.update_peers_self, hst]; rfl
        · rw [Host.update_peers_self, slot_address hrem]; exact hb
    | disconnecting =>
      simp only [hst] at hf ⊢
      split
      · exact hm
      · next hn =>
        rw [if_neg hn] at hf
        refine hm.trans (notifyDisconnect_moves hf fun e => ?_)
        rw [Host.update_peers_self, hst] at e
        cases e
    | disconnectLater =>
      simp only [hst] at hf ⊢
      split
      · refine hm.trans (disconnectConnected_moves ?_ fun e => ?_)
        · rw [Host.update_peers_self, hst]; decide
        · rw [Host.update_peers_self, hst] at e
          cases e
      · exact hm
    | _ => exact hm

theorem handleVerifyConnect_moves {deliver : Bool} {channelCount : Nat} {connectID : UInt32}
    {mtu : Nat} {agrees : Bool} (ho : a.opens)
    (hb : (h.peers i).address.host ≠ enetHostBroadcast) :
    HostMoves a h
      (protocolHandleVerifyConnect h i deliver channelCount connectID mtu agrees).host := by
  unfold protocolHandleVerifyConnect
  split
  · exact HostMoves.refl h
  · next hs =>
    rw [not_not] at hs
    split
    · refine HostMoves.trans (HostMoves.update_slot
        (i := i) (f := fun p => { p with eventData := 0 }) rfl) (dispatchZombie_moves ?_ ?_)
      · simp [hs]
      · simp [hs]
    · have hrem := removeSent_slot (h.peers i) 1 0xFF
      refine HostMoves.trans (HostMoves.update_slot (i := i) (f := fun p => _) ?_)
        (notifyConnect_moves (Or.inl ?_) ho ?_)
      · exact hrem
      · simp only [Host.update_peers_self, slot_state hrem, hs, PeerState.rank]
      · simp only [Host.update_peers_self, slot_address hrem]
        exact hb

theorem resetQueues_state (h : Host) (i : Nat) :
    ((peerResetQueues h i).peers i).state = (h.peers i).state := by
  simp [peerResetQueues]

theorem reset_state (h : Host) (i : Nat) : ((peerReset h i).peers i).state = .disconnected := by
  simp [peerReset, peerResetQueues]

theorem dispatchState_state (h : Host) (i : Nat) (t : PeerState) :
    ((protocolDispatchState h i t).peers i).state = t := by
  unfold protocolDispatchState queueDispatch protocolChangeState
  split <;> simp [setDispatch]

theorem handleDisconnect_state (h : Host) (i : Nat) (acknowledge : Bool) (data : UInt32) :
    ((protocolHandleDisconnect h i acknowledge data).peers i).state = .disconnected ∨
    ((protocolHandleDisconnect h i acknowledge data).peers i).state = .zombie ∨
    ((protocolHandleDisconnect h i acknowledge data).peers i).state =
      .acknowledgingDisconnect := by
  unfold protocolHandleDisconnect
  simp only
  split
  · assumption
  · have hstate : ∀ g : Host, ((if (g.peers i).state ≠ .disconnected then
        g.update i fun p => { p with eventData := data } else g).peers i).state =
        (g.peers i).state := by
      intro g
      split
      · simp
      · rfl
    rw [hstate]
    split
    · exact Or.inr (Or.inl (dispatchState_state _ _ _))
    · split
      · exact Or.inl (reset_state _ _)
      · split
        · exact Or.inr (Or.inr (by simp [protocolChangeState]))
        · exact Or.inr (Or.inl (dispatchState_state _ _ _))

theorem handleDisconnect_moves {acknowledge : Bool} {data : UInt32}
    (hc : (h.peers i).state = .connected → a.closes i) :
    HostMoves a h (protocolHandleDisconnect h i acknowledge data) := by
  unfold protocolHandleDisconnect
  simp only
  split
  · exact HostMoves.refl h
  · next hs =>
    simp only [not_or] at hs
    have hdata : ∀ g : Host, HostMoves a h g → HostMoves a h
        (if (g.peers i).state ≠ .disconnected then
          g.update i fun p => { p with eventData := data } else g) := by
      intro g hg
      split
      · exact hg.trans (HostMoves.update_slot rfl)
      · exact hg
    apply hdata
    refine (resetQueues_moves h i).trans ?_
    have hst := resetQueues_state h i
    split
    · refine dispatchZombie_moves (by rw [hst]; exact hs.1) fun _ e => hc (by rw [← hst]; exact e)
    · split
      · next hn he =>
        refine reset_moves (fun hr => ?_) fun e => hc (by rw [← hst]; exact e)
        -- What is left are the two states before a connection came up.
        rw [hst] at hr
        cases hcase : (h.peers i).state <;> simp_all [PeerState.rank]
      · next hn he =>
        have hup : (h.peers i).state = .connected ∨ (h.peers i).state = .disconnectLater := by
          by_cases e : (h.peers i).state = .connected
          · exact Or.inl e
          · exact Or.inr (Classical.not_not.mp fun e' => he ⟨e, e'⟩)
        split
        · refine changeState_moves (by rw [hst]; exact hs.1) ?_ ?_
            (fun _ e _ => hc (by rw [← hst]; exact e)) (fun _ _ => Or.inl rfl) ?_
          · rw [hst]
            rcases hup with e | e <;> rw [e] <;> decide
          · intro _ e
            simp [PeerState.rank] at e
          · intro _ e
            simp [PeerState.rank] at e
        · exact dispatchZombie_moves (by rw [hst]; exact hs.1)
            fun _ e => hc (by rw [← hst]; exact e)

theorem handleSend_moves {channelID : UInt8} {packets : Option (List Packet)} :
    HostMoves a h (protocolHandleSend h i channelID packets).host := by
  unfold protocolHandleSend
  split
  · exact HostMoves.refl h
  · split
    · exact HostMoves.refl h
    · exact HostMoves.refl h
    · exact HostMoves.trans (HostMoves.update_slot (i := i) (f := fun p => { p with
        dispatchedCommands := p.dispatchedCommands ++ _ }) rfl) (queueDispatch_moves _ i)

/-- The command takes the slot out of CONNECTED. -/
def Body.isDisconnect : Body → Bool
  | .disconnect _ => true
  | _ => false

theorem handleCommand_moves {deliver : Bool} {c : Command} (ho : a.opens)
    (hb : (h.peers i).address.host ≠ enetHostBroadcast)
    (hf : (protocolHandleCommand h i deliver c).event.isSome → a.frees)
    (hc : c.body.isDisconnect → a.closes i) :
    HostMoves a h (protocolHandleCommand h i deliver c).host := by
  unfold protocolHandleCommand at hf ⊢
  cases hbody : c.body with
  | acknowledge number inTime =>
    rw [hbody] at hf
    exact handleAcknowledge_moves ho hb hf
  | connect body => exact HostMoves.refl h
  | verifyConnect channelCount connectID mtu agrees => exact handleVerifyConnect_moves ho hb
  | disconnect data => exact handleDisconnect_moves fun _ => hc (by rw [hbody]; rfl)
  | ping => exact HostMoves.refl h
  | send command packets => exact handleSend_moves
  | bandwidthLimit => exact HostMoves.refl h
  | throttleConfigure => exact HostMoves.refl h

theorem Body.command_disconnect {b : Body} (h : b.command = .disconnect) :
    b.isDisconnect = true := by
  cases b with
  | disconnect data => rfl
  | send c packets => cases c <;> cases h
  | _ => cases h

/-- Only a slot that is closing has a DISCONNECT to acknowledge. -/
theorem handleCommand_closing {deliver : Bool} {c : Command} (hc : c.body.command = .disconnect) :
    let h' := (protocolHandleCommand h i deliver c).host
    (h'.peers i).state = .disconnected ∨ (h'.peers i).state = .zombie ∨
      (h'.peers i).state = .acknowledgingDisconnect := by
  have hb := Body.command_disconnect hc
  cases hbody : c.body with
  | disconnect data =>
    simp only [protocolHandleCommand, hbody]
    exact handleDisconnect_state h i _ data
  | _ => rw [hbody] at hb; cases hb

theorem queueAcknowledgement_moves {c : Command}
    (hc : c.body.command = .disconnect → (h.peers i).state = .disconnected ∨
      (h.peers i).state = .zombie ∨ (h.peers i).state = .acknowledgingDisconnect) :
    HostMoves a h (protocolQueueAcknowledgement h i c) := by
  have hqueue : (c.body.command = .disconnect → (h.peers i).state = .acknowledgingDisconnect) →
      HostMoves a h (h.update i fun p =>
        if c.acknowledges then
          { p with acknowledgements := p.acknowledgements ++ [c.body.command] }
        else p) := by
    intro hs
    split
    · exact HostMoves.update (Moves.acknowledge (s := h.slot i) hs)
    · exact HostMoves.update_slot rfl
  unfold protocolQueueAcknowledgement
  cases hs : (h.peers i).state with
  | disconnecting => exact HostMoves.refl h
  | acknowledgingConnect => exact HostMoves.refl h
  | disconnected => exact HostMoves.refl h
  | zombie => exact HostMoves.refl h
  | acknowledgingDisconnect =>
    simp only
    split
    · exact hqueue fun _ => hs
    · exact HostMoves.refl h
  | _ =>
    refine hqueue fun e => ?_
    rcases hc e with e | e | e <;> rw [hs] at e <;> cases e

/-! ## Datagrams -/

theorem handleCommands_event {d : Datagram} {deliver : Bool} :
    ∀ (cs : List Command) (h : Host) (event : Option Event), event.isSome →
    (protocolHandleCommands d deliver i cs h event).2.isSome := by
  intro cs
  induction cs with
  | nil => intro h event he; exact he
  | cons c cs ih =>
    intro h event he
    have hor : ((protocolHandleCommand h i deliver c).event.or event).isSome := by
      cases (protocolHandleCommand h i deliver c).event with
      | none => exact he
      | some e => rfl
    unfold protocolHandleCommands
    simp only
    split
    · exact hor
    · split
      · exact ih _ _ hor
      · split
        · exact hor
        · exact ih _ _ hor

theorem handleCommands_moves {d : Datagram} {deliver : Bool} (ho : a.opens) :
    ∀ (cs : List Command) (h : Host) (event : Option Event),
    (h.peers i).address.host ≠ enetHostBroadcast →
    ((protocolHandleCommands d deliver i cs h event).2.isSome → a.frees) →
    ((∃ c ∈ cs, c.body.isDisconnect) → a.closes i) →
    HostMoves a h (protocolHandleCommands d deliver i cs h event).1 := by
  intro cs
  induction cs with
  | nil => intro h event _ _ _; exact HostMoves.refl h
  | cons c cs ih =>
    intro h event hb hf hc
    have hone : ((protocolHandleCommand h i deliver c).event.isSome → a.frees) →
        HostMoves a h (protocolHandleCommand h i deliver c).host := fun hf =>
      handleCommand_moves ho hb hf fun e => hc ⟨c, List.mem_cons_self, e⟩
    have hor : (protocolHandleCommand h i deliver c).event.isSome →
        ((protocolHandleCommand h i deliver c).event.or event).isSome := by
      intro e
      obtain ⟨x, hx⟩ := Option.isSome_iff_exists.mp e
      rw [hx]
      rfl
    have hrest : (∃ c ∈ cs, c.body.isDisconnect) → a.closes i := by
      rintro ⟨c', hm, e⟩
      exact hc ⟨c', List.mem_cons_of_mem _ hm, e⟩
    -- The address stays, since it is no broadcast address.
    have haddr : ∀ {g : Host}, HostMoves a h g → (g.peers i).address.host ≠ enetHostBroadcast := by
      intro g hg
      rw [show (g.peers i).address = (h.peers i).address from (hg.slots i).address hb]
      exact hb
    unfold protocolHandleCommands at hf ⊢
    simp only at hf ⊢
    split
    · next he =>
      rw [if_pos he] at hf
      exact hone fun e => hf (hor e)
    · next he =>
      rw [if_neg he] at hf
      split
      · next hk =>
        rw [if_pos hk] at hf
        have hm := hone fun e => hf (handleCommands_event _ _ _ (hor e))
        exact hm.trans (ih _ _ (haddr hm) hf hrest)
      · next hk =>
        rw [if_neg hk] at hf
        split
        · next ht =>
          rw [if_pos ht] at hf
          exact hone fun e => hf (hor e)
        · next ht =>
          rw [if_neg ht] at hf
          have hm := (hone fun e => hf (handleCommands_event _ _ _ (hor e))).trans
            (queueAcknowledgement_moves (c := c) handleCommand_closing)
          exact hm.trans (ih _ _ (haddr hm) hf hrest)

theorem connectSearch_free {address : Address} {connectID : UInt32} :
    ∀ (slots : List Nat) (peer : Option Nat) (n : Nat) {i m : Nat},
    (∀ j, peer = some j → (h.peers j).state = .disconnected) →
    connectSearch h address connectID slots peer n = some (some i, m) →
    (h.peers i).state = .disconnected := by
  intro slots
  induction slots with
  | nil =>
    intro peer n i m hp hs
    cases hs
    exact hp i rfl
  | cons j slots ih =>
    intro peer n i m hp hs
    unfold connectSearch at hs
    simp only at hs
    split at hs
    · next hd =>
      refine ih _ _ (fun k hk => ?_) hs
      cases peer with
      | none => cases hk; exact hd
      | some l => cases hk; exact hp _ rfl
    · split at hs
      · split at hs
        · cases hs
        · exact ih _ _ hp hs
      · exact ih _ _ hp hs

/-- The slot that a connection gets, and its first state. -/
theorem connectAccept_slot (h : Host) (i : Nat) (address : Address) (c : Connect) :
    (connectAccept h i address c).slot i =
      ⟨.acknowledgingConnect, h.connections, address, (h.peers i).acknowledgements⟩ := by
  simp only [Host.slot, connectAccept, Host.update_peers_self, queueOutgoing_getD_slot]
  rfl

theorem connectAccept_slot_of_ne (h : Host) {i j : Nat} (address : Address) (c : Connect)
    (hj : j ≠ i) : (connectAccept h i address c).slot j = h.slot j := by
  simp only [Host.slot, connectAccept, Host.update_peers_of_ne _ _ hj]

theorem handleConnect_eq {address : Address} {c : Connect} {h' : Host}
    (hs : protocolHandleConnect h address c = some (h', i)) :
    (h.peers i).state = .disconnected ∧ h' = connectAccept h i address c := by
  unfold protocolHandleConnect at hs
  split at hs
  · cases hs
  · split at hs
    · next j n he =>
      split at hs
      · cases hs
      · split at hs
        · cases hs
          exact ⟨connectSearch_free _ _ _ (fun _ e => by cases e) he, rfl⟩
        · cases hs
    · cases hs

/-- A slot that was free goes to a connection and moves on. -/
theorem accept_receives {h' : Host} {d : Datagram} {c : Connect} (ho : a.opens)
    (hfree : (h.peers i).state = .disconnected)
    (hm : HostMoves ⟨a.frees, a.opens, (· = i)⟩ (connectAccept h i d.address c) h') :
    Receives a h h' := by
  have hslot := connectAccept_slot h i d.address c
  refine ⟨fun j => ?_, hm.peerCount, ?_⟩
  · by_cases hj : j = i
    · subst hj
      right
      rw [hm.connections]
      refine ⟨ho, Takes.moves ⟨hfree, ?_, ?_, ?_, ?_⟩ (hm.slots j)⟩
      · exact Nat.le_of_eq (by rw [hslot])
      · rw [hslot]; exact Nat.lt_succ_self _
      · rw [hslot]
        intro hok hk
        rcases hok hk with e | e <;>
          (change (h.peers j).state = _ at e; rw [hfree] at e; cases e)
      · rw [hslot]
        exact fun _ => d.source
    · left
      rw [← connectAccept_slot_of_ne h d.address c hj]
      exact (hm.slots j).mono id id fun e => absurd e hj
  · rw [hm.connections]
    exact Nat.le_succ _

theorem accept_address (h : Host) (i : Nat) (d : Datagram) (c : Connect) :
    ((connectAccept h i d.address c).peers i).address.host ≠ enetHostBroadcast := by
  rw [show ((connectAccept h i d.address c).peers i).address = d.address from
    congrArg Slot.address (connectAccept_slot h i d.address c)]
  exact d.source

/-- The address of a slot becomes that of a datagram for it. -/
theorem setAddress_moves {d : Datagram}
    (hs : d.address ≠ (h.peers i).address → (h.peers i).address.host = enetHostBroadcast) :
    HostMoves a h (h.update i fun p => { p with address := d.address }) := by
  have hr := Moves.refl (a := a) (i := i) (h.slot i)
  refine HostMoves.update ⟨rfl, hr.rank, hr.frees, hr.opens, hr.closes, fun hb => ?_,
    fun hk => hk, fun _ _ => d.source⟩
  by_cases e : d.address = (h.peers i).address
  · exact e
  · exact absurd (hs e) hb

theorem handleFirstCommand_receives {d : Datagram} {deliver : Bool}
    (ho : a.opens) (hf : (protocolHandleFirstCommand d deliver h).2.isSome → a.frees) :
    Receives a h (protocolHandleFirstCommand d deliver h).1 := by
  unfold protocolHandleFirstCommand at hf ⊢
  cases hcs : d.commands with
  | nil => exact (HostMoves.refl h).receives
  | cons c cs =>
    simp only [hcs] at hf ⊢
    cases hbody : c.body with
    | connect body =>
      simp only [hbody] at hf ⊢
      cases hcon : protocolHandleConnect h d.address body with
      | none => exact (HostMoves.refl h).receives
      | some r =>
        obtain ⟨g, i⟩ := r
        obtain ⟨hfree, rfl⟩ := handleConnect_eq hcon
        simp only [hcon] at hf ⊢
        have hack : HostMoves ⟨a.frees, a.opens, (· = i)⟩ (connectAccept h i d.address body)
            (protocolQueueAcknowledgement (connectAccept h i d.address body) i c) :=
          queueAcknowledgement_moves fun e => by rw [hbody] at e; cases e
        have hb := accept_address h i d body
        split
        · next hk =>
          rw [if_pos hk] at hf
          exact accept_receives ho hfree (handleCommands_moves
            (a := ⟨a.frees, a.opens, (· = i)⟩) ho _ _ _ hb hf fun _ => rfl)
        · next hk =>
          rw [if_neg hk] at hf
          split
          · exact accept_receives ho hfree (HostMoves.refl _)
          · next ht =>
            rw [if_neg ht] at hf
            refine accept_receives ho hfree (hack.trans (handleCommands_moves
              (a := ⟨a.frees, a.opens, (· = i)⟩) ho _ _ _ ?_ hf fun _ => rfl))
            rw [show ((protocolQueueAcknowledgement (connectAccept h i d.address body)
              i c).peers i).address = _ from (hack.slots i).address hb]
            exact hb
    | _ => exact (HostMoves.refl h).receives

theorem handleIncoming_receives {d : Datagram} {deliver : Bool}
    (ho : a.opens) (hf : (protocolHandleIncomingCommands h d deliver).2.isSome → a.frees)
    (hc : ∀ j, d.peerID = some j → (∃ c ∈ d.commands, c.body.isDisconnect) → a.closes j) :
    Receives a h (protocolHandleIncomingCommands h d deliver).1 := by
  unfold protocolHandleIncomingCommands at hf ⊢
  cases hp : d.peerID with
  | none =>
    simp only [hp] at hf ⊢
    exact handleFirstCommand_receives ho hf
  | some i =>
    simp only [hp] at hf ⊢
    split
    · exact (HostMoves.refl h).receives
    · next hs =>
      rw [if_neg hs] at hf
      simp only [not_or, not_and, Classical.not_not] at hs
      refine HostMoves.receives (HostMoves.trans (setAddress_moves hs.2.2.2.1)
        (handleCommands_moves ho _ _ _ ?_ hf (hc i hp)))
      rw [Host.update_peers_self]
      exact d.source

/-! ## Sending -/

theorem sendAcknowledgements_moves {n : Nat} (hd : (h.peers i).state ≠ .disconnected) :
    HostMoves a h (protocolSendAcknowledgements h i n) := by
  have hdrop : ∀ g : Host, HostMoves a g (g.update i fun p =>
      { p with acknowledgements := p.acknowledgements.drop n }) := fun g =>
    HostMoves.update (Moves.sent (s := g.slot i) n)
  unfold protocolSendAcknowledgements
  simp only
  split
  · next hm =>
    refine (dispatchZombie_moves hd fun hok e => ?_).trans (hdrop _)
    have hmem := List.mem_of_mem_take (List.contains_iff_mem.mp hm)
    rcases hok hmem with e' | e' <;>
      (change (h.peers i).state = _ at e'; rw [e] at e'; cases e')
  · exact hdrop h

theorem checkTimeoutsLoop_expired : ∀ (cs : List OutgoingCommand) (ts : List Timeout),
    (checkTimeoutsLoop cs ts).2.2 = true → .expired ∈ ts := by
  intro cs
  induction cs with
  | nil => intro ts h; cases h
  | cons c cs ih =>
    intro ts h
    cases ts with
    | nil => cases h
    | cons t ts =>
      cases t with
      | inTime => exact List.mem_cons_of_mem _ (ih ts h)
      | late => exact List.mem_cons_of_mem _ (ih ts h)
      | expired => exact List.mem_cons_self

@[simp] theorem requeue_slot (p : Peer) (ts : List Timeout) : (p.requeue ts).slot = p.slot := rfl

@[simp] theorem sendReliable_slot (p : Peer) (choice : SendChoice) :
    (sendReliable p choice).slot = p.slot := by
  unfold sendReliable
  simp only
  split
  · exact peerPing_slot _ _
  · rfl

theorem sendUnreliable_moves {n : Nat} {allocates : Bool} :
    HostMoves a h (protocolSendUnreliableOutgoingCommands h i n allocates) := by
  unfold protocolSendUnreliableOutgoingCommands
  simp only
  have hdrop : HostMoves a h (h.update i fun p =>
      { p with outgoingUnreliableCommands := p.outgoingUnreliableCommands.drop n }) :=
    HostMoves.update_slot rfl
  split
  · next hs =>
    refine hdrop.trans (disconnectConnected_moves ?_ fun e => ?_)
    · rw [hs.1]; decide
    · rw [hs.1] at e; cases e
  · exact hdrop

theorem sendOutgoing_moves {deliver checkForTimeouts : Bool} {choice : SendChoice}
    (hf : (protocolSendOutgoingCommands h i deliver checkForTimeouts choice).event.isSome → a.frees)
    (hc : checkForTimeouts = true → .expired ∈ choice.timeouts → a.closes i) :
    HostMoves a h (protocolSendOutgoingCommands h i deliver checkForTimeouts choice).host := by
  unfold protocolSendOutgoingCommands at hf ⊢
  split
  · exact HostMoves.refl h
  · next hs =>
    rw [if_neg hs] at hf
    have hack : HostMoves a h (protocolSendAcknowledgements h i choice.acknowledgements) :=
      sendAcknowledgements_moves fun e => hs (Or.inl e)
    refine hack.trans ?_
    generalize protocolSendAcknowledgements h i choice.acknowledgements = g at hf ⊢
    simp only at hf ⊢
    split
    · next hx =>
      rw [if_pos hx] at hf
      simp only [Bool.and_eq_true] at hx
      refine HostMoves.trans (HostMoves.update_slot (requeue_slot _ _))
        (notifyDisconnect_moves hf fun _ => hc hx.1.1.1 (checkTimeoutsLoop_expired _ _ hx.2))
    · -- The rest only moves commands between the lists of the peer.
      have hsend : ∀ checks : Bool, HostMoves a g (g.update i fun p =>
          sendReliable (if checks then p.requeue choice.timeouts else p) choice) := by
        intro checks
        refine HostMoves.update_slot ?_
        rw [sendReliable_slot]
        split <;> rfl
      have hlast : ∀ t : Host, HostMoves a t
          (if (t.peers i).outgoingUnreliableCommands.isEmpty then t
          else protocolSendUnreliableOutgoingCommands t i choice.unreliable choice.allocates) := by
        intro t
        split
        · exact HostMoves.refl t
        · exact sendUnreliable_moves
      exact (hsend _).trans (hlast _)

theorem flushPass_moves {choice : Nat → SendChoice} : ∀ (slots : List Nat) (h : Host),
    HostMoves a h (flushPass choice slots h).1 := by
  intro slots
  induction slots with
  | nil => intro h; exact HostMoves.refl h
  | cons i slots ih =>
    intro h
    have hm : HostMoves a h (protocolSendOutgoingCommands h i false false (choice i)).host := by
      refine sendOutgoing_moves (fun e => ?_) (fun e => by cases e)
      -- A flush checks no timeouts, so it has no event to deliver.
      unfold protocolSendOutgoingCommands at e
      split at e
      · cases e
      · simp at e
    unfold flushPass
    simp only
    split
    · exact hm
    · exact hm.trans (ih _)

theorem flush_moves : ∀ (passes : List (Nat → SendChoice)) (h : Host),
    HostMoves a h (hostFlush passes h) := by
  intro passes
  induction passes with
  | nil => intro h; exact HostMoves.refl h
  | cons choice passes ih =>
    intro h
    unfold hostFlush
    simp only
    split
    · exact (flushPass_moves _ h).trans (ih _)
    · exact flushPass_moves _ h

end ENet
