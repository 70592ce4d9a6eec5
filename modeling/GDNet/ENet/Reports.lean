import GDNet.ENet.EventData
import GDNet.ENet.Rises

/-!
# What an event says about its peer

A CONNECT or a DISCONNECT that ENet returns has the `eventData` of its peer as it is
then, but for the DISCONNECT of a peer that was lost.  `Reports` says so with the
changes of the peer up to the event, so what is known of the data of a peer is known
of the event.
-/

namespace ENet

open Relation

/-- The event says about the peer what is in it. -/
def Says (p : Peer) (e : Event) : Prop :=
  match e.type with
  | .connect => (p.state.rank = 1 ∨ p.state.rank = 2) ∧ e.data = p.eventData
  | .disconnect => p.state ≠ .disconnected ∧ (e.data = p.eventData ∨ (p.Closed → p.waiting ≠ []))
  | .receive => True

/-- The peer of the event changed from what it is in `h` to what the event says. -/
def Reports (n : Nat) (asks : Nat → Prop) (h : Host) (event : Option Event) : Prop :=
  ∀ e, event = some e → ∃ p, (h.peers e.peer).Changes n (asks e.peer) p ∧
    p.connection = e.connection ∧ Says p e

/-- The slots change, and the event says what was in one of them. -/
structure Tells (n : Nat) (asks : Nat → Prop) (h h' : Host) (event : Option Event) : Prop where
  changes : HostChanges n asks h h'
  reports : Reports n asks h event

section

variable {n : Nat} {asks : Nat → Prop} {h h' g : Host} {i : Nat} {event event' : Option Event}

theorem HostChanges.tells (hc : HostChanges n asks h h') : Tells n asks h h' none :=
  ⟨hc, fun e he => by cases he⟩

theorem Tells.before (hc : HostChanges n asks h g) (ht : Tells n asks g h' event) :
    Tells n asks h h' event := by
  refine ⟨hc.trans ht.changes, fun e he => ?_⟩
  obtain ⟨p, hp, hs⟩ := ht.reports e he
  exact ⟨p, (hc e.peer).trans hp, hs⟩

theorem Tells.after (ht : Tells n asks h g event) (hc : HostChanges n asks g h') :
    Tells n asks h h' event :=
  ⟨ht.changes.trans hc, ht.reports⟩

/-- A later command replaces the event. -/
theorem Tells.andThen (ht : Tells n asks h g event) (ht' : Tells n asks g h' event') :
    Tells n asks h h' (event'.or event) := by
  have hlate := Tells.before ht.changes ht'
  refine ⟨hlate.changes, fun e he => ?_⟩
  cases event' with
  | none => exact ht.reports e he
  | some e' => exact hlate.reports e he

/-! ## What the data of a peer says about its events -/

theorem Opening.reports {k : Nat} {d : UInt32} {e : Event} (hk : k < n)
    (hr : Reports n asks h (some e)) (ht : e.type = .connect) (hc : e.connection = k)
    (ho : Opening k d (h.peers e.peer)) : e.data = d := by
  obtain ⟨p, hp, hconn, hs⟩ := hr e rfl
  simp only [Says, ht] at hs
  have hp' : Opening k d p :=
    Peer.Changes.preserves (fun _ _ hch ho => ho.change hk hch) hp ho
  exact hs.2.trans (hp' (hconn.trans hc) hs.1)

theorem Told.reports {k : Nat} {d : UInt32} {e : Event} (hk : k < n)
    (hr : Reports n asks h (some e)) (ht : e.type = .disconnect) (hc : e.connection = k)
    (hd : Told k d (h.peers e.peer)) : e.data = d := by
  obtain ⟨p, hp, hconn, hs⟩ := hr e rfl
  simp only [Says, ht] at hs
  have hp' : Told k d p := Peer.Changes.preserves (fun _ _ hch hd => hd.change hk hch) hp hd
  obtain ⟨hclosed, hnil, he⟩ := (hp' (hconn.trans hc)).resolve_left hs.1
  rcases hs.2 with h | h
  · exact h.trans he
  · exact absurd hnil (h hclosed)

/-! ## Functions that return an event -/

theorem connect_tells (hr : (h.peers i).state.rank = 1 ∨ (h.peers i).state.rank = 2)
    {data : UInt32} (hd : data = (h.peers i).eventData) :
    Tells n asks h (protocolChangeState h i .connected)
      (some ((protocolChangeState h i .connected).event .connect i data)) := by
  refine ⟨changeState_changes (.opens hr (Or.inr rfl) rfl rfl), fun e he => ?_⟩
  cases he
  refine ⟨h.peers i, .refl, ?_, hr, hd⟩
  simp only [Host.event, protocolChangeState, Host.update_peers_self]

theorem notifyConnect_tells {deliver : Bool}
    (hr : (h.peers i).state.rank = 1 ∨ (h.peers i).state.rank = 2) :
    Tells n asks h (protocolNotifyConnect h i deliver).1 (protocolNotifyConnect h i deliver).2 := by
  unfold protocolNotifyConnect
  split
  · refine connect_tells hr ?_
    simp only [protocolChangeState, Host.update_peers_self]
  · have hstate : (if (h.peers i).state = .connecting then PeerState.connectionSucceeded
        else .connectionPending).rank = 2 := by split <;> rfl
    exact HostChanges.tells (dispatchState_changes (.opens hr (Or.inl hstate) rfl rfl))

theorem notifyDisconnect_tells {deliver : Bool} (hd : (h.peers i).state ≠ .disconnected)
    (ha : (h.peers i).Closed → (h.peers i).waiting ≠ []) :
    Tells n asks h (protocolNotifyDisconnect h i deliver).1
      (protocolNotifyDisconnect h i deliver).2 := by
  refine ⟨notifyDisconnect_changes hd ha, fun e he => ?_⟩
  unfold protocolNotifyDisconnect at he
  split at he
  · cases he
  · split at he
    · cases he
      exact ⟨h.peers i, .refl, rfl, hd, Or.inr ha⟩
    · cases he

theorem sendOutgoing_tells {deliver checkForTimeouts : Bool} {choice : SendChoice} :
    Tells n asks h (protocolSendOutgoingCommands h i deliver checkForTimeouts choice).host
      (protocolSendOutgoingCommands h i deliver checkForTimeouts choice).event := by
  refine ⟨sendOutgoing_changes, fun e he => ?_⟩
  unfold protocolSendOutgoingCommands at he
  split at he
  · cases he
  · next hd =>
    have hne : (h.peers i).state ≠ .disconnected := fun e => hd (Or.inl e)
    have hack : HostChanges n asks h (protocolSendAcknowledgements h i choice.acknowledgements) :=
      sendAcknowledgements_changes hne
    have hne' : ((protocolSendAcknowledgements h i choice.acknowledgements).peers i).state ≠
        .disconnected := sendAcknowledgements_state hne
    generalize protocolSendAcknowledgements h i choice.acknowledgements = g at hack hne' he
    simp only at he
    split at he
    · next hx =>
      simp only [Bool.and_eq_true] at hx
      have hr : HostChanges n asks g (g.update i fun p => p.requeue choice.timeouts) :=
        .update (.single (requeue_change _ _))
      refine Tells.reports (Tells.before (hack.trans hr)
        (notifyDisconnect_tells ?_ fun _ hnil => ?_)) e he
      · rw [Host.update_peers_self]
        exact hne'
      · rw [Host.update_peers_self] at hnil
        exact checkTimeoutsLoop_ne_nil _ _ hx.2 (List.append_eq_nil_iff.mp hnil).1
    · cases he

/-! ## Datagrams -/

theorem removeSent_change {a : Prop} (p : Peer) (k : UInt16) (channelID : UInt8) :
    p.Change n a (protocolRemoveSentReliableCommand p k channelID).1 := by
  have hslot := removeSent_slot p k channelID
  refine .subset (congrArg Slot.state hslot) (congrArg Slot.connection hslot) ?_ fun c hc =>
    ⟨c, ?_, rfl, rfl⟩
  · unfold protocolRemoveSentReliableCommand
    simp only
    split
    · rfl
    · split <;> rfl
  · unfold protocolRemoveSentReliableCommand Peer.waiting at hc
    simp only at hc
    split at hc
    · rcases List.mem_append.mp hc with hc | hc
      · exact List.mem_append_left _ (List.mem_of_mem_eraseP hc)
      · exact List.mem_append_right _ hc
    · split at hc
      · rcases List.mem_append.mp hc with hc | hc
        · exact List.mem_append_left _ hc
        · exact List.mem_append_right _ (List.mem_of_mem_eraseP hc)
      · exact hc

theorem handleAcknowledge_tells {deliver : Bool} {channelID : UInt8} {k : UInt16}
    {inTime allocates : Bool} :
    Tells n asks h (protocolHandleAcknowledge h i deliver channelID k inTime allocates).host
      (protocolHandleAcknowledge h i deliver channelID k inTime allocates).event := by
  unfold protocolHandleAcknowledge
  split
  · exact (HostChanges.refl h).tells
  · have hrem : HostChanges n asks h (h.update i fun _ =>
        (protocolRemoveSentReliableCommand (h.peers i) k channelID).1) :=
      .update (.single (removeSent_change _ _ _))
    have hpeer : (h.update i fun _ =>
        (protocolRemoveSentReliableCommand (h.peers i) k channelID).1).peers i =
          (protocolRemoveSentReliableCommand (h.peers i) k channelID).1 :=
      Host.update_peers_self _ _ _
    simp only
    generalize protocolRemoveSentReliableCommand (h.peers i) k channelID = r at hrem hpeer ⊢
    generalize h.update i (fun _ => r.1) = g at hrem hpeer ⊢
    rw [hpeer]
    cases hs : r.1.state with
    | acknowledgingConnect =>
      simp only
      split
      · exact hrem.tells
      · exact .before hrem (notifyConnect_tells (Or.inr (by rw [hpeer, hs]; rfl)))
    | disconnecting =>
      simp only
      split
      · exact hrem.tells
      · refine .before hrem (notifyDisconnect_tells (by rw [hpeer, hs]; decide) fun hc => ?_)
        rw [Peer.Closed, hpeer, hs] at hc
        simp at hc
    | disconnectLater =>
      simp only
      split
      · refine (hrem.trans (disconnectConnected_changes fun p' hs' hc hw => ?_)).tells
        exact .parts (hpeer ▸ hs) hs' hc (hpeer ▸ hw)
      · exact hrem.tells
    | _ => exact hrem.tells

theorem handleVerifyConnect_tells {deliver : Bool} {channelCount : Nat} {connectID : UInt32}
    {mtu : Nat} {agrees : Bool} :
    Tells n asks h (protocolHandleVerifyConnect h i deliver channelCount connectID mtu agrees).host
      (protocolHandleVerifyConnect h i deliver channelCount connectID mtu agrees).event := by
  unfold protocolHandleVerifyConnect
  split
  · exact (HostChanges.refl h).tells
  · next hs =>
    rw [not_not] at hs
    split
    · have hz : HostChanges n asks h
          (protocolChangeState (h.update i fun p => { p with eventData := 0 }) i .zombie) := by
        refine .slot (i := i) ?_ fun j hj => by
          simp only [protocolChangeState, Host.update_peers_of_ne _ _ hj]
        simp only [protocolChangeState, Host.update_peers_self]
        refine .single (.closes (by rw [hs]; decide) (fun hc => ?_) (Or.inr rfl) rfl)
        rw [Peer.Closed, hs] at hc
        simp at hc
      exact HostChanges.tells (hz.trans (queueDispatch_changes _ i))
    · refine .before (HostChanges.update (.tail (.single (removeSent_change _ 1 0xFF))
        (.same rfl rfl rfl rfl))) (notifyConnect_tells (Or.inl ?_))
      simp only [Host.update_peers_self, slot_state (removeSent_slot (h.peers i) 1 0xFF), hs,
        PeerState.rank]

/-- A slot that is up when a DISCONNECT comes in keeps its data for the event. -/
theorem handleDisconnect_peer (h : Host) (i : Nat) (acknowledge : Bool) (data : UInt32)
    (hd : (h.peers i).state ≠ .disconnected) (hc : ¬(h.peers i).Closed) :
    Told (h.peers i).connection data
      ((protocolHandleDisconnect h i acknowledge data).peers i) := by
  intro _
  have hopen : ¬((h.peers i).state = .disconnected ∨ (h.peers i).state = .zombie ∨
      (h.peers i).state = .acknowledgingDisconnect) := by
    rintro (e | e | e)
    · exact hd e
    · exact hc (Or.inr e)
    · exact hc (Or.inl e)
  have hreset : ((peerResetQueues h i).peers i).waiting = [] := by
    simp only [peerResetQueues, Host.update_peers_self]
    rfl
  unfold protocolHandleDisconnect
  simp only [if_neg hopen]
  -- The data is written last, into a slot that is still in use.
  have hwrite : ∀ g g' : Host, (g' = if (g.peers i).state ≠ .disconnected then
      g.update i fun p => { p with eventData := data } else g) →
      (g.peers i).state = .disconnected ∨ (g.peers i).Closed ∧ (g.peers i).waiting = [] →
      (g'.peers i).state = .disconnected ∨
        (g'.peers i).Closed ∧ (g'.peers i).waiting = [] ∧ (g'.peers i).eventData = data := by
    rintro g g' rfl hg
    by_cases hs : (g.peers i).state = .disconnected
    · rw [if_neg (not_not.mpr hs)]
      exact Or.inl hs
    · simp only [ne_eq, if_pos hs, Host.update_peers_self]
      obtain ⟨hclosed, hnil⟩ := hg.resolve_left hs
      exact Or.inr ⟨hclosed, hnil, trivial⟩
  have hdispatch : ((protocolDispatchState (peerResetQueues h i) i .zombie).peers i).Closed ∧
      ((protocolDispatchState (peerResetQueues h i) i .zombie).peers i).waiting = [] := by
    refine ⟨Or.inr (dispatchState_state _ _ _), ?_⟩
    unfold protocolDispatchState queueDispatch
    split
    · simp only [protocolChangeState, Host.update_peers_self]
      exact hreset
    · simp only [setDispatch, protocolChangeState, Host.update_peers_self]
      exact hreset
  refine hwrite _ _ rfl ?_
  split
  · exact Or.inr hdispatch
  · split
    · exact Or.inl (reset_state _ i)
    · split
      · simp only [protocolChangeState, Host.update_peers_self]
        exact Or.inr ⟨Or.inl rfl, hreset⟩
      · exact Or.inr hdispatch

theorem dispatchState_other {j : Nat} (t : PeerState) (hj : j ≠ i) :
    (protocolDispatchState h i t).peers j = h.peers j := by
  unfold protocolDispatchState queueDispatch protocolChangeState
  split
  · exact Host.update_peers_of_ne h _ hj
  · simp only [setDispatch, Host.update_peers_of_ne _ _ hj]

theorem reset_other {j : Nat} (hj : j ≠ i) : (peerReset h i).peers j = h.peers j := by
  simp only [peerReset, peerResetQueues, Host.update_peers_of_ne _ _ hj]

theorem handleDisconnect_other {acknowledge : Bool} {data : UInt32} {j : Nat} (hj : j ≠ i) :
    (protocolHandleDisconnect h i acknowledge data).peers j = h.peers j := by
  have hqueues : (peerResetQueues h i).peers j = h.peers j := by
    simp only [peerResetQueues, Host.update_peers_of_ne _ _ hj]
  have hwrite : ∀ g : Host, g.peers j = h.peers j →
      (if (g.peers i).state ≠ .disconnected then
        g.update i fun p => { p with eventData := data } else g).peers j = h.peers j := by
    intro g hg
    split
    · exact (Host.update_peers_of_ne g _ hj).trans hg
    · exact hg
  unfold protocolHandleDisconnect
  simp only
  split
  · rfl
  · refine hwrite _ ?_
    split
    · exact (dispatchState_other _ hj).trans hqueues
    · split
      · exact (reset_other hj).trans hqueues
      · split
        · exact (Host.update_peers_of_ne _ _ hj).trans hqueues
        · exact (dispatchState_other _ hj).trans hqueues

theorem handleDisconnect_changes {acknowledge : Bool} {data : UInt32} :
    HostChanges n asks h (protocolHandleDisconnect h i acknowledge data) := by
  by_cases hopen : (h.peers i).state = .disconnected ∨ (h.peers i).state = .zombie ∨
      (h.peers i).state = .acknowledgingDisconnect
  · unfold protocolHandleDisconnect
    simp only [if_pos hopen]
    exact .refl h
  · have hd : (h.peers i).state ≠ .disconnected := fun e => hopen (Or.inl e)
    have hc : ¬(h.peers i).Closed := by
      rintro (e | e)
      · exact hopen (Or.inr (Or.inr e))
      · exact hopen (Or.inr (Or.inl e))
    have hconn : ((protocolHandleDisconnect h i acknowledge data).peers i).connection =
        (h.peers i).connection :=
      ((@handleDisconnect_moves .all h i acknowledge data fun _ => trivial).slots i).connection
    refine .slot (i := i) ?_ fun j hj => handleDisconnect_other hj
    rcases handleDisconnect_peer h i acknowledge data hd hc hconn with e | ⟨e, _⟩
    · exact .single (.frees e hconn)
    · exact .single (.closes hd (fun e => absurd e hc) e hconn)

theorem handleSend_changes {channelID : UInt8} {packets : Option (List Packet)} :
    HostChanges n asks h (protocolHandleSend h i channelID packets).host := by
  unfold protocolHandleSend
  split
  · exact .refl h
  · split
    · exact .refl h
    · exact .refl h
    · exact HostChanges.trans (.update_same rfl rfl rfl rfl) (queueDispatch_changes _ i)

theorem handleCommand_tells {deliver : Bool} {c : Command} :
    Tells n asks h (protocolHandleCommand h i deliver c).host
      (protocolHandleCommand h i deliver c).event := by
  unfold protocolHandleCommand
  cases c.body with
  | acknowledge k inTime => exact handleAcknowledge_tells
  | connect body => exact (HostChanges.refl h).tells
  | verifyConnect channelCount connectID mtu agrees => exact handleVerifyConnect_tells
  | disconnect data => exact handleDisconnect_changes.tells
  | ping => exact (HostChanges.refl h).tells
  | send command packets =>
    simp only [(@handleSend_steady h i c.channelID packets).2]
    exact handleSend_changes.tells
  | bandwidthLimit => exact (HostChanges.refl h).tells
  | throttleConfigure => exact (HostChanges.refl h).tells

theorem queueAcknowledgement_changes {c : Command} :
    HostChanges n asks h (protocolQueueAcknowledgement h i c) := by
  have hqueue : HostChanges n asks h (h.update i fun p =>
      if c.acknowledges then
        { p with acknowledgements := p.acknowledgements ++ [c.body.command] }
      else p) := by
    refine .update ?_
    split
    · exact .single (.same rfl rfl rfl rfl)
    · exact .refl
  unfold protocolQueueAcknowledgement
  cases (h.peers i).state with
  | disconnecting => exact .refl h
  | acknowledgingConnect => exact .refl h
  | disconnected => exact .refl h
  | zombie => exact .refl h
  | acknowledgingDisconnect =>
    simp only
    split
    · exact hqueue
    · exact .refl h
  | _ => exact hqueue

theorem handleCommands_tells {h₀ : Host} {d : Datagram} {deliver : Bool} :
    ∀ (cs : List Command) (h : Host) (event : Option Event), Tells n asks h₀ h event →
    Tells n asks h₀ (protocolHandleCommands d deliver i cs h event).1
      (protocolHandleCommands d deliver i cs h event).2 := by
  intro cs
  induction cs with
  | nil => exact fun h event ht => ht
  | cons c cs ih =>
    intro h event ht
    have hthen := ht.andThen (@handleCommand_tells n asks h i deliver c)
    unfold protocolHandleCommands
    simp only
    split
    · exact hthen
    · split
      · exact ih _ _ hthen
      · split
        · exact hthen
        · exact ih _ _ (hthen.after queueAcknowledgement_changes)

theorem connectAccept_changes {address : Address} {c : Connect} (hn : n ≤ h.connections) :
    HostChanges n asks h (connectAccept h i address c) := by
  refine .slot (i := i) (.single (.taken ?_)) fun j hj => by
    simp only [connectAccept, Host.update_peers_of_ne _ _ hj]
  have hconn := congrArg Slot.connection (connectAccept_slot h i address c)
  exact Nat.le_trans hn (Nat.le_of_eq hconn.symm)

theorem handleFirstCommand_tells {d : Datagram} {deliver : Bool} (hn : n ≤ h.connections) :
    Tells n asks h (protocolHandleFirstCommand d deliver h).1
      (protocolHandleFirstCommand d deliver h).2 := by
  unfold protocolHandleFirstCommand
  cases d.commands with
  | nil => exact (HostChanges.refl h).tells
  | cons c cs =>
    simp only
    cases c.body with
    | connect body =>
      simp only
      cases hcon : protocolHandleConnect h d.address body with
      | none => exact (HostChanges.refl h).tells
      | some r =>
        obtain ⟨g, i⟩ := r
        obtain ⟨_, rfl⟩ := handleConnect_eq hcon
        have hs : HostChanges n asks h (connectAccept h i d.address body) :=
          connectAccept_changes hn
        simp only
        split
        · exact handleCommands_tells _ _ _ hs.tells
        · split
          · exact hs.tells
          · exact handleCommands_tells _ _ _ (hs.trans queueAcknowledgement_changes).tells
    | _ => exact (HostChanges.refl h).tells

theorem handleIncoming_tells {d : Datagram} {deliver : Bool} (hn : n ≤ h.connections) :
    Tells n asks h (protocolHandleIncomingCommands h d deliver).1
      (protocolHandleIncomingCommands h d deliver).2 := by
  unfold protocolHandleIncomingCommands
  cases d.peerID with
  | none => exact handleFirstCommand_tells hn
  | some i =>
    simp only
    split
    · exact (HostChanges.refl h).tells
    · have hs : HostChanges n asks h (h.update i fun p => { p with address := d.address }) :=
        .update_same rfl rfl rfl rfl
      exact handleCommands_tells _ _ _ hs.tells

/-! ## One step of `enet_host_service` -/

theorem dispatchLoop_tells : ∀ (queue : List Nat) (h : Host),
    Tells n asks h (protocolDispatchLoop queue h).1 (protocolDispatchLoop queue h).2 := by
  intro queue
  induction queue with
  | nil =>
    intro h
    have hq : HostChanges n asks h { h with dispatchQueue := [] } := .of_peers rfl
    exact hq.tells
  | cons i queue ih =>
    intro h
    have htake : HostChanges n asks h (setDispatch h queue i false) :=
      setDispatch_changes h queue i false
    rw [protocolDispatchLoop]
    generalize setDispatch h queue i false = t at htake ⊢
    have hdata : (t.peers i).eventData =
        ((protocolChangeState t i .connected).peers i).eventData := by
      simp only [protocolChangeState, Host.update_peers_self]
    cases hs : (t.peers i).state with
    | connectionPending =>
      exact .before htake (connect_tells (Or.inr (by rw [hs]; rfl)) hdata.symm)
    | connectionSucceeded =>
      exact .before htake (connect_tells (Or.inr (by rw [hs]; rfl)) hdata.symm)
    | zombie =>
      refine .before htake ⟨reset_changes t i, fun e he => ?_⟩
      cases he
      exact ⟨t.peers i, .refl, rfl, by rw [hs]; decide, Or.inl rfl⟩
    | connected =>
      simp only
      cases (t.peers i).dispatchedCommands with
      | nil => exact .before htake (ih t)
      | cons c commands =>
        simp only
        have hup : HostChanges n asks t
            (t.update i fun p => { p with dispatchedCommands := commands }) :=
          .update_same rfl rfl rfl rfl
        refine .before htake ⟨?_, fun e he => ?_⟩
        · split
          · exact hup
          · exact hup.trans (queueDispatch_changes _ i)
        · cases he
          refine ⟨t.peers i, .refl, ?_, trivial⟩
          simp only [Host.event, Host.update_peers_self]
    | disconnected => exact .before htake (ih t)
    | connecting => exact .before htake (ih t)
    | acknowledgingConnect => exact .before htake (ih t)
    | disconnectLater => exact .before htake (ih t)
    | disconnecting => exact .before htake (ih t)
    | acknowledgingDisconnect => exact .before htake (ih t)

theorem serviceStep_tells {pc : ServicePc} {input : ServiceInput} (hn : n ≤ h.connections) :
    Tells n asks h (serviceStep h pc input).1 (serviceStep h pc input).2.event := by
  cases pc with
  | dispatch =>
    simp only [serviceStep, deliverOr_host]
    rw [deliverOr_event rfl]
    exact dispatchLoop_tells _ h
  | throttle => exact bandwidthThrottle_changes.tells
  | send again i =>
    simp only [serviceStep]
    split
    · simp only [deliverOr_host]
      rw [deliverOr_event (by split <;> rfl)]
      exact sendOutgoing_tells
    · split <;> exact (HostChanges.refl h).tells
  | receive packets =>
    simp only [serviceStep]
    split
    · cases input.received with
      | nothing => exact (HostChanges.refl h).tells
      | failed => exact (HostChanges.refl h).tells
      | datagram d =>
        simp only [deliverOr_host]
        rw [deliverOr_event rfl]
        exact handleIncoming_tells hn
    · exact (HostChanges.refl h).tells
  | dispatchAgain =>
    simp only [serviceStep, deliverOr_host]
    rw [deliverOr_event rfl]
    exact dispatchLoop_tells _ h
  | wait =>
    simp only [serviceStep]
    split <;> exact (HostChanges.refl h).tells

/-! ## The datagrams that bring the data -/

/-- The commands of a datagram that get to their handlers, each with the host it finds. -/
def handledCommands (d : Datagram) (i : Nat) : List Command → Host → List (Host × Command)
  | [], _ => []
  | c :: commands, h =>
    let r := protocolHandleCommand h i true c
    (h, c) ::
      if r.error then []
      else if !c.acknowledge then handledCommands d i commands r.host
      else if !d.sentTime then []
      else handledCommands d i commands (protocolQueueAcknowledgement r.host i c)

/-- The slot that a CONNECT gets, its body and the host behind it. -/
def Datagram.accepted (d : Datagram) (h : Host) : Option (Host × Nat × Connect) :=
  match d.peerID, d.commands with
  | none, c :: _ =>
    match c.body with
    | .connect body => (protocolHandleConnect h d.address body).map fun r => (r.1, r.2, body)
    | _ => none
  | _, _ => none

/-- The slot a datagram is for, and the commands that are handled for it. -/
def Datagram.handled (d : Datagram) (h : Host) : List (Nat × Host × Command) :=
  match d.peerID with
  | some i =>
    let p := h.peers i
    if i ≥ h.peerCount ∨ p.state = .disconnected ∨ p.state = .zombie ∨
        (d.address ≠ p.address ∧ p.address.host ≠ enetHostBroadcast) ∨ !d.session then []
    else
      (handledCommands d i d.commands (h.update i fun p => { p with address := d.address })).map
        fun x => (i, x)
  | none =>
    match d.accepted h, d.commands with
    | some (g, i, _), c :: commands =>
      if !c.acknowledge then (handledCommands d i commands g).map fun x => (i, x)
      else if !d.sentTime then []
      else (handledCommands d i commands (protocolQueueAcknowledgement g i c)).map fun x => (i, x)
    | _, _ => []

end

end ENet
