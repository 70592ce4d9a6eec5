import GDNet.ENet.Sending
import GDNet.ENet.Service

/-!
# How a slot comes to be CONNECTED

A slot comes up only where its CONNECT event is returned, and is not CONNECTED
when its DISCONNECT event is.  `Steady` is what all other functions keep: they
bring no slot up.  Both also say that no peer gets more channels than the
protocol has numbers for.
-/

namespace ENet

/-! ## Functions that bring no slot up -/

/-- The peer is not brought up, and gets no channel that has no number. -/
structure Peer.Steady (p p' : Peer) : Prop where
  up : p'.state = .connected → p.state = .connected
  channels : p'.channelCount ≤ max p.channelCount protocolMaximumChannelCount

theorem Peer.Steady.refl (p : Peer) : p.Steady p := ⟨id, Nat.le_max_left _ _⟩

theorem Peer.Steady.trans {p q r : Peer} (h : p.Steady q) (h' : q.Steady r) : p.Steady r := by
  refine ⟨fun hr => h.up (h'.up hr), ?_⟩
  have := h.channels
  have := h'.channels
  omega

theorem Peer.Steady.same {p p' : Peer} (hs : p'.state = p.state)
    (hc : p'.channelCount = p.channelCount) : p.Steady p' := by
  refine ⟨fun h => by rw [← hs, h], ?_⟩
  rw [hc]
  exact Nat.le_max_left _ _

/-- The new state is not CONNECTED. -/
theorem Peer.Steady.down {p p' : Peer} (hs : p'.state ≠ .connected)
    (hc : p'.channelCount ≤ p.channelCount) : p.Steady p' := by
  refine ⟨fun h => absurd h hs, ?_⟩
  omega

def Steady (h h' : Host) : Prop := ∀ j, (h.peers j).Steady (h'.peers j)

namespace Steady

variable {h h' h'' : Host} {i : Nat}

theorem refl (h : Host) : Steady h h := fun _ => .refl _

theorem trans (hs : Steady h h') (hs' : Steady h' h'') : Steady h h'' :=
  fun j => (hs j).trans (hs' j)

theorem of_peers (hp : h'.peers = h.peers) : Steady h h' := by
  intro j
  rw [hp]
  exact .refl _

theorem update {f : Peer → Peer} (hf : (h.peers i).Steady (f (h.peers i))) :
    Steady h (h.update i f) := by
  intro j
  by_cases hj : j = i
  · subst hj
    rw [Host.update_peers_self]
    exact hf
  · rw [Host.update_peers_of_ne h f hj]
    exact .refl _

end Steady

variable {h : Host} {i : Nat}

theorem changeState_steady {t : PeerState} (ht : t ≠ .connected) :
    Steady h (protocolChangeState h i t) :=
  Steady.update (.down ht (Nat.le_refl _))

theorem setDispatch_steady (h : Host) (queue : List Nat) (i : Nat) (b : Bool) :
    Steady h (setDispatch h queue i b) := by
  have hq : Steady h { h with dispatchQueue := queue } := .of_peers rfl
  exact hq.trans (.update (.same rfl rfl))

theorem queueDispatch_steady (h : Host) (i : Nat) : Steady h (queueDispatch h i) := by
  unfold queueDispatch
  split
  · exact .refl h
  · exact setDispatch_steady h _ i true

theorem dispatchState_steady {t : PeerState} (ht : t ≠ .connected) :
    Steady h (protocolDispatchState h i t) :=
  (changeState_steady ht).trans (queueDispatch_steady _ i)

theorem resetQueues_steady (h : Host) (i : Nat) : Steady h (peerResetQueues h i) := by
  intro j
  by_cases hj : j = i
  · subst hj
    simp only [peerResetQueues, Host.update_peers_self]
    exact ⟨id, Nat.zero_le _⟩
  · simp only [peerResetQueues, Host.update_peers_of_ne _ _ hj]
    exact .refl _

theorem reset_steady (h : Host) (i : Nat) : Steady h (peerReset h i) := by
  have hd : Steady h (h.update i fun p => { p with
      connectID := 0
      state := .disconnected
      mtu := h.mtu
      outgoingReliableSequenceNumber := 0
      outgoingUnsequencedGroup := 0
      eventData := 0 }) :=
    .update (.down (by simp) (Nat.le_refl _))
  exact hd.trans (resetQueues_steady _ i)

/-! ## Outgoing commands -/

theorem Queued.steady {p p' : Peer} {cs : List OutgoingCommand} (hq : Queued p p' cs) :
    p.Steady p' :=
  .same (slot_state hq.slot) hq.channelCount

theorem queueOutgoing_getD_steady (p : Peer) (c : OutgoingCommand) (allocates : Bool) :
    p.Steady ((peerQueueOutgoingCommand p c allocates).getD p) := by
  rw [peerQueueOutgoingCommand]
  split
  · exact (setup_queued p c).steady
  · exact .refl p

theorem peerSend_getD_steady (host : Host) (p : Peer) (channelID : UInt8) (packet : Packet)
    (allocates : Bool) :
    p.Steady ((peerSend host p channelID packet allocates).getD p) := by
  cases hs : peerSend host p channelID packet allocates with
  | none => exact .refl p
  | some p' =>
    obtain ⟨ds, hq, _⟩ := peerSend_queued hs
    exact hq.steady

theorem peerPing_steady (p : Peer) (allocates : Bool) : p.Steady (peerPing p allocates) := by
  unfold peerPing
  split
  · exact .refl p
  · exact queueOutgoing_getD_steady _ _ _

theorem broadcastLoop_steady {channelID : UInt8} {packet : Packet} {allocates : Nat → Bool} :
    ∀ (slots : List Nat) (h : Host),
    Steady h (broadcastLoop channelID packet allocates slots h) := by
  intro slots
  induction slots with
  | nil => exact fun h => .refl h
  | cons i slots ih =>
    intro h
    unfold broadcastLoop
    split
    · exact ih h
    · exact (Steady.update (peerSend_getD_steady _ _ _ _ _)).trans (ih _)

theorem bandwidthLoop_steady {allocates : Nat → Bool} : ∀ (slots : List Nat) (h : Host),
    Steady h (bandwidthLoop allocates slots h) := by
  intro slots
  induction slots with
  | nil => exact fun h => .refl h
  | cons i slots ih =>
    intro h
    unfold bandwidthLoop
    split
    · exact ih h
    · exact (Steady.update (queueOutgoing_getD_steady _ _ _)).trans (ih _)

theorem bandwidthThrottle_steady {recalculate : Bool} {allocates : Nat → Bool} :
    Steady h (hostBandwidthThrottle h recalculate allocates) := by
  unfold hostBandwidthThrottle
  split
  · exact bandwidthLoop_steady _ h
  · exact .refl h

theorem disconnectConnected_steady {data : UInt32} {allocates : Bool} :
    Steady h (peerDisconnectConnected h i data allocates) := by
  refine (resetQueues_steady h i).trans (.update ?_)
  exact (queueOutgoing_getD_steady _ _ _).trans (.down (by simp) (Nat.le_refl _))

/-! ## Sending -/

theorem sendAcknowledgements_steady {n : Nat} :
    Steady h (protocolSendAcknowledgements h i n) := by
  unfold protocolSendAcknowledgements
  simp only
  split
  · exact (dispatchState_steady (by simp)).trans (.update (.same rfl rfl))
  · exact .update (.same rfl rfl)

theorem sendReliable_steady (p : Peer) (choice : SendChoice) :
    p.Steady (sendReliable p choice) := by
  unfold sendReliable
  simp only
  split
  · have hs : p.Steady (protocolSendReliableOutgoingCommands p choice.reliable) := .same rfl rfl
    exact (hs.trans (peerPing_steady _ _)).trans (.same rfl rfl)
  · exact .same rfl rfl

theorem sendUnreliable_steady {n : Nat} {allocates : Bool} :
    Steady h (protocolSendUnreliableOutgoingCommands h i n allocates) := by
  unfold protocolSendUnreliableOutgoingCommands
  simp only
  have hdrop : Steady h (h.update i fun p =>
      { p with outgoingUnreliableCommands := p.outgoingUnreliableCommands.drop n }) :=
    .update (.same rfl rfl)
  split
  · exact hdrop.trans disconnectConnected_steady
  · exact hdrop

theorem notifyDisconnect_steady {deliver : Bool} :
    Steady h (protocolNotifyDisconnect h i deliver).1 := by
  unfold protocolNotifyDisconnect
  split
  · exact reset_steady h i
  · split
    · exact reset_steady h i
    · have hdata : Steady h (h.update i fun p => { p with eventData := 0 }) :=
        .update (.same rfl rfl)
      exact hdata.trans (dispatchState_steady (by simp))

theorem sendOutgoing_steady {deliver checkForTimeouts : Bool} {choice : SendChoice} :
    Steady h (protocolSendOutgoingCommands h i deliver checkForTimeouts choice).host := by
  unfold protocolSendOutgoingCommands
  split
  · exact .refl h
  · have hack : Steady h (protocolSendAcknowledgements h i choice.acknowledgements) :=
      sendAcknowledgements_steady
    refine hack.trans ?_
    generalize protocolSendAcknowledgements h i choice.acknowledgements = g
    simp only
    split
    · have hr : Steady g (g.update i fun p => p.requeue choice.timeouts) :=
        .update (.same rfl rfl)
      exact hr.trans notifyDisconnect_steady
    · have hsend : ∀ checks : Bool, Steady g (g.update i fun p =>
          sendReliable (if checks then p.requeue choice.timeouts else p) choice) := by
        intro checks
        refine .update (Peer.Steady.trans ?_ (sendReliable_steady _ _))
        split <;> exact .same rfl rfl
      have hlast : ∀ t : Host, Steady t
          (if (t.peers i).outgoingUnreliableCommands.isEmpty then t
          else protocolSendUnreliableOutgoingCommands t i choice.unreliable choice.allocates) := by
        intro t
        split
        · exact .refl t
        · exact sendUnreliable_steady
      exact (hsend _).trans (hlast _)

theorem flushPass_steady {choice : Nat → SendChoice} : ∀ (slots : List Nat) (h : Host),
    Steady h (flushPass choice slots h).1 := by
  intro slots
  induction slots with
  | nil => exact fun h => .refl h
  | cons i slots ih =>
    intro h
    unfold flushPass
    simp only
    split
    · exact sendOutgoing_steady
    · exact sendOutgoing_steady.trans (ih _)

theorem flush_steady : ∀ (passes : List (Nat → SendChoice)) (h : Host),
    Steady h (hostFlush passes h) := by
  intro passes
  induction passes with
  | nil => exact fun h => .refl h
  | cons choice passes ih =>
    intro h
    unfold hostFlush
    simp only
    split
    · exact (flushPass_steady _ h).trans (ih _)
    · exact flushPass_steady _ h

/-! ## The functions on a peer -/

theorem flushReset_steady {data : UInt32} {allocates : Bool} {passes : List (Nat → SendChoice)} :
    Steady h (peerReset (flushDisconnect h i data allocates passes) i) := by
  have hq : Steady h (flushDisconnect h i data allocates passes) := by
    unfold flushDisconnect
    refine ((resetQueues_steady h i).trans (.update ?_)).trans (flush_steady passes _)
    exact queueOutgoing_getD_steady _ _ _
  exact hq.trans (reset_steady _ i)

theorem disconnect_steady {data : UInt32} {allocates : Bool} {passes : List (Nat → SendChoice)} :
    Steady h (peerDisconnect h i data allocates passes) := by
  unfold peerDisconnect
  cases (h.peers i).state with
  | connected => exact disconnectConnected_steady
  | disconnectLater => exact disconnectConnected_steady
  | connecting => exact flushReset_steady
  | acknowledgingConnect => exact flushReset_steady
  | connectionPending => exact flushReset_steady
  | connectionSucceeded => exact flushReset_steady
  | _ => exact .refl h

theorem disconnectNow_steady {data : UInt32} {allocates : Bool}
    {passes : List (Nat → SendChoice)} :
    Steady h (peerDisconnectNow h i data allocates passes) := by
  unfold peerDisconnectNow
  cases (h.peers i).state with
  | disconnected => exact .refl h
  | zombie => exact reset_steady h i
  | disconnecting => exact reset_steady h i
  | _ => exact flushReset_steady

theorem disconnectLater_steady {data : UInt32} {allocates : Bool}
    {passes : List (Nat → SendChoice)} :
    Steady h (peerDisconnectLater h i data allocates passes) := by
  unfold peerDisconnectLater
  split
  · exact .update (.down (by simp) (Nat.le_refl _))
  · exact disconnect_steady

theorem connectClaim_steady {h' : Host} {address : Address} {channelCount : Nat} {data : UInt32}
    {channels connects : Bool}
    (hs : hostConnectClaim h i address channelCount data channels connects = some h') :
    Steady h h' := by
  unfold hostConnectClaim at hs
  simp only at hs
  split at hs
  · cases hs
    have hcount : Steady h { h with
        randomSeed := h.randomSeed + 1
        connections := h.connections + 1 } := .of_peers rfl
    refine hcount.trans (.update (Peer.Steady.trans ?_ (queueOutgoing_getD_steady _ _ _)))
    refine ⟨fun e => (by cases e), ?_⟩
    show max protocolMinimumChannelCount (min channelCount protocolMaximumChannelCount) ≤ _
    unfold protocolMinimumChannelCount protocolMaximumChannelCount
    omega
  · cases hs

/-! ## Events -/

/-- What is so when a function returns `event`: only its slot has come up, if it is a
CONNECT, its slot is not CONNECTED if it is a DISCONNECT, and it was and is if it is a
RECEIVE. -/
structure Raises (h h' : Host) (event : Option Event) : Prop where
  up : ∀ j, (h'.peers j).state = .connected → (h.peers j).state = .connected ∨
    ∃ e, event = some e ∧ e.type = .connect ∧ e.peer = j
  down : ∀ e, event = some e → e.type = .disconnect → (h'.peers e.peer).state ≠ .connected
  receives : ∀ e, event = some e → e.type = .receive → (h.peers e.peer).state = .connected
  channels : ∀ j, (h'.peers j).channelCount ≤
    max (h.peers j).channelCount protocolMaximumChannelCount

/-- The event is about the connection of the slot `i`. -/
def About (i : Nat) (event : Option Event) : Prop :=
  ∀ e, event = some e → e.peer = i ∧ e.type ≠ .receive

theorem Steady.raises {h' : Host} (hs : Steady h h') : Raises h h' none where
  up j hj := Or.inl ((hs j).up hj)
  down e he := by cases he
  receives e he := by cases he
  channels j := (hs j).channels

theorem Steady.of_raises {h' : Host} (hr : Raises h h' none) : Steady h h' := by
  refine fun j => ⟨fun hj => ?_, hr.channels j⟩
  rcases hr.up j hj with hh | ⟨e, he, _⟩
  · exact hh
  · cases he

theorem Raises.before {g h' : Host} {event : Option Event} (hs : Steady h g)
    (hr : Raises g h' event) : Raises h h' event where
  up j hj := (hr.up j hj).imp_left (hs j).up
  down := hr.down
  receives e he ht := (hs e.peer).up (hr.receives e he ht)
  channels j := by
    have := (hs j).channels
    have := hr.channels j
    omega

theorem Raises.after {g h' : Host} {event : Option Event} (hr : Raises h g event)
    (hs : Steady g h') : Raises h h' event where
  up j hj := hr.up j ((hs j).up hj)
  down e he ht hc := hr.down e he ht ((hs e.peer).up hc)
  receives := hr.receives
  channels j := by
    have := (hs j).channels
    have := hr.channels j
    omega

/-- A later command of the same peer replaces the event. -/
theorem Raises.andThen {g h' : Host} {event event' : Option Event} (hr : Raises h g event)
    (hr' : Raises g h' event') (ha : About i event) (ha' : About i event') :
    Raises h h' (event'.or event) where
  up j hj := by
    rcases hr'.up j hj with hg | ⟨e, rfl, ht, hp⟩
    · rcases hr.up j hg with hh | ⟨e, rfl, ht, hp⟩
      · exact Or.inl hh
      · right
        cases event' with
        | none => exact ⟨e, rfl, ht, hp⟩
        | some e' =>
          obtain ⟨hi, hne⟩ := ha' e' rfl
          have hej : e'.peer = j := by rw [hi, ← (ha e rfl).1, hp]
          refine ⟨e', rfl, ?_, hej⟩
          cases hte : e'.type with
          | connect => rfl
          | disconnect => exact absurd (hej ▸ hj) (hr'.down e' rfl hte)
          | receive => exact absurd hte hne
    · exact Or.inr ⟨e, rfl, ht, hp⟩
  down e he ht hc := by
    cases event' with
    | some e' =>
      obtain rfl : e' = e := Option.some.inj he
      exact hr'.down e' rfl ht hc
    | none =>
      rcases hr'.up _ hc with hg | ⟨e', he', _⟩
      · exact hr.down e he ht hg
      · cases he'
  receives e he ht := by
    cases event' with
    | some e' =>
      obtain rfl : e' = e := Option.some.inj he
      exact absurd ht (ha' e' rfl).2
    | none => exact hr.receives e he ht
  channels j := by
    have := hr.channels j
    have := hr'.channels j
    omega

/-- A slot comes up, and its CONNECT is returned. -/
theorem connect_raises (h : Host) (i : Nat) (data : UInt32) :
    Raises h (protocolChangeState h i .connected)
      (some ((protocolChangeState h i .connected).event .connect i data)) := by
  refine ⟨fun j hj => ?_, fun e he ht => ?_, fun e he ht => ?_, fun j => ?_⟩
  · by_cases hji : j = i
    · exact Or.inr ⟨_, rfl, rfl, hji.symm⟩
    · simp only [protocolChangeState, Host.update_peers_of_ne _ _ hji] at hj
      exact Or.inl hj
  · cases he
    cases ht
  · cases he
    cases ht
  · by_cases hji : j = i
    · subst hji
      simp only [protocolChangeState, Host.update_peers_self]
      exact Nat.le_max_left _ _
    · simp only [protocolChangeState, Host.update_peers_of_ne _ _ hji]
      exact Nat.le_max_left _ _

/-- A slot is freed, and its DISCONNECT is returned. -/
theorem disconnect_raises (h : Host) (i : Nat) (data : UInt32) :
    Raises h (peerReset h i) (some (h.event .disconnect i data)) := by
  refine ⟨fun j hj => Or.inl ((reset_steady h i j).up hj), fun e he _ => ?_, fun e he ht => ?_,
    fun j => (reset_steady h i j).channels⟩
  · cases he
    show ((peerReset h i).peers i).state ≠ _
    rw [reset_state]
    simp
  · cases he
    cases ht

theorem notifyConnect_raises {deliver : Bool} :
    Raises h (protocolNotifyConnect h i deliver).1 (protocolNotifyConnect h i deliver).2 ∧
      About i (protocolNotifyConnect h i deliver).2 := by
  unfold protocolNotifyConnect
  split
  · refine ⟨connect_raises h i _, fun e he => ?_⟩
    cases he
    exact ⟨rfl, by simp [Host.event]⟩
  · refine ⟨(dispatchState_steady ?_).raises, fun e he => by cases he⟩
    split <;> simp

theorem notifyDisconnect_raises {deliver : Bool} :
    Raises h (protocolNotifyDisconnect h i deliver).1 (protocolNotifyDisconnect h i deliver).2 ∧
      About i (protocolNotifyDisconnect h i deliver).2 := by
  have hs : Steady h (protocolNotifyDisconnect h i deliver).1 := notifyDisconnect_steady
  unfold protocolNotifyDisconnect at hs ⊢
  split
  · exact ⟨(reset_steady h i).raises, fun e he => by cases he⟩
  · split
    · refine ⟨disconnect_raises h i 0, fun e he => ?_⟩
      cases he
      exact ⟨rfl, by simp [Host.event]⟩
    · next hv hd =>
      rw [if_neg hv, if_neg hd] at hs
      exact ⟨Steady.raises hs, fun e he => by cases he⟩

/-! ## Datagrams -/

theorem removeSent_steady (p : Peer) (n : UInt16) (channelID : UInt8) :
    p.Steady (protocolRemoveSentReliableCommand p n channelID).1 := by
  refine .same (slot_state (removeSent_slot p n channelID)) ?_
  unfold protocolRemoveSentReliableCommand
  simp only
  split
  · rfl
  · split <;> rfl

theorem handleAcknowledge_raises {deliver : Bool} {channelID : UInt8} {n : UInt16}
    {inTime allocates : Bool} :
    Raises h (protocolHandleAcknowledge h i deliver channelID n inTime allocates).host
      (protocolHandleAcknowledge h i deliver channelID n inTime allocates).event ∧
    About i (protocolHandleAcknowledge h i deliver channelID n inTime allocates).event := by
  have hnone : About i none := fun e he => by cases he
  unfold protocolHandleAcknowledge
  split
  · exact ⟨(Steady.refl h).raises, hnone⟩
  · have hrem : Steady h (h.update i fun _ =>
        (protocolRemoveSentReliableCommand (h.peers i) n channelID).1) :=
      .update (removeSent_steady _ _ _)
    simp only [Host.update_peers_self]
    generalize h.update i (fun _ => _) = g at hrem ⊢
    cases (protocolRemoveSentReliableCommand (h.peers i) n channelID).1.state with
    | acknowledgingConnect =>
      simp only
      split
      · exact ⟨hrem.raises, hnone⟩
      · exact ⟨.before hrem notifyConnect_raises.1, notifyConnect_raises.2⟩
    | disconnecting =>
      simp only
      split
      · exact ⟨hrem.raises, hnone⟩
      · exact ⟨.before hrem notifyDisconnect_raises.1, notifyDisconnect_raises.2⟩
    | disconnectLater =>
      simp only
      split
      · exact ⟨(hrem.trans disconnectConnected_steady).raises, hnone⟩
      · exact ⟨hrem.raises, hnone⟩
    | _ => exact ⟨hrem.raises, hnone⟩

theorem handleVerifyConnect_raises {deliver : Bool} {channelCount : Nat} {connectID : UInt32}
    {mtu : Nat} {agrees : Bool} :
    Raises h (protocolHandleVerifyConnect h i deliver channelCount connectID mtu agrees).host
      (protocolHandleVerifyConnect h i deliver channelCount connectID mtu agrees).event ∧
    About i (protocolHandleVerifyConnect h i deliver channelCount connectID mtu agrees).event := by
  have hnone : About i none := fun e he => by cases he
  unfold protocolHandleVerifyConnect
  split
  · exact ⟨(Steady.refl h).raises, hnone⟩
  · split
    · have hdata : Steady h (h.update i fun p => { p with eventData := 0 }) :=
        .update (.same rfl rfl)
      exact ⟨(hdata.trans (dispatchState_steady (by simp))).raises, hnone⟩
    · have hrem : Steady h (h.update i fun p =>
          { (protocolRemoveSentReliableCommand p 1 0xFF).1 with
            channelCount :=
              min channelCount (protocolRemoveSentReliableCommand p 1 0xFF).1.channelCount
            mtu := min (clampMtu mtu) (protocolRemoveSentReliableCommand p 1 0xFF).1.mtu }) := by
        refine .update ((removeSent_steady _ _ _).trans ⟨id, ?_⟩)
        show min _ _ ≤ _
        omega
      exact ⟨.before hrem notifyConnect_raises.1, notifyConnect_raises.2⟩

theorem handleDisconnect_steady {acknowledge : Bool} {data : UInt32} :
    Steady h (protocolHandleDisconnect h i acknowledge data) := by
  unfold protocolHandleDisconnect
  simp only
  split
  · exact .refl h
  · have hdata : ∀ g : Host, Steady h g → Steady h
        (if (g.peers i).state ≠ .disconnected then
          g.update i fun p => { p with eventData := data } else g) := by
      intro g hg
      split
      · exact hg.trans (.update (.same rfl rfl))
      · exact hg
    refine hdata _ ((resetQueues_steady h i).trans ?_)
    split
    · exact dispatchState_steady (by simp)
    · split
      · exact reset_steady _ i
      · split
        · exact changeState_steady (by simp)
        · exact dispatchState_steady (by simp)

theorem handleSend_steady {channelID : UInt8} {packets : Option (List Packet)} :
    Steady h (protocolHandleSend h i channelID packets).host ∧
      (protocolHandleSend h i channelID packets).event = none := by
  unfold protocolHandleSend
  split
  · exact ⟨.refl h, rfl⟩
  · split
    · exact ⟨.refl h, rfl⟩
    · exact ⟨.refl h, rfl⟩
    · refine ⟨Steady.trans (.update (.same rfl rfl)) (queueDispatch_steady _ i), rfl⟩

theorem handleCommand_raises {deliver : Bool} {c : Command} :
    Raises h (protocolHandleCommand h i deliver c).host
      (protocolHandleCommand h i deliver c).event ∧
    About i (protocolHandleCommand h i deliver c).event := by
  have hnone : About i none := fun e he => by cases he
  unfold protocolHandleCommand
  cases c.body with
  | acknowledge n inTime => exact handleAcknowledge_raises
  | connect body => exact ⟨(Steady.refl h).raises, hnone⟩
  | verifyConnect channelCount connectID mtu agrees => exact handleVerifyConnect_raises
  | disconnect data => exact ⟨handleDisconnect_steady.raises, hnone⟩
  | ping => exact ⟨(Steady.refl h).raises, hnone⟩
  | send command packets =>
    obtain ⟨hs, he⟩ := @handleSend_steady h i c.channelID packets
    simp only [he]
    exact ⟨hs.raises, hnone⟩
  | bandwidthLimit => exact ⟨(Steady.refl h).raises, hnone⟩
  | throttleConfigure => exact ⟨(Steady.refl h).raises, hnone⟩

theorem queueAcknowledgement_steady {c : Command} :
    Steady h (protocolQueueAcknowledgement h i c) := by
  have hqueue : Steady h (h.update i fun p =>
      if c.acknowledges then
        { p with acknowledgements := p.acknowledgements ++ [c.body.command] }
      else p) := by
    refine .update ?_
    split <;> exact .same rfl rfl
  unfold protocolQueueAcknowledgement
  cases (h.peers i).state with
  | disconnecting => exact .refl h
  | acknowledgingConnect => exact .refl h
  | disconnected => exact .refl h
  | zombie => exact .refl h
  | acknowledgingDisconnect =>
    simp only
    split
    · exact hqueue
    · exact .refl h
  | _ => exact hqueue

theorem About.or {event event' : Option Event} (ha : About i event) (ha' : About i event') :
    About i (event'.or event) := by
  intro e he
  cases event' with
  | none => exact ha e he
  | some e' => exact ha' e he

/-- The loop keeps what is so of the event it has so far. -/
theorem handleCommands_raises {h₀ : Host} {d : Datagram} {deliver : Bool} :
    ∀ (cs : List Command) (h : Host) (event : Option Event), Raises h₀ h event → About i event →
    Raises h₀ (protocolHandleCommands d deliver i cs h event).1
      (protocolHandleCommands d deliver i cs h event).2 := by
  intro cs
  induction cs with
  | nil => intro h event hr _; exact hr
  | cons c cs ih =>
    intro h event hr ha
    obtain ⟨hone, habout⟩ := @handleCommand_raises h i deliver c
    have hthen := hr.andThen hone ha habout
    unfold protocolHandleCommands
    simp only
    split
    · exact hthen
    · split
      · exact ih _ _ hthen (ha.or habout)
      · split
        · exact hthen
        · exact ih _ _ (hthen.after queueAcknowledgement_steady) (ha.or habout)

theorem connectAccept_steady (h : Host) (i : Nat) (address : Address) {c : Connect}
    (hc : c.channelCount ≤ protocolMaximumChannelCount) :
    Steady h (connectAccept h i address c) := by
  have hcount : Steady h { h with connections := h.connections + 1 } := .of_peers rfl
  refine hcount.trans (.update (Peer.Steady.trans ?_ (queueOutgoing_getD_steady _ _ _)))
  refine ⟨fun e => (by cases e), ?_⟩
  show min c.channelCount h.channelLimit ≤ _
  omega

theorem handleConnect_channels {address : Address} {c : Connect} {r : Host × Nat}
    (hs : protocolHandleConnect h address c = some r) :
    c.channelCount ≤ protocolMaximumChannelCount := by
  unfold protocolHandleConnect at hs
  split at hs
  · cases hs
  · next hc => omega

theorem handleFirstCommand_raises {d : Datagram} {deliver : Bool} :
    Raises h (protocolHandleFirstCommand d deliver h).1
      (protocolHandleFirstCommand d deliver h).2 := by
  unfold protocolHandleFirstCommand
  cases d.commands with
  | nil => exact (Steady.refl h).raises
  | cons c cs =>
    simp only
    cases c.body with
    | connect body =>
      simp only
      cases hcon : protocolHandleConnect h d.address body with
      | none => exact (Steady.refl h).raises
      | some r =>
        obtain ⟨g, i⟩ := r
        have hnone : About i none := fun e he => by cases he
        obtain ⟨_, rfl⟩ := handleConnect_eq hcon
        have hs := connectAccept_steady h i d.address (handleConnect_channels hcon)
        simp only
        split
        · exact handleCommands_raises _ _ _ hs.raises hnone
        · split
          · exact hs.raises
          · exact handleCommands_raises _ _ _ (hs.trans queueAcknowledgement_steady).raises hnone
    | _ => exact (Steady.refl h).raises

theorem handleIncoming_raises {d : Datagram} {deliver : Bool} :
    Raises h (protocolHandleIncomingCommands h d deliver).1
      (protocolHandleIncomingCommands h d deliver).2 := by
  unfold protocolHandleIncomingCommands
  cases d.peerID with
  | none => exact handleFirstCommand_raises
  | some i =>
    simp only
    split
    · exact (Steady.refl h).raises
    · have hs : Steady h (h.update i fun p => { p with address := d.address }) :=
        .update (.same rfl rfl)
      exact handleCommands_raises _ _ _ hs.raises fun e he => by cases he

/-! ## One step of `enet_host_service` -/

theorem dispatchLoop_raises : ∀ (queue : List Nat) (h : Host),
    Raises h (protocolDispatchLoop queue h).1 (protocolDispatchLoop queue h).2 := by
  intro queue
  induction queue with
  | nil =>
    intro h
    have hs : Steady h { h with dispatchQueue := [] } := .of_peers rfl
    exact hs.raises
  | cons i queue ih =>
    intro h
    have htake : Steady h (setDispatch h queue i false) := setDispatch_steady h queue i false
    rw [protocolDispatchLoop]
    generalize setDispatch h queue i false = t at htake ⊢
    cases hs : (t.peers i).state with
    | connectionPending => exact .before htake (connect_raises t i _)
    | connectionSucceeded => exact .before htake (connect_raises t i _)
    | zombie => exact .before htake (disconnect_raises t i _)
    | connected =>
      simp only
      cases (t.peers i).dispatchedCommands with
      | nil => exact .before htake (ih t)
      | cons c commands =>
        simp only
        have hup : Steady t (t.update i fun p => { p with dispatchedCommands := commands }) :=
          .update (.same rfl rfl)
        have hhost : Steady t
            (if commands.isEmpty then t.update i fun p => { p with dispatchedCommands := commands }
            else
              queueDispatch (t.update i fun p => { p with dispatchedCommands := commands }) i) := by
          split
          · exact hup
          · exact hup.trans (queueDispatch_steady _ i)
        refine .before htake ⟨fun j hj => Or.inl ((hhost j).up hj), fun e he ht => ?_,
          fun e he _ => ?_, fun j => (hhost j).channels⟩
        · cases he
          cases ht
        · cases he
          exact hs
    | disconnected => exact .before htake (ih t)
    | connecting => exact .before htake (ih t)
    | acknowledgingConnect => exact .before htake (ih t)
    | disconnectLater => exact .before htake (ih t)
    | disconnecting => exact .before htake (ih t)
    | acknowledgingDisconnect => exact .before htake (ih t)

theorem sendOutgoing_raises {checkForTimeouts : Bool} {choice : SendChoice} :
    Raises h (protocolSendOutgoingCommands h i true checkForTimeouts choice).host
      (protocolSendOutgoingCommands h i true checkForTimeouts choice).event := by
  have hs := @sendOutgoing_steady h i true checkForTimeouts choice
  unfold protocolSendOutgoingCommands at hs ⊢
  split
  · exact (Steady.refl h).raises
  · next hd =>
    rw [if_neg hd] at hs
    have hack : Steady h (protocolSendAcknowledgements h i choice.acknowledgements) :=
      sendAcknowledgements_steady
    generalize protocolSendAcknowledgements h i choice.acknowledgements = g at hack hs ⊢
    simp only at hs ⊢
    split
    · have hr : Steady g (g.update i fun p => p.requeue choice.timeouts) :=
        .update (.same rfl rfl)
      exact .before (hack.trans hr) notifyDisconnect_raises.1
    · next hx =>
      rw [if_neg hx] at hs
      exact Steady.raises hs

theorem serviceStep_raises {pc : ServicePc} {input : ServiceInput} :
    Raises h (serviceStep h pc input).1 (serviceStep h pc input).2.event := by
  cases pc with
  | dispatch =>
    simp only [serviceStep, deliverOr_host]
    rw [deliverOr_event rfl]
    exact dispatchLoop_raises _ h
  | throttle => exact bandwidthThrottle_steady.raises
  | send again i =>
    simp only [serviceStep]
    split
    · simp only [deliverOr_host]
      rw [deliverOr_event (by split <;> rfl)]
      exact sendOutgoing_raises
    · split <;> exact (Steady.refl h).raises
  | receive packets =>
    simp only [serviceStep]
    split
    · cases input.received with
      | nothing => exact (Steady.refl h).raises
      | failed => exact (Steady.refl h).raises
      | datagram d =>
        simp only [deliverOr_host]
        rw [deliverOr_event rfl]
        exact handleIncoming_raises
    · exact (Steady.refl h).raises
  | dispatchAgain =>
    simp only [serviceStep, deliverOr_host]
    rw [deliverOr_event rfl]
    exact dispatchLoop_raises _ h
  | wait =>
    simp only [serviceStep]
    split <;> exact (Steady.refl h).raises

end ENet
