import GDNet.Transition.Machine
import GDNet.Transport.Delivery

/-!
# Two peers and the network between them

One direction of a connection, seen from one channel of it.  The sender queues,
sends, sends again and forgets; the receiver orders, dispatches and hands over; the
network keeps every command that was put into a datagram and every acknowledgement,
and brings any of them at any time, any number of times or never.  Commands that are
none of the reliable ones of the channel arrive as they please.  The sender may be
reset or disconnected at any time; then its channels are gone.  The receiver stays as
it is until it has received everything; its own resets are left out.

`plan` and `handed` are kept for the statements only: what `enet_peer_send` accepted
for reliable delivery on the channel, and what `enet_peer_receive` gave back of it.
An acknowledgement is kept with the number, not wrapped, of the command that it
answers.
-/

namespace Transport
open ENet (PeerState Packet ProtocolCommand protocolMaximumFragmentCount packetFlagReliable)
open Transition

structure Exchange where
  sender : Outbound
  receiver : Inbound
  plan : List Parcel
  network : List Outgoing
  acks : List (Acknowledgement × Nat)
  handed : List (List UInt8)

/-- What does not change in a connection: the channel, and what the sending host has
installed. -/
structure Link where
  channelID : UInt8
  checksum : Bool
  maximumPacketSize : Nat

def Link.index (l : Link) : Nat := l.channelID.toNat

/-- `ENET_PROTOCOL_MINIMUM_MTU`. -/
def protocolMinimumMtu : Nat := 576

/-- `ENET_PROTOCOL_MAXIMUM_MTU`. -/
def protocolMaximumMtu : Nat := 4096

/-- `ENET_PROTOCOL_MAXIMUM_WINDOW_SIZE`. -/
def protocolMaximumWindowSize : Nat := 65536

/-- `ENET_PEER_PACKET_THROTTLE_SCALE`. -/
def packetThrottleScale : Nat := 32

/-- What happens next, with what chance decides about it. -/
inductive Act where
  | send (channelID : UInt8) (packet : Packet) (allocates : Bool)
  /-- A command of the connection itself is queued. -/
  | control (c : Outgoing)
  | flush (batch : Batch) (serviceTime : UInt32)
  /-- The commands that were sent are checked; `deliver` stands for `event != NULL`. -/
  | timeouts (serviceTime : UInt32) (deliver : Bool)
  /-- `enet_peer_reset`. -/
  | reset
  /-- The beginning of `enet_peer_disconnect` and `enet_protocol_handle_disconnect`. -/
  | resetQueues
  | acknowledged (ack : Acknowledgement) (number : Nat)
  /-- An acknowledgement of a command that is not of the channel. -/
  | otherAcknowledged (number : UInt16) (channelID : UInt8)
  /-- What the sender keeps apart from its channels and reliable commands changes. -/
  | sender (p : Outbound)
  | arrive (c : Outgoing) (sentTime : Option UInt16) (memory : Option (Nat → UInt8))
    (allocates : Bool)
  | other (m : Message) (sentTime : Option UInt16) (memory : Option (Nat → UInt8))
    (allocates : Bool)
  | receive
  /-- What the receiver keeps apart from its channels and commands changes. -/
  | receiver (p : Inbound)

/-- A reliable command of the channel, or one that would be taken for it. -/
def Link.concerns (l : Link) (m : Message) : Bool :=
  m.protocol.channelID == l.channelID &&
    (isReliable m.protocol.command || m.protocol.acknowledges)

namespace Exchange

/-- The acknowledgements that a turn of the receiver added. -/
def queuedAcks (before after : Inbound) (number : Nat) : List (Acknowledgement × Nat) :=
  (after.acknowledgements.drop before.acknowledgements.length).map fun a => (a, number)

def step (l : Link) (s : Exchange) : Act → Option Exchange
  | .send channelID packet allocates =>
    (peerSend l.checksum l.maximumPacketSize s.sender channelID packet allocates).map fun p =>
      { s with
        sender := p
        plan := s.plan ++ accepted s.sender l.checksum l.channelID channelID packet }
  | .control c =>
    if c.channelID = 0xFF then some { s with sender := peerSetupOutgoingCommand s.sender c }
    else none
  | .flush batch serviceTime =>
    let r := protocolSendReliableOutgoingCommands s.sender batch serviceTime
    some { s with sender := r.1, network := s.network ++ r.2.1.sent.drop batch.sent.length }
  | .timeouts serviceTime deliver =>
    let r := protocolCheckTimeouts s.sender serviceTime
    some { s with sender := if r.2 then protocolNotifyDisconnect r.1 deliver else r.1 }
  | .reset => some { s with sender := peerReset s.sender }
  | .resetQueues => some { s with sender := peerResetQueues s.sender }
  | .acknowledged ack number =>
    if (ack, number) ∈ s.acks then
      some { s with sender := (protocolRemoveSentReliableCommand s.sender ack.reliableSequenceNumber
        ack.channelID).1 }
    else none
  | .otherAcknowledged number channelID =>
    if channelID ≠ l.channelID then
      some { s with sender := (protocolRemoveSentReliableCommand s.sender number channelID).1 }
    else none
  | .sender p =>
    if protocolMinimumMtu ≤ p.mtu ∧ p.mtu ≤ protocolMaximumMtu ∧
        p.windowSize ≤ protocolMaximumWindowSize ∧ p.packetThrottle ≤ packetThrottleScale then
      some { s with sender := { p with
        channelCount := s.sender.channelCount
        channels := s.sender.channels
        sentReliableCommands := s.sender.sentReliableCommands
        outgoingReliableCommands := s.sender.outgoingReliableCommands
        reliableDataInTransit := s.sender.reliableDataInTransit } }
    else none
  | .arrive c sentTime memory allocates =>
    if c ∈ s.network ∧ c.channelID = l.channelID then
      c.wire.bind fun m =>
        (handleIncomingCommand s.receiver sentTime m memory allocates).map fun t =>
          { s with
            receiver := t.peer
            acks := s.acks ++ queuedAcks s.receiver t.peer c.serial }
    else none
  | .other m sentTime memory allocates =>
    if l.concerns m then none
    else
      (handleIncomingCommand s.receiver sentTime m memory allocates).map fun t =>
        { s with receiver := t.peer }
  | .receive =>
    (peerReceive s.receiver).map fun r =>
      { s with
        receiver := r.1
        handed := s.handed ++ logged l.index (s.receiver.dispatchedCommands.take 1) }
  | .receiver p =>
    some { s with receiver := { p with
      channelCount := s.receiver.channelCount
      channels := s.receiver.channels
      dispatchedCommands := s.receiver.dispatchedCommands } }

/-- Both ends of a connection before anything is sent. -/
structure Fresh (l : Link) (s : Exchange) : Prop where
  sender : ∃ state mtu channelCount, s.sender =
    { state := state, mtu := mtu, channelCount := channelCount, channels := fun _ => {} }
  mtu : protocolMinimumMtu ≤ s.sender.mtu ∧ s.sender.mtu ≤ protocolMaximumMtu
  channel : l.index < s.sender.channelCount
  channels : s.sender.channelCount ≤ 255
  receiver : s.receiver.channels = fun _ => {}
  dispatched : s.receiver.dispatchedCommands = []
  plan : s.plan = []
  network : s.network = []
  acks : s.acks = []
  handed : s.handed = []

end Exchange

def exchange (l : Link) : Machine Exchange Act where
  start := Exchange.Fresh l
  step := Exchange.step l

/-! ## Where the receiver is -/

namespace Exchange

/-- The data of the packets of the channel that came out, in order. -/
def delivered (l : Link) (s : Exchange) : List (List UInt8) :=
  s.handed ++ logged l.index s.receiver.dispatchedCommands

/-- The number, not wrapped, of the last command that was dispatched. -/
def position (l : Link) (s : Exchange) : Nat := total (s.plan.take (s.delivered l).length)

end Exchange

/-- The number of the first command of the packet. -/
def Outgoing.start (c : Outgoing) : Nat := c.serial - c.fragmentNumber

theorem Planned.start {plan : List Parcel} {channelID : UInt8} {c : Outgoing} {a : Arrival}
    (h : Planned plan channelID c a) : c.start = a.start := by
  obtain ⟨-, flags, hc⟩ := h
  have hserial : c.serial = a.number := congrArg (fun c => c.serial) hc
  have hnumber : c.fragmentNumber = if a.parcel.fragmented then a.index else 0 := by
    refine (congrArg (fun c => c.fragmentNumber) hc).trans ?_
    unfold Arrival.command Outgoing.number
    simp only
    split <;> rfl
  rw [Outgoing.start, hserial, hnumber, Arrival.number]
  split
  · omega
  · next hf =>
    have hindex := a.index_lt
    rw [Parcel.count_of_whole (by simpa using hf)] at hindex
    omega

/-- No command arrives that is older than nine windows, nor one from a turn of the
numbers later. -/
def timely (l : Link) (s : Exchange) : Act → Prop
  | .arrive c .. =>
    s.position l / 4096 ≤ c.start / 4096 + 9 ∧ c.start < s.position l + 65536
  | _ => True

instance (l : Link) (s : Exchange) : (a : Act) → Decidable (timely l s a)
  | .send .. | .control _ | .flush .. | .timeouts .. | .reset | .resetQueues | .acknowledged .. |
    .otherAcknowledged .. | .sender _ | .other .. | .receive | .receiver _ =>
    inferInstanceAs (Decidable True)
  | .arrive .. => inferInstanceAs (Decidable (_ ∧ _))

/-! ## One packet -/

/-- The only channel of a connection. -/
def Link.single : Link := ⟨0, false, 1024⟩

/-- Two peers that have just connected. -/
def Exchange.connected : Exchange where
  sender := { state := .connected, mtu := 576, channelCount := 1, channels := fun _ => {} }
  receiver :=
    { state := .connected, channelCount := 1, channels := fun _ => {}, dispatchedCommands := []
      totalWaitingData := 0, incomingUnsequencedGroup := 0, unsequencedWindow := ∅
      acknowledgements := [], maximumPacketSize := 1024, maximumWaitingData := 1024 }
  plan := []
  network := []
  acks := []
  handed := []

theorem Exchange.connected_fresh : (exchange .single).start .connected :=
  ⟨⟨.connected, 576, 1, rfl⟩, by decide, by decide, by decide, rfl, rfl, rfl, rfl, rfl, rfl⟩

/-- A packet that is sent, arrives, is received and acknowledged. -/
def onePacket : List Act :=
  [.send 0 ⟨packetFlagReliable, [1, 2, 3]⟩ true, .flush {} 0,
    .arrive
      { command := .sendReliable, acknowledge := true, channelID := 0, reliableSequenceNumber := 1
        fragmentLength := 3, sendAttempts := 1, packet := some ⟨packetFlagReliable, [1, 2, 3]⟩
        roundTripTimeout := 500, roundTripTimeoutLimit := 16000, serial := 1 }
      (some 0) (some fun _ => 0) true,
    .receive, .acknowledged ⟨.sendReliable, 0, 1, 0⟩ 1]

/-! ## The sender's half -/

theorem loop_channels (i : Nat) (t : UInt32) (cs : List Outgoing) (s : Sending) :
    ((Sending.loop t cs s).1.peer.channels i).serial = (s.peer.channels i).serial ∧
      (Sending.loop t cs s).1.peer.mtu = s.peer.mtu := by
  induction cs generalizing s with
  | nil => exact ⟨rfl, rfl⟩
  | cons c cs ih =>
    rcases turn_cases s c t with ⟨s', hs', hp, -⟩ | ⟨s', hs', hp, -⟩ | ⟨hs', -⟩
    · have := ih s'
      rw [hp] at this
      rw [Sending.loop, hs']
      exact this
    · rw [Sending.loop, hs']
      simp only
      rw [hp]
      exact ⟨rfl, rfl⟩
    · obtain ⟨hserial, hmtu⟩ := ih (s.send c t)
      rw [Sending.loop, hs']
      refine ⟨hserial.trans ?_, hmtu.trans ?_⟩
      · rw [send_channels]
        split
        · by_cases hi : c.channelID.toNat = i
          · subst hi
            rw [Function.update_self]
            rfl
          · rw [Function.update_of_ne (Ne.symm hi)]
        · rfl
      · unfold Sending.send
        simp only
        split <;> rfl

theorem flush_carries {channelID : UInt8} {plan : List Parcel} {p : Outbound}
    (h : Carries channelID plan p) (b : Batch) (t : UInt32) :
    Carries channelID plan (protocolSendReliableOutgoingCommands p b t).1 ∧
      ∀ c ∈ (protocolSendReliableOutgoingCommands p b t).2.1.sent.drop b.sent.length,
        c.channelID = channelID → ∃ a, Planned plan channelID c a := by
  obtain ⟨new, hsent, hbatch, hmoved⟩ := flush_moved p b t
  have hc : Carries channelID plan (protocolSendReliableOutgoingCommands p b t).1 :=
    h.moved (loop_channels _ t p.outgoingReliableCommands { peer := p, batch := b }).1
      fun c hc => hmoved.mem hc
  refine ⟨hc, fun c hmem hch => hc.planned c ?_ hch⟩
  rw [hbatch, List.drop_left] at hmem
  rw [Outbound.reliable, hsent, List.append_assoc]
  exact List.mem_append_right _ (List.mem_append_left _ hmem)

theorem checkTimeouts_carries {channelID : UInt8} {plan : List Parcel} {p : Outbound}
    (h : Carries channelID plan p) (t : UInt32) :
    Carries channelID plan (protocolCheckTimeouts p t).1 :=
  h.moved (congrArg (fun f => (f channelID.toNat).serial)
    (timeouts_channels t p.sentReliableCommands { peer := p }).1)
    fun _ hc => (checkTimeouts_moved p t).mem hc

theorem remove_carries {channelID : UInt8} {plan : List Parcel} {p : Outbound} {base : Nat}
    (hs : Sound channelID.toNat base p) (h : Carries channelID plan p) (number : UInt16)
    (ch : UInt8) :
    Carries channelID plan (protocolRemoveSentReliableCommand p number ch).1 := by
  rcases remove_cases p number ch with he | ⟨c, as, bs, ha⟩
  · rw [he]
    exact h
  · refine h.moved ?_ fun d hd => ⟨d, ?_, rfl⟩
    · rw [ha.channels, freeWindow_channel p number hs.channel]
      split
      · exact (free_same _ _).1
      · rfl
    · rw [ha.after] at hd
      rw [ha.before]
      simp only [List.mem_append, List.mem_cons] at *
      tauto

theorem setup_mtu (p : Outbound) (c : Outgoing) : (peerSetupOutgoingCommand p c).mtu = p.mtu := by
  unfold peerSetupOutgoingCommand
  simp only
  split
  · split <;> rfl
  · split
    · rfl
    · split <;> rfl

theorem foldl_mtu (cs : List Outgoing) (p : Outbound) :
    (cs.foldl peerSetupOutgoingCommand p).mtu = p.mtu := by
  induction cs generalizing p with
  | nil => rfl
  | cons c cs ih => rw [List.foldl_cons, ih, setup_mtu]

theorem timeouts_mtu (serviceTime : UInt32) (cs : List Outgoing) (t : Timeouts) :
    (Timeouts.loop serviceTime cs t).1.peer.mtu = t.peer.mtu := by
  induction cs generalizing t with
  | nil => rfl
  | cons c cs ih =>
    unfold Timeouts.loop
    simp only
    split
    · exact ih _
    · split
      · rfl
      · exact ih _

theorem remove_mtu (p : Outbound) (number : UInt16) (ch : UInt8) :
    (protocolRemoveSentReliableCommand p number ch).1.mtu = p.mtu := by
  have hfree : (p.freeWindow number ch).mtu = p.mtu := by
    unfold Outbound.freeWindow
    split <;> rfl
  have hrearm : ∀ q : Outbound, q.rearm.mtu = q.mtu := by
    intro q
    unfold Outbound.rearm
    split <;> rfl
  unfold protocolRemoveSentReliableCommand
  split
  · exact (hrearm _).trans hfree
  · split
    · exact (hrearm _).trans hfree
    · rfl

theorem Outbound.pieceLength_bounds {p : Outbound} (h : protocolMinimumMtu ≤ p.mtu)
    (h' : p.mtu ≤ protocolMaximumMtu) (checksum : Bool) :
    0 < p.pieceLength checksum ∧ p.pieceLength checksum ≤ 4068 := by
  unfold protocolMinimumMtu protocolMaximumMtu at *
  unfold Outbound.pieceLength ENet.fragmentOverhead
  split <;> omega

theorem accepted_sendable {checksum : Bool} {maximum : Nat} {p p' : Outbound}
    {channelID sendTo : UInt8} {packet : Packet} {allocates : Bool}
    (hl : p.pieceLength checksum ≤ 4068)
    (hs : peerSend checksum maximum p sendTo packet allocates = some p') :
    ∀ q ∈ accepted p checksum channelID sendTo packet, q.Sendable := by
  intro q hq
  unfold accepted at hq
  split at hq
  · rw [List.mem_singleton.mp hq]
    refine ⟨hl, ?_⟩
    unfold Parcel.count Parcel.fragmented
    simp only [decide_eq_true_eq]
    split
    · next hlong =>
      unfold peerSend at hs
      split at hs
      · cases hs
      · simp only at hs
        rw [if_pos (show packet.dataLength > p.pieceLength checksum from hlong)] at hs
        split at hs
        · cases hs
        · next hcount => exact Nat.le_of_not_lt hcount
    · decide
  · cases hq

/-! ## A sender without channels -/

/-- The channels are gone, and there is no command of this one. -/
structure Closed (l : Link) (p : Outbound) : Prop where
  channelCount : p.channelCount = 0
  channel : p.channels l.index = {}
  commands : ∀ c ∈ p.reliable, c.channelID ≠ l.channelID

theorem notifyDisconnect_cases (p : Outbound) (deliver : Bool) :
    protocolNotifyDisconnect p deliver = peerReset p ∨
      protocolNotifyDisconnect p deliver = { p with state := .zombie } := by
  unfold protocolNotifyDisconnect
  split
  · exact .inl rfl
  · exact .inr rfl

/-- Without channels nothing is counted in their windows. -/
theorem loop_closed (t : UInt32) (cs : List Outgoing) (s : Sending)
    (h : s.peer.channelCount = 0) :
    (Sending.loop t cs s).1.peer.channels = s.peer.channels ∧
      (Sending.loop t cs s).1.peer.channelCount = s.peer.channelCount := by
  induction cs generalizing s with
  | nil => exact ⟨rfl, rfl⟩
  | cons c cs ih =>
    rw [Sending.loop]
    rcases turn_cases s c t with ⟨s', hs', hp, -⟩ | ⟨s', hs', hp, -⟩ | ⟨hs', -⟩
    · rw [hs']
      simp only
      rw [← hp]
      exact ih s' (hp ▸ h)
    · rw [hs']
      simp only
      rw [hp]
      exact ⟨rfl, rfl⟩
    · have hcount := send_channelCount s c t
      have hch : (s.send c t).peer.channels = s.peer.channels := by
        rw [send_channels, if_neg]
        rintro ⟨hlt, -⟩
        omega
      rw [hs', ← hch, ← hcount]
      exact ih _ (hcount.trans h)

namespace Closed

variable {l : Link} {p q : Outbound}

theorem resetQueues (l : Link) (p : Outbound) : Closed l (peerResetQueues p) :=
  ⟨rfl, rfl, fun c hc => by cases hc⟩

theorem reset (l : Link) (p : Outbound) : Closed l (peerReset p) := .resetQueues l _

/-- The commands may be moved, and some of them taken away. -/
theorem moved (h : Closed l p) (hcount : q.channelCount = p.channelCount)
    (hch : q.channels = p.channels)
    (hm : ∀ c ∈ q.reliable, ∃ d ∈ p.reliable, d.channelID = c.channelID) : Closed l q := by
  refine ⟨hcount.trans h.channelCount, (congrFun hch _).trans h.channel, fun c hc he => ?_⟩
  obtain ⟨d, hd, hsame⟩ := hm c hc
  exact h.commands d hd (hsame.trans he)

theorem control (h : Closed l p) {c : Outgoing} (hc : c.channelID = 0xFF)
    (hne : (0xFF : UInt8) ≠ l.channelID) : Closed l (peerSetupOutgoingCommand p c) := by
  unfold peerSetupOutgoingCommand
  simp only [if_pos hc]
  split
  · refine ⟨h.channelCount, h.channel, fun d hd => ?_⟩
    change d ∈ p.sentReliableCommands ++ (p.outgoingReliableCommands ++ [_]) at hd
    rw [← List.append_assoc] at hd
    rcases List.mem_append.mp hd with hd | hd
    · exact h.commands d hd
    · rw [List.mem_singleton.mp hd]
      exact fun he => hne (hc.symm.trans he)
  · exact ⟨h.channelCount, h.channel, h.commands⟩

theorem flush (h : Closed l p) (b : Batch) (t : UInt32) :
    Closed l (protocolSendReliableOutgoingCommands p b t).1 := by
  obtain ⟨-, -, -, hmoved⟩ := flush_moved p b t
  obtain ⟨hch, hcount⟩ := loop_closed t p.outgoingReliableCommands { peer := p, batch := b }
    h.channelCount
  refine h.moved hcount hch fun c hc => ?_
  obtain ⟨d, hd, he⟩ := hmoved.mem hc
  exact ⟨d, hd, congrArg (fun c => c.channelID) he⟩

theorem checkTimeouts (h : Closed l p) (t : UInt32) : Closed l (protocolCheckTimeouts p t).1 := by
  obtain ⟨hch, hcount⟩ := timeouts_channels t p.sentReliableCommands { peer := p }
  refine h.moved hcount hch fun c hc => ?_
  obtain ⟨d, hd, he⟩ := (checkTimeouts_moved p t).mem hc
  exact ⟨d, hd, congrArg (fun c => c.channelID) he⟩

theorem notifyDisconnect (h : Closed l p) (deliver : Bool) :
    Closed l (protocolNotifyDisconnect p deliver) := by
  rcases notifyDisconnect_cases p deliver with he | he
  · rw [he]
    exact .reset l p
  · rw [he]
    exact ⟨h.channelCount, h.channel, h.commands⟩

theorem remove (h : Closed l p) (number : UInt16) (channelID : UInt8) :
    Closed l (protocolRemoveSentReliableCommand p number channelID).1 := by
  rcases remove_cases p number channelID with he | ⟨c, as, bs, ha⟩
  · rw [he]
    exact h
  · have hch : (p.freeWindow number channelID).channels = p.channels := by
      have hcount := h.channelCount
      rw [Outbound.freeWindow, if_neg (by omega)]
    refine h.moved ha.channelCount (ha.channels.trans hch) fun d hd => ⟨d, ?_, rfl⟩
    rw [ha.after] at hd
    rw [ha.before]
    simp only [List.mem_append, List.mem_cons] at *
    tauto

/-- Nothing is accepted. -/
theorem not_send (h : Closed l p) {checksum : Bool} {maximum : Nat} {channelID : UInt8}
    {packet : Packet} {allocates : Bool} :
    peerSend checksum maximum p channelID packet allocates ≠ some q := by
  intro hs
  have hlt := (peerSend_eq hs).2.1
  have hcount := h.channelCount
  omega

end Closed

namespace Exchange

/-- What was accepted can be sent, and the network has commands of it. -/
structure Posted (l : Link) (s : Exchange) : Prop where
  index : l.index < 255
  sendable : ∀ q ∈ s.plan, q.Sendable
  network : ∀ c ∈ s.network, c.channelID = l.channelID → ∃ a, Planned s.plan l.channelID c a

/-- The sender has commands of the plan. -/
structure Holds (l : Link) (s : Exchange) : Prop where
  sound : ∃ base, Sound l.index base s.sender
  carries : Carries l.channelID s.plan s.sender
  mtu : protocolMinimumMtu ≤ s.sender.mtu ∧ s.sender.mtu ≤ protocolMaximumMtu

/-- Both, up to the end of the sender's channels. -/
def Sends (l : Link) (s : Exchange) : Prop := Posted l s ∧ (Holds l s ∨ Closed l s.sender)

variable {l : Link} {s t : Exchange}

theorem Posted.fresh (h : Fresh l s) : Posted l s := by
  refine ⟨Nat.lt_of_lt_of_le h.channel h.channels, ?_, ?_⟩
  · rw [h.plan]
    exact fun q hq => by cases hq
  · rw [h.network]
    exact fun c hc => by cases hc

theorem Holds.fresh (h : Fresh l s) : Holds l s := by
  obtain ⟨state, mtu, channelCount, hs⟩ := h.sender
  have hch := h.channel
  have hchs := h.channels
  refine ⟨⟨0, ?_⟩, ?_, h.mtu⟩
  · rw [hs] at hch hchs ⊢
    exact .start hch hchs
  · rw [hs, h.plan]
    exact .start l.channelID

theorem Posted.control_ne (h : Posted l s) : (0xFF : UInt8) ≠ l.channelID := by
  intro he
  have hlt := h.index
  rw [Link.index, ← he] at hlt
  exact absurd hlt (by decide)

/-- A step that leaves the plan and the network as they are. -/
theorem Posted.same (h : Posted l s) (hp : t.plan = s.plan) (hn : t.network = s.network) :
    Posted l t := by
  refine ⟨h.index, ?_, ?_⟩
  · rw [hp]
    exact h.sendable
  · rw [hp, hn]
    exact h.network

/-- A step of the sender's own functions. -/
theorem Holds.withSender {plan : List Parcel} {p : Outbound} {base : Nat} (hp : t.plan = plan)
    (ht : t.sender = p) (hs : Sound l.index base p) (hc : Carries l.channelID plan p)
    (hm : protocolMinimumMtu ≤ p.mtu ∧ p.mtu ≤ protocolMaximumMtu) : Holds l t := by
  subst hp ht
  exact ⟨⟨base, hs⟩, hc, hm⟩

/-- What a step does while the sender has its channels. -/
theorem Holds.step (h : Holds l s) (hpost : Posted l s) {a : Act}
    (hs : Exchange.step l s a = some t) : Sends l t := by
  obtain ⟨base, hb⟩ := h.sound
  have hlt := hpost.index
  cases a with
  | send channelID packet allocates =>
    obtain ⟨p, hp, rfl⟩ := Option.map_eq_some_iff.mp hs
    obtain ⟨hpos, hle⟩ := Outbound.pieceLength_bounds h.mtu.1 h.mtu.2 l.checksum
    obtain ⟨hb', hc', -⟩ := peerSend_carries hb h.carries hpos hp
    have hmtu : p.mtu = s.sender.mtu := by
      rw [(peerSend_eq hp).2.2]
      exact foldl_mtu _ _
    refine ⟨⟨hlt, ?_, fun c hc hch => ?_⟩, .inl (.withSender rfl rfl hb' hc' (hmtu ▸ h.mtu))⟩
    · exact List.forall_mem_append.mpr ⟨hpost.sendable, accepted_sendable hle hp⟩
    · obtain ⟨a, ha⟩ := hpost.network c hc hch
      exact ⟨a, ha.more _⟩
  | control c =>
    change (if c.channelID = 0xFF then _ else _) = some t at hs
    split at hs
    · next hctl =>
      cases hs
      have hne : c.channelID.toNat ≠ l.index := by
        rw [hctl]
        show 255 ≠ l.index
        omega
      obtain ⟨hserial, new, hrel, hnew⟩ := setup_other (p := s.sender) (c := c) (.inr hne) hlt
      refine ⟨hpost.same rfl rfl, .inl (.withSender rfl rfl
        (hb.setup c fun hi => absurd hi hne) ⟨hserial.trans h.carries.serial, fun d hd hch => ?_⟩
        (by rw [setup_mtu]; exact h.mtu))⟩
      rw [hrel, List.mem_append] at hd
      rcases hd with hd | hd
      · exact h.carries.planned d hd hch
      · exact absurd (congrArg UInt8.toNat hch) (hnew d hd)
    · cases hs
  | flush batch serviceTime =>
    obtain ⟨base', hb', -⟩ := flush_sound hb batch serviceTime
    obtain ⟨hc', hnew⟩ := flush_carries h.carries batch serviceTime
    have hmtu := (loop_channels l.index serviceTime s.sender.outgoingReliableCommands
      { peer := s.sender, batch := batch }).2
    obtain rfl : _ = t := Option.some.inj hs
    refine ⟨⟨hlt, hpost.sendable, fun c hc hch => ?_⟩, .inl (.withSender rfl rfl hb' hc' ?_)⟩
    · rcases List.mem_append.mp hc with hc | hc
      · exact hpost.network c hc hch
      · exact hnew c hc hch
    · show _ ≤ (Sending.loop _ _ _).1.peer.mtu ∧ (Sending.loop _ _ _).1.peer.mtu ≤ _
      rw [hmtu]
      exact h.mtu
  | timeouts serviceTime deliver =>
    have hb' := checkTimeouts_sound hb serviceTime
    have hc' := checkTimeouts_carries h.carries serviceTime
    have hm : protocolMinimumMtu ≤ (protocolCheckTimeouts s.sender serviceTime).1.mtu ∧
        (protocolCheckTimeouts s.sender serviceTime).1.mtu ≤ protocolMaximumMtu := by
      have hmtu := timeouts_mtu serviceTime s.sender.sentReliableCommands { peer := s.sender }
      show _ ≤ (Timeouts.loop _ _ _).1.peer.mtu ∧ (Timeouts.loop _ _ _).1.peer.mtu ≤ _
      rw [hmtu]
      exact h.mtu
    obtain rfl : _ = t := Option.some.inj hs
    refine ⟨hpost.same rfl rfl, ?_⟩
    simp only
    split
    · rcases notifyDisconnect_cases (protocolCheckTimeouts s.sender serviceTime).1 deliver with
        he | he
      · rw [he]
        exact .inr (.reset l _)
      · rw [he]
        exact .inl (.withSender rfl rfl (hb'.congr rfl rfl rfl rfl) ⟨hc'.serial, hc'.planned⟩ hm)
    · exact .inl (.withSender rfl rfl hb' hc' hm)
  | reset =>
    obtain rfl : _ = t := Option.some.inj hs
    exact ⟨hpost.same rfl rfl, .inr (.reset l _)⟩
  | resetQueues =>
    obtain rfl : _ = t := Option.some.inj hs
    exact ⟨hpost.same rfl rfl, .inr (.resetQueues l _)⟩
  | acknowledged ack number =>
    change (if (ack, number) ∈ s.acks then _ else _) = some t at hs
    split at hs
    · cases hs
      exact ⟨hpost.same rfl rfl, .inl (.withSender rfl rfl (remove_sound hb _ _)
        (remove_carries hb h.carries _ _) (by rw [remove_mtu]; exact h.mtu))⟩
    · cases hs
  | otherAcknowledged number channelID =>
    change (if channelID ≠ l.channelID then _ else _) = some t at hs
    split at hs
    · cases hs
      exact ⟨hpost.same rfl rfl, .inl (.withSender rfl rfl (remove_sound hb _ _)
        (remove_carries hb h.carries _ _) (by rw [remove_mtu]; exact h.mtu))⟩
    · cases hs
  | sender p =>
    change (if protocolMinimumMtu ≤ p.mtu ∧ _ then _ else _) = some t at hs
    split at hs
    · next hm =>
      cases hs
      exact ⟨hpost.same rfl rfl, .inl (.withSender rfl rfl (hb.congr rfl rfl rfl rfl)
        ⟨h.carries.serial, h.carries.planned⟩ ⟨hm.1, hm.2.1⟩)⟩
    · cases hs
  | arrive c sentTime memory allocates =>
    change (if c ∈ s.network ∧ c.channelID = l.channelID then _ else _) = some t at hs
    split at hs
    · obtain ⟨m, -, hs⟩ := Option.bind_eq_some_iff.mp hs
      obtain ⟨r, -, rfl⟩ := Option.map_eq_some_iff.mp hs
      exact ⟨hpost.same rfl rfl, .inl ⟨h.sound, h.carries, h.mtu⟩⟩
    · cases hs
  | other m sentTime memory allocates =>
    change (if l.concerns m = true then _ else _) = some t at hs
    split at hs
    · cases hs
    · obtain ⟨r, -, rfl⟩ := Option.map_eq_some_iff.mp hs
      exact ⟨hpost.same rfl rfl, .inl ⟨h.sound, h.carries, h.mtu⟩⟩
  | receive =>
    obtain ⟨r, -, rfl⟩ := Option.map_eq_some_iff.mp hs
    exact ⟨hpost.same rfl rfl, .inl ⟨h.sound, h.carries, h.mtu⟩⟩
  | receiver p =>
    obtain rfl : _ = t := Option.some.inj hs
    exact ⟨hpost.same rfl rfl, .inl ⟨h.sound, h.carries, h.mtu⟩⟩

/-- Once its channels are gone they stay so. -/
theorem closed_step (h : Closed l s.sender) (hpost : Posted l s) {a : Act}
    (hs : Exchange.step l s a = some t) : Posted l t ∧ Closed l t.sender := by
  cases a with
  | send channelID packet allocates =>
    obtain ⟨p, hp, rfl⟩ := Option.map_eq_some_iff.mp hs
    exact absurd hp h.not_send
  | control c =>
    change (if c.channelID = 0xFF then _ else _) = some t at hs
    split at hs
    · next hctl =>
      cases hs
      exact ⟨hpost.same rfl rfl, h.control hctl hpost.control_ne⟩
    · cases hs
  | flush batch serviceTime =>
    obtain ⟨new, hsent, hbatch, -⟩ := flush_moved s.sender batch serviceTime
    have hclosed := h.flush batch serviceTime
    obtain rfl : _ = t := Option.some.inj hs
    refine ⟨⟨hpost.index, hpost.sendable, fun c hc hch => ?_⟩, hclosed⟩
    rcases List.mem_append.mp hc with hc | hc
    · exact hpost.network c hc hch
    · -- What is sent is none of the channel's.
      rw [hbatch, List.drop_left] at hc
      refine absurd hch (hclosed.commands c (List.mem_append_left _ ?_))
      rw [hsent]
      exact List.mem_append_right _ hc
  | timeouts serviceTime deliver =>
    have hclosed := h.checkTimeouts serviceTime
    obtain rfl : _ = t := Option.some.inj hs
    refine ⟨hpost.same rfl rfl, ?_⟩
    simp only
    split
    · exact hclosed.notifyDisconnect deliver
    · exact hclosed
  | reset =>
    obtain rfl : _ = t := Option.some.inj hs
    exact ⟨hpost.same rfl rfl, .reset l _⟩
  | resetQueues =>
    obtain rfl : _ = t := Option.some.inj hs
    exact ⟨hpost.same rfl rfl, .resetQueues l _⟩
  | acknowledged ack number =>
    change (if (ack, number) ∈ s.acks then _ else _) = some t at hs
    split at hs
    · cases hs
      exact ⟨hpost.same rfl rfl, h.remove _ _⟩
    · cases hs
  | otherAcknowledged number channelID =>
    change (if channelID ≠ l.channelID then _ else _) = some t at hs
    split at hs
    · cases hs
      exact ⟨hpost.same rfl rfl, h.remove _ _⟩
    · cases hs
  | sender p =>
    change (if protocolMinimumMtu ≤ p.mtu ∧ _ then _ else _) = some t at hs
    split at hs
    · cases hs
      exact ⟨hpost.same rfl rfl, ⟨h.channelCount, h.channel, h.commands⟩⟩
    · cases hs
  | arrive c sentTime memory allocates =>
    change (if c ∈ s.network ∧ c.channelID = l.channelID then _ else _) = some t at hs
    split at hs
    · obtain ⟨m, -, hs⟩ := Option.bind_eq_some_iff.mp hs
      obtain ⟨r, -, rfl⟩ := Option.map_eq_some_iff.mp hs
      exact ⟨hpost.same rfl rfl, h⟩
    · cases hs
  | other m sentTime memory allocates =>
    change (if l.concerns m = true then _ else _) = some t at hs
    split at hs
    · cases hs
    · obtain ⟨r, -, rfl⟩ := Option.map_eq_some_iff.mp hs
      exact ⟨hpost.same rfl rfl, h⟩
  | receive =>
    obtain ⟨r, -, rfl⟩ := Option.map_eq_some_iff.mp hs
    exact ⟨hpost.same rfl rfl, h⟩
  | receiver p =>
    obtain rfl : _ = t := Option.some.inj hs
    exact ⟨hpost.same rfl rfl, h⟩

theorem Sends.step (h : Sends l s) {a : Act} (hs : Exchange.step l s a = some t) : Sends l t := by
  rcases h.2 with hold | hclosed
  · exact hold.step h.1 hs
  · obtain ⟨hpost, hclosed⟩ := closed_step hclosed h.1 hs
    exact ⟨hpost, .inr hclosed⟩

/-- The commands of a channel in a window that were sent and wait for their
acknowledgement. -/
def inFlight (channelID : UInt8) (w : Nat) (cs : List Outgoing) : Nat :=
  cs.countP fun c => c.channelID == channelID && decide (1 ≤ c.sendAttempts ∧ c.window = w)

theorem countP_triedOn {i w : Nat} {channelID : UInt8} {cs : List Outgoing}
    (hi : channelID.toNat = i) (hn : ∀ c ∈ cs, c.channelID.toNat = i →
      c.reliableSequenceNumber = UInt16.ofNat c.serial ∧ c.packet.isSome = true) :
    (triedOn i cs).countP (fun n => n / 4096 % 16 = w) = inFlight channelID w cs := by
  unfold triedOn inFlight
  rw [List.countP_map, List.countP_filter]
  refine List.countP_congr fun c hc => ?_
  unfold Outgoing.onChannel Outgoing.isTried
  simp only [Function.comp, Bool.and_eq_true, decide_eq_true_eq, beq_iff_eq]
  constructor
  · rintro ⟨hw, hch, htried⟩
    exact ⟨UInt8.toNat_inj.mp (hch.trans hi.symm), htried,
      (window_of_number (hn c hc hch).1).1.trans hw⟩
  · rintro ⟨hch, htried, hw⟩
    have hch := (congrArg UInt8.toNat hch).trans hi
    exact ⟨(window_of_number (hn c hc hch).1).1.symm.trans hw, hch, htried⟩

/-- The windows of the channel count the commands that are on their way. -/
theorem windows_exact {s₀ : Exchange} {as : List Act} (h₀ : (exchange l).start s₀)
    (hr : (exchange l).run s₀ as = some s) (w : Nat) (hw : w < 16) :
    (s.sender.channels l.index).reliableWindows w = inFlight l.channelID w s.sender.reliable ∧
      ((s.sender.channels l.index).usedReliableWindows.testBit w = true ↔
        0 < inFlight l.channelID w s.sender.reliable) := by
  obtain ⟨-, hold | hclosed⟩ := Machine.run_invariant (I := Sends l)
    (fun s a t h hs => h.step hs) ⟨.fresh h₀, .inl (.fresh h₀)⟩ hr
  · obtain ⟨base, hb⟩ := hold.sound
    have hcount := hb.flight.counts w hw
    rw [countP_triedOn (i := l.index) rfl hb.numbers] at hcount
    exact ⟨hcount, hcount ▸ hb.flight.bits w hw⟩
  · have hnone : inFlight l.channelID w s.sender.reliable = 0 := by
      rw [inFlight, List.countP_eq_zero]
      intro c hc
      rw [beq_eq_false_iff_ne.mpr (hclosed.commands c hc)]
      simp
    rw [hnone, hclosed.channel]
    simp

theorem windows_exact_onePacket : ∃ s,
    (exchange .single).run connected (onePacket.take 2) = some s ∧
    inFlight 0 0 s.sender.reliable = 1 ∧ (s.sender.channels 0).reliableWindows 0 = 1 :=
  ⟨_, rfl, by decide +kernel, ((windows_exact connected_fresh
    (show (exchange .single).run connected (onePacket.take 2) = some _ from rfl) 0
    (by decide)).1).trans (by decide +kernel)⟩

end Exchange
end Transport
