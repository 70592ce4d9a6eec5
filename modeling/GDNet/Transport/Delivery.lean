import GDNet.Transport.Datagram
import GDNet.Transport.Plan

/-!
# From one peer to the other

What a queued command is on the wire, and what the other host does with it: the
handler of its kind, and the acknowledgement where it asks for one.
-/

namespace Transport
open ENet (PeerState Packet ProtocolCommand protocolMaximumFragmentCount)

/-! ## On the wire -/

def Outgoing.flags (c : Outgoing) : Fin 16 :=
  if c.acknowledge then flagAcknowledge else if c.unsequenced then flagUnsequenced else noFlags

def Outgoing.fragmentFields (c : Outgoing) : SendFragment :=
  { startSequenceNumber := c.startSequenceNumber
    dataLength := UInt16.ofNat c.fragmentLength
    fragmentCount := UInt32.ofNat c.fragmentCount
    fragmentNumber := UInt32.ofNat c.fragmentNumber
    totalLength := UInt32.ofNat ((c.packet.map Packet.dataLength).getD 0)
    fragmentOffset := UInt32.ofNat c.fragmentOffset }

/-- The command of a packet or a piece of one; the other commands have their fields
from elsewhere. -/
def Outgoing.protocol (c : Outgoing) : Option Protocol :=
  let fields : Option ((k : ProtocolCommand) × Fields k) :=
    match c.command with
    | .sendReliable => some ⟨.sendReliable, UInt16.ofNat c.fragmentLength⟩
    | .sendUnreliable =>
      some ⟨.sendUnreliable, ⟨c.unreliableSequenceNumber, UInt16.ofNat c.fragmentLength⟩⟩
    | .sendUnsequenced =>
      some ⟨.sendUnsequenced, ⟨c.unsequencedGroup, UInt16.ofNat c.fragmentLength⟩⟩
    | .sendFragment => some ⟨.sendFragment, c.fragmentFields⟩
    | .sendUnreliableFragment => some ⟨.sendUnreliableFragment, c.fragmentFields⟩
    | _ => none
  fields.map fun f =>
    { flags := c.flags
      command := f.1
      channelID := c.channelID
      reliableSequenceNumber := c.reliableSequenceNumber
      fields := f.2 }

/-- The bytes of the packet that the command carries. -/
def Outgoing.payload (c : Outgoing) : List UInt8 :=
  match c.packet with
  | some packet => (packet.data.drop c.fragmentOffset).take c.fragmentLength
  | none => []

def Outgoing.wire (c : Outgoing) : Option Message :=
  match c.protocol with
  | none => none
  | some p =>
    if h : p.command ≠ .none ∧ c.payload.length = p.dataLength then
      some { protocol := p, data := c.payload, isCommand := h.1, length_data := h.2 }
    else none

theorem wire_message (c : Outgoing) : c.message.wire = c.wire := rfl

/-! ## Handlers -/

def SendFragment.fragment (f : SendFragment) : Fragment :=
  { fragmentCount := f.fragmentCount.toNat
    fragmentNumber := f.fragmentNumber.toNat
    totalLength := f.totalLength.toNat
    fragmentOffset := f.fragmentOffset.toNat }

/-- The switch of `enet_protocol_handle_incoming_commands`, for the commands that
carry packets.  The others do not change what waits to be received; `none` is a use
of freed memory. -/
def handleCommand (p : Inbound) (m : Message) (memory : Option (Nat → UInt8)) : Option Handled :=
  let channelID := m.protocol.channelID
  let reliable := m.protocol.reliableSequenceNumber
  match m.protocol.command, m.protocol.fields with
  | .sendReliable, _ =>
    some (protocolHandleSendReliable p channelID reliable m.data memory.isSome)
  | .sendUnreliable, f =>
    some (protocolHandleSendUnreliable p channelID reliable
      (SendUnreliable.unreliableSequenceNumber f) m.data memory.isSome)
  | .sendUnsequenced, f =>
    some (protocolHandleSendUnsequenced p channelID reliable (SendUnsequenced.unsequencedGroup f)
      m.data memory.isSome)
  | .sendFragment, f =>
    some (protocolHandleSendFragment p channelID (SendFragment.startSequenceNumber f)
      (SendFragment.fragment f) m.data memory)
  | .sendUnreliableFragment, f =>
    protocolHandleSendUnreliableFragment p channelID reliable (SendFragment.startSequenceNumber f)
      (SendFragment.fragment f) m.data memory
  | _, _ => some ⟨p, false⟩

/-- In this state the command is acknowledged. -/
def acknowledgesIn (state : PeerState) (command : ProtocolCommand) : Bool :=
  match state with
  | .disconnecting | .acknowledgingConnect | .disconnected | .zombie => false
  | .acknowledgingDisconnect => command == .disconnect
  | _ => true

/-- What one command leaves, and whether the loop goes on. -/
structure Turned where
  peer : Inbound
  continues : Bool

/-- One turn of the loop of `enet_protocol_handle_incoming_commands`; `sentTime` is
that of the header, if it has one. -/
def handleIncomingCommand (p : Inbound) (sentTime : Option UInt16) (m : Message)
    (memory : Option (Nat → UInt8)) (allocates : Bool) : Option Turned :=
  (handleCommand p m memory).map fun h =>
    if h.error then ⟨h.peer, false⟩
    else if m.protocol.acknowledges then
      match sentTime with
      | none => ⟨h.peer, false⟩
      | some time =>
        if acknowledgesIn h.peer.state m.protocol.command then
          ⟨peerQueueAcknowledgement h.peer
            ⟨m.protocol.command, m.protocol.channelID, m.protocol.reliableSequenceNumber⟩ time
            allocates, true⟩
        else ⟨h.peer, true⟩
    else ⟨h.peer, true⟩

/-! ## The commands of the plan -/

/-- The bounds that `enet_peer_send` keeps to with the largest `mtu`. -/
structure Parcel.Sendable (q : Parcel) : Prop where
  pieceLength : q.pieceLength ≤ 4068
  count : q.count ≤ protocolMaximumFragmentCount

theorem Parcel.Sendable.length {q : Parcel} (h : q.Sendable) : q.data.length < 4294967296 := by
  have h₁ := h.pieceLength
  have h₂ := h.count
  unfold protocolMaximumFragmentCount at h₂
  by_cases hf : q.fragmented = true
  · have hlast : ¬q.count < q.count := Nat.lt_irrefl _
    rw [Parcel.lt_count_iff hf, Nat.not_lt] at hlast
    calc q.data.length ≤ q.count * q.pieceLength := hlast
      _ ≤ 1048576 * 4068 := Nat.mul_le_mul h₂ h₁
      _ < 4294967296 := by decide
  · have := mt Parcel.fragmented_iff.mpr hf
    omega

theorem toNat_ofNat32 {n : Nat} (h : n < 4294967296) : (UInt32.ofNat n).toNat = n := by
  rw [UInt32.toNat_ofNat']
  exact Nat.mod_eq_of_lt h

theorem wire_eq {c : Outgoing} {p : Protocol} (hp : c.protocol = some p) (hc : p.command ≠ .none)
    (hl : c.payload.length = p.dataLength) :
    c.wire = some { protocol := p, data := c.payload, isCommand := hc, length_data := hl } := by
  unfold Outgoing.wire
  rw [hp]
  exact dif_pos ⟨hc, hl⟩

theorem toNat_ofNat16 {n : Nat} (h : n < 65536) : (UInt16.ofNat n).toNat = n := by
  rw [UInt16.toNat_ofNat']
  exact Nat.mod_eq_of_lt h

theorem acknowledges_flag : flagAcknowledge.val.testBit 3 = true := by decide

/-- A command of the plan comes to the handler of the stream. -/
theorem command_wire {a : Arrival} (hs : a.parcel.Sendable) (channelID : UInt8) (flags : UInt32) :
    ∃ m, (a.command channelID flags).wire = some m ∧ m.protocol.channelID = channelID ∧
      m.protocol.reliableSequenceNumber = UInt16.ofNat a.number ∧
      isReliable m.protocol.command = true ∧ m.protocol.acknowledges = true ∧
      ∀ p memory, handleCommand p m memory = some (receive p channelID a memory) := by
  have hlength := hs.length
  have hpiece := hs.pieceLength
  by_cases hf : a.parcel.fragmented = true
  · have hcount := hs.count
    have hindex := a.index_lt
    have hoff := (Parcel.lt_count_iff hf).mp hindex
    have hlen := Parcel.piece_length a.parcel a.index
    unfold protocolMaximumFragmentCount at hcount
    have hpayload : (a.command channelID flags).payload = a.parcel.piece a.index := by
      unfold Arrival.command Outgoing.payload
      simp only [hf, if_true]
      show (a.parcel.data.drop (a.index * a.parcel.pieceLength)).take
        (a.parcel.piece a.index).length = _
      rw [Parcel.piece, List.length_take, ← List.take_take, List.take_length]
    obtain ⟨f, hfields⟩ : ∃ f : SendFragment, f =
      { startSequenceNumber := UInt16.ofNat a.start
        dataLength := UInt16.ofNat (a.parcel.piece a.index).length
        fragmentCount := UInt32.ofNat a.parcel.count
        fragmentNumber := UInt32.ofNat a.index
        totalLength := UInt32.ofNat a.parcel.data.length
        fragmentOffset := UInt32.ofNat (a.index * a.parcel.pieceLength) } := ⟨_, rfl⟩
    have hprotocol : (a.command channelID flags).protocol = some
        { flags := flagAcknowledge
          command := .sendFragment
          channelID := channelID
          reliableSequenceNumber := UInt16.ofNat a.number
          fields := f } := by
      rw [hfields]
      unfold Arrival.command
      simp only [hf, if_true]
      rfl
    have hdata : (SendFragment.dataLength f).toNat = (a.parcel.piece a.index).length := by
      rw [hfields]
      exact toNat_ofNat16 (by omega)
    have hfragment : SendFragment.fragment f = a.parcel.fragment a.index := by
      rw [hfields]
      unfold SendFragment.fragment Parcel.fragment
      simp only [toNat_ofNat32 (show a.parcel.count < 4294967296 by omega),
        toNat_ofNat32 (show a.index < 4294967296 by omega), toNat_ofNat32 hlength,
        toNat_ofNat32 (Nat.lt_trans hoff hlength)]
    refine ⟨_, wire_eq hprotocol (fun h => by cases h) ?_, rfl, rfl, rfl, acknowledges_flag,
      fun p memory => ?_⟩
    · rw [hpayload]
      exact hdata.symm
    · show some (protocolHandleSendFragment p channelID f.startSequenceNumber
        (SendFragment.fragment f) (a.command channelID flags).payload memory) = _
      rw [hfragment, hpayload, receive, if_pos hf, hfields]
  · have hshort := mt Parcel.fragmented_iff.mpr hf
    have hpayload : (a.command channelID flags).payload = a.parcel.data := by
      unfold Arrival.command Outgoing.payload
      simp only [hf, Bool.false_eq_true, if_false]
      exact List.take_length
    have hprotocol : (a.command channelID flags).protocol = some
        { flags := flagAcknowledge
          command := .sendReliable
          channelID := channelID
          reliableSequenceNumber := UInt16.ofNat a.number
          fields := UInt16.ofNat a.parcel.data.length } := by
      unfold Arrival.command
      simp only [hf, Bool.false_eq_true, if_false]
      rfl
    have hstart : a.number = a.start := by
      have hindex := a.index_lt
      rw [Parcel.count_of_whole (by simpa using hf)] at hindex
      rw [Arrival.number]
      omega
    refine ⟨_, wire_eq hprotocol (fun h => by cases h) ?_, rfl, rfl, rfl, acknowledges_flag,
      fun p memory => ?_⟩
    · rw [hpayload]
      exact (toNat_ofNat16 (by omega)).symm
    · show some (protocolHandleSendReliable p channelID (UInt16.ofNat a.number)
        (a.command channelID flags).payload memory.isSome) = _
      rw [hpayload, receive, if_neg hf, hstart]

theorem Planned.wire {plan : List Parcel} {channelID : UInt8} {c : Outgoing} {a : Arrival}
    (h : Planned plan channelID c a) (hs : a.parcel.Sendable) :
    ∃ m, c.wire = some m ∧ m.protocol.channelID = channelID ∧
      m.protocol.reliableSequenceNumber = UInt16.ofNat a.number ∧
      isReliable m.protocol.command = true ∧ m.protocol.acknowledges = true ∧
      ∀ p memory, handleCommand p m memory = some (receive p channelID a memory) := by
  obtain ⟨-, flags, hc⟩ := h
  rw [← wire_message, hc]
  exact command_wire hs channelID flags

/-! ## What a turn changes -/

theorem handleCommand_step {p : Inbound} {m : Message} {memory : Option (Nat → UInt8)} {h : Handled}
    (hh : handleCommand p m memory = some h) :
    ∃ r, (p.channels m.protocol.channelID.toNat).Step m.protocol.channelID.toNat
        m.protocol.command r ∧ p.Became h.peer m.protocol.channelID.toNat r := by
  unfold handleCommand at hh
  simp only at hh
  split at hh
  case h_1 hk _ =>
    rw [← Option.some.inj hh, hk]
    exact handleSend_step ..
  case h_2 hk _ =>
    rw [← Option.some.inj hh, hk]
    exact handleSend_step ..
  case h_3 hk _ =>
    rw [← Option.some.inj hh, hk]
    exact sendUnsequenced_step ..
  case h_4 hk _ =>
    rw [← Option.some.inj hh, hk]
    exact sendFragment_step ..
  case h_5 hk _ =>
    rw [hk]
    exact sendUnreliableFragment_step hh
  case h_6 =>
    rw [← Option.some.inj hh]
    exact ⟨_, .same, .same p _⟩

/-- An acknowledgement that is queued changes nothing else. -/
theorem queueAcknowledgement_became {p q : Inbound} {i : Nat} {r : Channel × List IncomingCommand}
    (h : p.Became q i r) (header : CommandHeader) (sentTime : UInt16) (allocates : Bool) :
    p.Became (peerQueueAcknowledgement q header sentTime allocates) i r := by
  unfold peerQueueAcknowledgement
  simp only
  split
  · exact h
  · split
    · exact h
    · exact ⟨h.channels, h.dispatchedCommands, h.state, h.channelCount⟩

/-- A turn of the loop is its handler, and perhaps an acknowledgement. -/
theorem handleIncomingCommand_cases {p : Inbound} {sentTime : Option UInt16} {m : Message}
    {memory : Option (Nat → UInt8)} {allocates : Bool} {t : Turned}
    (ht : handleIncomingCommand p sentTime m memory allocates = some t) :
    ∃ h, handleCommand p m memory = some h ∧
      (t.peer = h.peer ∨ h.error = false ∧ ∃ time, sentTime = some time ∧
        m.protocol.acknowledges = true ∧
        t.peer = peerQueueAcknowledgement h.peer
          ⟨m.protocol.command, m.protocol.channelID, m.protocol.reliableSequenceNumber⟩ time
          allocates) := by
  obtain ⟨h, hh, rfl⟩ := Option.map_eq_some_iff.mp ht
  refine ⟨h, hh, ?_⟩
  split
  · exact .inl rfl
  · next he =>
    split
    · next hack =>
      cases sentTime with
      | none => exact .inl rfl
      | some time =>
        simp only
        split
        · exact .inr ⟨by simpa using he, time, rfl, hack, rfl⟩
        · exact .inl rfl
    · exact .inl rfl

theorem handleIncomingCommand_step {p : Inbound} {sentTime : Option UInt16} {m : Message}
    {memory : Option (Nat → UInt8)} {allocates : Bool} {t : Turned}
    (ht : handleIncomingCommand p sentTime m memory allocates = some t) :
    ∃ r, (p.channels m.protocol.channelID.toNat).Step m.protocol.channelID.toNat
        m.protocol.command r ∧ p.Became t.peer m.protocol.channelID.toNat r := by
  obtain ⟨h, hh, hpeer⟩ := handleIncomingCommand_cases ht
  obtain ⟨r, hs, hb⟩ := handleCommand_step hh
  refine ⟨r, hs, ?_⟩
  rcases hpeer with hpeer | ⟨-, time, -, -, hpeer⟩
  · rw [hpeer]
    exact hb
  · rw [hpeer]
    exact queueAcknowledgement_became hb _ time allocates

end Transport
