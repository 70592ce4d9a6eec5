import GDNet.ENet.Types
import GDNet.Ring.Search
import Mathlib.Data.Finset.Basic
import Mathlib.Logic.Function.Basic

/-!
# Incoming commands

The half of a peer that puts what arrives in order.  A reliable command, or the
packet a reliable fragment belongs to, waits in `incomingReliableCommands` of its
channel until it is complete and next; what is not reliable waits in
`incomingUnreliableCommands` for the reliable commands that were sent before it.
From there both go to `dispatchedCommands`, where `enet_peer_receive` takes them.

Numbers have 16 bits.  `number` is read as ahead of `current` by less than half of
them, sixteen windows of 4096, and is taken only if that is less than seven windows.

`memory` is what an allocation finds, `none` one that fails.
-/

namespace Transport
open ENet (PeerState Packet ProtocolCommand protocolMaximumFragmentCount packetFlagReliable
  packetFlagUnsequenced packetFlagUnreliableFragment)
open Search

def reliableWindowSize : Nat := 0x1000
def reliableWindows : Nat := 16
def freeReliableWindows : Nat := 8

structure IncomingCommand where
  reliableSequenceNumber : UInt16
  unreliableSequenceNumber : UInt16
  command : ProtocolCommand
  channelID : UInt8
  fragmentCount : Nat
  fragmentsRemaining : Nat
  /-- The bits that are set. -/
  fragments : Finset Nat
  packet : Packet
  /-- The caller of `enet_peer_queue_incoming_command` holds a pointer to it. -/
  held : Bool := false
deriving DecidableEq

/-- The receiving half of `ENetChannel`. -/
structure Channel where
  incomingReliableSequenceNumber : UInt16 := 0
  incomingUnreliableSequenceNumber : UInt16 := 0
  incomingReliableCommands : List IncomingCommand := []
  incomingUnreliableCommands : List IncomingCommand := []

structure Acknowledgement where
  command : ProtocolCommand
  channelID : UInt8
  reliableSequenceNumber : UInt16
  sentTime : UInt16
deriving DecidableEq, Repr

/-- The receiving half of `ENetPeer`, with the two limits of its host. -/
structure Inbound where
  state : PeerState
  channelCount : Nat
  channels : Nat → Channel
  dispatchedCommands : List IncomingCommand
  totalWaitingData : Nat
  incomingUnsequencedGroup : UInt16
  unsequencedWindow : Finset Nat
  acknowledgements : List Acknowledgement
  maximumPacketSize : Nat
  maximumWaitingData : Nat

/-- The fields of a command that put it in order. -/
structure CommandHeader where
  command : ProtocolCommand
  channelID : UInt8
  reliableSequenceNumber : UInt16
deriving DecidableEq, Repr

/-! ## Windows -/

/-- The window of a number, read as one that is not behind `current`. -/
def reliableWindow (number current : UInt16) : Nat :=
  number.toNat / reliableWindowSize + if number < current then reliableWindows else 0

/-- A number that is taken. -/
def inWindow (number current : UInt16) : Bool :=
  current.toNat / reliableWindowSize ≤ reliableWindow number current &&
    reliableWindow number current <
      current.toNat / reliableWindowSize + freeReliableWindows - 1

/-! ## Places -/

/-- The search of a reliable command among those that wait. -/
def reliableTurn (current number : UInt16) (c : IncomingCommand) : Turn :=
  if number ≥ current ∧ c.reliableSequenceNumber < current then .next
  else if ¬number ≥ current ∧ c.reliableSequenceNumber ≥ current then .stop
  else if c.reliableSequenceNumber ≤ number then
    if c.reliableSequenceNumber < number then .stop else .hit
  else .next

/-- The search of an unreliable command. -/
def unreliableTurn (current number unreliable : UInt16) (c : IncomingCommand) : Turn :=
  if number ≥ current ∧ c.reliableSequenceNumber < current then .next
  else if ¬number ≥ current ∧ c.reliableSequenceNumber ≥ current then .stop
  else if c.reliableSequenceNumber < number then .stop
  else if c.reliableSequenceNumber > number then .next
  else if c.unreliableSequenceNumber ≤ unreliable then
    if c.unreliableSequenceNumber < unreliable then .stop else .hit
  else .next

/-! ## Dispatch -/

/-- The loop of `enet_peer_dispatch_incoming_unreliable_commands`.  `before` is what
stays in front of `startCommand`, `run` reaches from there to `currentCommand`, and
`dropped` counts what is in front of `droppedCommand`. -/
structure Sweep where
  unreliable : UInt16
  dispatched : List IncomingCommand
  before : List IncomingCommand
  run : List IncomingCommand
  dropped : Nat

/-- The commands of the run go to `dispatchedCommands`. -/
def Sweep.move (s : Sweep) : Sweep :=
  { s with dispatched := s.dispatched ++ s.run, run := [] }

/-- A command that is not moved becomes the last one in front of `startCommand`. -/
def Sweep.pass (s : Sweep) (c : IncomingCommand) (dropped : Nat) : Sweep :=
  { s.move with before := s.before ++ [c], dropped := dropped }

def Sweep.turn (current : UInt16) (s : Sweep) (c : IncomingCommand) : Option Sweep :=
  if c.command = .sendUnsequenced then some { s with run := s.run ++ [c] }
  else if c.reliableSequenceNumber = current then
    if c.fragmentsRemaining = 0 then
      some { s with unreliable := c.unreliableSequenceNumber, run := s.run ++ [c] }
    else if s.run ≠ [] then some (s.pass c s.before.length)
    else if s.dropped ≠ s.before.length then some (s.pass c (s.before.length - 1))
    else some (s.pass c s.dropped)
  else if inWindow c.reliableSequenceNumber current then none
  else some (s.pass c (s.before.length + 1))

/-- The loop, and the commands it does not come to. -/
def Sweep.loop (current : UInt16) : Sweep → List IncomingCommand → Sweep × List IncomingCommand
  | s, [] => (s, [])
  | s, c :: rest =>
    match s.turn current c with
    | some s => s.loop current rest
    | none => (s, c :: rest)

/-- `enet_peer_dispatch_incoming_unreliable_commands`, with the commands that go to
`dispatchedCommands`. -/
def Channel.dispatchUnreliable (c : Channel) : Channel × List IncomingCommand :=
  let r := Sweep.loop c.incomingReliableSequenceNumber
    { unreliable := c.incomingUnreliableSequenceNumber, dispatched := [], before := [], run := [],
      dropped := 0 } c.incomingUnreliableCommands
  let dropped := if r.1.run ≠ [] then r.1.before.length else r.1.dropped
  ({ c with
      incomingUnreliableSequenceNumber := r.1.unreliable
      incomingUnreliableCommands := (r.1.before ++ r.2).drop dropped },
    r.1.dispatched ++ r.1.run)

/-- The loop of `enet_peer_dispatch_incoming_reliable_commands`: the number it comes
to, the commands it passes and the rest. -/
def dispatchReliableLoop : UInt16 → List IncomingCommand →
    UInt16 × List IncomingCommand × List IncomingCommand
  | number, [] => (number, [], [])
  | number, c :: rest =>
    if c.fragmentsRemaining > 0 ∨ c.reliableSequenceNumber ≠ number + 1 then
      (number, [], c :: rest)
    else
      let r := dispatchReliableLoop
        (if c.fragmentCount > 0 then c.reliableSequenceNumber + UInt16.ofNat (c.fragmentCount - 1)
          else c.reliableSequenceNumber) rest
      (r.1, c :: r.2.1, r.2.2)

/-- `enet_peer_dispatch_incoming_reliable_commands`. -/
def Channel.dispatchReliable (c : Channel) : Channel × List IncomingCommand :=
  let r := dispatchReliableLoop c.incomingReliableSequenceNumber c.incomingReliableCommands
  if r.2.1 = [] then (c, [])
  else
    let c := { c with
      incomingReliableSequenceNumber := r.1
      incomingUnreliableSequenceNumber := 0
      incomingReliableCommands := r.2.2 }
    if c.incomingUnreliableCommands = [] then (c, r.2.1)
    else
      let u := c.dispatchUnreliable
      (u.1, r.2.1 ++ u.2)

namespace Inbound

/-- A channel of the peer after a dispatch. -/
def dispatched (p : Inbound) (i : Nat) (r : Channel × List IncomingCommand) : Inbound :=
  { p with
    channels := Function.update p.channels i r.1
    dispatchedCommands := p.dispatchedCommands ++ r.2 }

end Inbound

/-! ## Queueing -/

/-- Where `enet_peer_queue_incoming_command` puts a command, as what is in front of it
and behind it in its list; `none` is a command that is discarded. -/
def Channel.place (c : Channel) (h : CommandHeader) (unreliable : UInt16) :
    Option (List IncomingCommand × List IncomingCommand) :=
  let current := c.incomingReliableSequenceNumber
  let number := h.reliableSequenceNumber
  match h.command with
  | .sendFragment | .sendReliable =>
    if number = current then none
    else
      match search (reliableTurn current number) c.incomingReliableCommands with
      | .between before after => some (before, after)
      | .found .. => none
  | .sendUnreliable | .sendUnreliableFragment =>
    if number = current ∧ unreliable ≤ c.incomingUnreliableSequenceNumber then none
    else
      match search (unreliableTurn current number unreliable) c.incomingUnreliableCommands with
      | .between before after => some (before, after)
      | .found .. => none
  | .sendUnsequenced => some ([], c.incomingUnreliableCommands)
  | _ => none

/-- A command goes into the list of its kind, and what is ready leaves both. -/
def Channel.insert (c : Channel) (command : ProtocolCommand) (cs : List IncomingCommand) :
    Channel × List IncomingCommand :=
  match command with
  | .sendFragment | .sendReliable => { c with incomingReliableCommands := cs }.dispatchReliable
  | _ => { c with incomingUnreliableCommands := cs }.dispatchUnreliable

/-- What `enet_peer_queue_incoming_command` returns: NULL, the dummy command or the
new one. -/
inductive Queued where
  | error
  | discarded
  | queued (p : Inbound)

def discardCommand (fragmentCount : Nat) : Queued :=
  if fragmentCount > 0 then .error else .discarded

def queuedCommand (h : CommandHeader) (unreliable : UInt16) (flags : UInt32) (fragmentCount : Nat)
    (data : List UInt8) : IncomingCommand :=
  { reliableSequenceNumber := h.reliableSequenceNumber
    unreliableSequenceNumber := unreliable
    command := h.command
    channelID := h.channelID
    fragmentCount := fragmentCount
    fragmentsRemaining := fragmentCount
    fragments := ∅
    packet := { flags := flags, data := data }
    held := decide (fragmentCount > 0) }

/-- `enet_peer_queue_incoming_command`.  `memory` is the packet's data. -/
def peerQueueIncomingCommand (p : Inbound) (h : CommandHeader) (unreliable : UInt16)
    (flags : UInt32) (fragmentCount : Nat) (memory : Option (List UInt8)) : Queued :=
  let i := h.channelID.toNat
  if p.state = .disconnectLater then discardCommand fragmentCount
  else if h.command ≠ .sendUnsequenced ∧
      !inWindow h.reliableSequenceNumber (p.channels i).incomingReliableSequenceNumber then
    discardCommand fragmentCount
  else
    match (p.channels i).place h unreliable with
    | none => discardCommand fragmentCount
    | some (before, after) =>
      if p.totalWaitingData ≥ p.maximumWaitingData then .error
      else
        match memory with
        | none => .error
        | some data =>
          if fragmentCount > protocolMaximumFragmentCount then .error
          else
            let c := queuedCommand h unreliable flags fragmentCount data
            .queued ({ p with totalWaitingData := p.totalWaitingData + data.length }.dispatched i
              ((p.channels i).insert h.command (before ++ c :: after)))

/-! ## Handlers -/

/-- What a handler leaves; an error ends the datagram. -/
structure Handled where
  peer : Inbound
  error : Bool := false

/-- The checks of all five handlers. -/
def refused (p : Inbound) (channelID : UInt8) (data : List UInt8) : Bool :=
  decide (channelID.toNat ≥ p.channelCount ∨
    p.state ≠ .connected ∧ p.state ≠ .disconnectLater ∨ data.length > p.maximumPacketSize)

def Queued.handled (p : Inbound) : Queued → Handled
  | .error => ⟨p, true⟩
  | .discarded => ⟨p, false⟩
  | .queued p => ⟨p, false⟩

/-- A handler that queues the command as it is. -/
def handleSend (command : ProtocolCommand) (flags : UInt32) (p : Inbound) (channelID : UInt8)
    (reliable unreliable : UInt16) (data : List UInt8) (allocates : Bool) : Handled :=
  if refused p channelID data then ⟨p, true⟩
  else (peerQueueIncomingCommand p ⟨command, channelID, reliable⟩ unreliable flags 0
    (if allocates then some data else none)).handled p

/-- `enet_protocol_handle_send_reliable`. -/
def protocolHandleSendReliable (p : Inbound) (channelID : UInt8) (reliable : UInt16)
    (data : List UInt8) (allocates : Bool) : Handled :=
  handleSend .sendReliable packetFlagReliable p channelID reliable 0 data allocates

/-- `enet_protocol_handle_send_unreliable`. -/
def protocolHandleSendUnreliable (p : Inbound) (channelID : UInt8) (reliable unreliable : UInt16)
    (data : List UInt8) (allocates : Bool) : Handled :=
  handleSend .sendUnreliable 0 p channelID reliable unreliable data allocates

def unsequencedWindowSize : Nat := 1024
def freeUnsequencedWindows : Nat := 32

/-- `enet_protocol_handle_send_unsequenced`. -/
def protocolHandleSendUnsequenced (p : Inbound) (channelID : UInt8) (reliable group : UInt16)
    (data : List UInt8) (allocates : Bool) : Handled :=
  if refused p channelID data then ⟨p, true⟩
  else
    let index := group.toNat % unsequencedWindowSize
    let number := group.toNat + if group < p.incomingUnsequencedGroup then 0x10000 else 0
    if number ≥ p.incomingUnsequencedGroup.toNat + freeUnsequencedWindows * unsequencedWindowSize
    then ⟨p, false⟩
    else if group.toNat - index ≠ p.incomingUnsequencedGroup.toNat then
      let p := { p with
        incomingUnsequencedGroup := UInt16.ofNat (group.toNat - index)
        unsequencedWindow := ∅ }
      queue p index
    else if index ∈ p.unsequencedWindow then ⟨p, false⟩
    else queue p index
where
  queue (p : Inbound) (index : Nat) : Handled :=
    match peerQueueIncomingCommand p ⟨.sendUnsequenced, channelID, reliable⟩ 0
        packetFlagUnsequenced 0 (if allocates then some data else none) with
    | .error => ⟨p, true⟩
    | .discarded => ⟨{ p with unsequencedWindow := insert index p.unsequencedWindow }, false⟩
    | .queued p => ⟨{ p with unsequencedWindow := insert index p.unsequencedWindow }, false⟩

/-- The numbers of a fragment. -/
structure Fragment where
  fragmentCount : Nat
  fragmentNumber : Nat
  totalLength : Nat
  fragmentOffset : Nat
deriving DecidableEq, Repr

/-- The checks on the numbers of a fragment. -/
def Fragment.malformed (f : Fragment) (p : Inbound) (fragmentLength : Nat) : Bool :=
  decide (f.fragmentCount > protocolMaximumFragmentCount ∨ f.fragmentNumber ≥ f.fragmentCount ∨
    f.totalLength > p.maximumPacketSize ∨ f.fragmentOffset ≥ f.totalLength ∨
    fragmentLength > f.totalLength - f.fragmentOffset)

/-- `memcpy` into the data of a packet. -/
def writeAt (data : List UInt8) (offset : Nat) (bytes : List UInt8) : List UInt8 :=
  data.take offset ++ bytes ++ data.drop (offset + bytes.length)

/-- The end of both fragment handlers, up to the dispatch, for a fragment whose bit
is not set. -/
def IncomingCommand.store (c : IncomingCommand) (f : Fragment) (data : List UInt8) :
    IncomingCommand :=
  { c with
    fragmentsRemaining := c.fragmentsRemaining - 1
    fragments := insert f.fragmentNumber c.fragments
    packet := { c.packet with
      data := writeAt c.packet.data f.fragmentOffset
        (if f.fragmentOffset + data.length > c.packet.data.length then
          data.take (c.packet.data.length - f.fragmentOffset) else data) } }

/-- The search of a fragment handler says that the fragment does not fit the packet
found. -/
def IncomingCommand.conflicts (c : IncomingCommand) (command : ProtocolCommand) (f : Fragment) :
    Bool :=
  decide (c.command ≠ command ∨ f.totalLength ≠ c.packet.data.length ∨
    f.fragmentCount ≠ c.fragmentCount)

/-- The command that the caller holds is let go of. -/
def release (f : IncomingCommand → IncomingCommand) (cs : List IncomingCommand) :
    List IncomingCommand :=
  cs.map fun c => if c.held then { f c with held := false } else c

/-- `enet_protocol_handle_send_fragment`.  `start` is its `startSequenceNumber`, and
`memory` what an allocation for the packet finds. -/
def protocolHandleSendFragment (p : Inbound) (channelID : UInt8) (start : UInt16) (f : Fragment)
    (data : List UInt8) (memory : Option (Nat → UInt8)) : Handled :=
  let i := channelID.toNat
  let channel := p.channels i
  let current := channel.incomingReliableSequenceNumber
  if refused p channelID data then ⟨p, true⟩
  else if !inWindow start current then ⟨p, false⟩
  else if f.malformed p data.length then ⟨p, true⟩
  else
    match search (reliableTurn current start) channel.incomingReliableCommands with
    | .found before c after =>
      if c.conflicts .sendFragment f then ⟨p, true⟩
      else if f.fragmentNumber ∈ c.fragments then ⟨p, false⟩
      else
        let channel := { channel with
          incomingReliableCommands := before ++ c.store f data :: after }
        ⟨p.dispatched i
          (if (c.store f data).fragmentsRemaining = 0 then channel.dispatchReliable
            else (channel, [])), false⟩
    | .between _ _ =>
      match peerQueueIncomingCommand p ⟨.sendFragment, channelID, start⟩ 0 packetFlagReliable
          f.fragmentCount (memory.map fun m => (List.range f.totalLength).map m) with
      | .error | .discarded => ⟨p, true⟩
      | .queued p =>
        let channel := { p.channels i with
          incomingReliableCommands :=
            release (fun c => c.store f data) (p.channels i).incomingReliableCommands }
        ⟨p.dispatched i
          (if f.fragmentCount = 1 then channel.dispatchReliable else (channel, [])), false⟩

/-- `enet_protocol_handle_send_unreliable_fragment`.  The dispatch that follows the
queueing of a new packet may free it; `none` is the use of its memory then. -/
def protocolHandleSendUnreliableFragment (p : Inbound) (channelID : UInt8) (reliable : UInt16)
    (start : UInt16) (f : Fragment) (data : List UInt8) (memory : Option (Nat → UInt8)) :
    Option Handled :=
  let i := channelID.toNat
  let channel := p.channels i
  let current := channel.incomingReliableSequenceNumber
  if refused p channelID data then some ⟨p, true⟩
  else if !inWindow reliable current then some ⟨p, false⟩
  else if reliable = current ∧ start ≤ channel.incomingUnreliableSequenceNumber then
    some ⟨p, false⟩
  else if f.malformed p data.length then some ⟨p, true⟩
  else
    match search (unreliableTurn current reliable start) channel.incomingUnreliableCommands with
    | .found before c after =>
      if c.conflicts .sendUnreliableFragment f then some ⟨p, true⟩
      else if f.fragmentNumber ∈ c.fragments then some ⟨p, false⟩
      else
        let channel := { channel with
          incomingUnreliableCommands := before ++ c.store f data :: after }
        some ⟨p.dispatched i
          (if (c.store f data).fragmentsRemaining = 0 then channel.dispatchUnreliable
            else (channel, [])), false⟩
    | .between _ _ =>
      match peerQueueIncomingCommand p ⟨.sendUnreliableFragment, channelID, reliable⟩ start
          packetFlagUnreliableFragment f.fragmentCount
          (memory.map fun m => (List.range f.totalLength).map m) with
      | .error | .discarded => some ⟨p, true⟩
      | .queued p =>
        if (p.channels i).incomingUnreliableCommands.any (fun c => c.held) then
          let channel := { p.channels i with
            incomingUnreliableCommands :=
              release (fun c => c.store f data) (p.channels i).incomingUnreliableCommands }
          some ⟨p.dispatched i
            (if f.fragmentCount = 1 then channel.dispatchUnreliable else (channel, [])), false⟩
        else none

/-! ## Acknowledging and receiving -/

/-- `enet_peer_queue_acknowledgement`. -/
def peerQueueAcknowledgement (p : Inbound) (h : CommandHeader) (sentTime : UInt16)
    (allocates : Bool) : Inbound :=
  let current := (p.channels h.channelID.toNat).incomingReliableSequenceNumber
  let window := reliableWindow h.reliableSequenceNumber current
  let currentWindow := current.toNat / reliableWindowSize
  if h.channelID.toNat < p.channelCount ∧ window ≥ currentWindow + freeReliableWindows - 1 ∧
      window ≤ currentWindow + freeReliableWindows then p
  else if !allocates then p
  else { p with acknowledgements := p.acknowledgements ++
    [⟨h.command, h.channelID, h.reliableSequenceNumber, sentTime⟩] }

/-- `enet_peer_receive`. -/
def peerReceive (p : Inbound) : Option (Inbound × Packet × UInt8) :=
  match p.dispatchedCommands with
  | [] => none
  | c :: commands =>
    some ({ p with
      dispatchedCommands := commands
      totalWaitingData := p.totalWaitingData - c.packet.dataLength }, c.packet, c.channelID)

end Transport
