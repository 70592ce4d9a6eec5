import GDNet.ENet.Moves

/-!
# The connection protocol

The functions of ENet that change the state of a peer, and the events they
deliver.  `deliver` stands for `event != NULL`.

What the network and the clock decide is an argument: which datagrams arrive,
which commands fit into a datagram, what was not acknowledged in time, whether
an allocation succeeds.
-/

namespace ENet

def protocolChangeState (h : Host) (i : Nat) (state : PeerState) : Host :=
  h.update i fun p => { p with state := state }

/-- Replace the dispatch queue and the mark of one slot. -/
def setDispatch (h : Host) (queue : List Nat) (i : Nat) (needsDispatch : Bool) : Host :=
  { h with dispatchQueue := queue }.update i fun p => { p with needsDispatch := needsDispatch }

/-- Put a slot into the dispatch queue, unless it is there. -/
def queueDispatch (h : Host) (i : Nat) : Host :=
  if (h.peers i).needsDispatch then h else setDispatch h (h.dispatchQueue ++ [i]) i true

def protocolDispatchState (h : Host) (i : Nat) (state : PeerState) : Host :=
  queueDispatch (protocolChangeState h i state) i

/-! ## Delivering events -/

/-- The loop of `enet_protocol_dispatch_incoming_commands` over the queue. -/
def protocolDispatchLoop : List Nat → Host → Host × Option Event
  | [], h => ({ h with dispatchQueue := [] }, none)
  | i :: queue, h =>
    let h := setDispatch h queue i false
    match (h.peers i).state with
    | .connectionPending | .connectionSucceeded =>
      let h := protocolChangeState h i .connected
      (h, some (h.event .connect i (h.peers i).eventData))
    | .zombie => (peerReset h i, some (h.event .disconnect i (h.peers i).eventData))
    | .connected =>
      -- `enet_peer_receive` takes the oldest packet.
      match (h.peers i).dispatchedCommands with
      | [] => protocolDispatchLoop queue h
      | c :: commands =>
        let h := h.update i fun p => { p with dispatchedCommands := commands }
        let event := { h.event .receive i 0 with channelID := c.channelID, packet := some c.packet }
        (if commands.isEmpty then h else queueDispatch h i, some event)
    | _ => protocolDispatchLoop queue h

def protocolDispatchIncomingCommands (h : Host) : Host × Option Event :=
  protocolDispatchLoop h.dispatchQueue h

def protocolNotifyConnect (h : Host) (i : Nat) (deliver : Bool) : Host × Option Event :=
  if deliver then
    let h := protocolChangeState h i .connected
    (h, some (h.event .connect i (h.peers i).eventData))
  else
    (protocolDispatchState h i
      (if (h.peers i).state = .connecting then .connectionSucceeded else .connectionPending), none)

def protocolNotifyDisconnect (h : Host) (i : Nat) (deliver : Bool) : Host × Option Event :=
  if (h.peers i).state ≠ .connecting ∧
      (h.peers i).state.value < PeerState.connectionSucceeded.value then
    (peerReset h i, none)
  else if deliver then (peerReset h i, some (h.event .disconnect i 0))
  else
    (protocolDispatchState (h.update i fun p => { p with eventData := 0 }) i .zombie, none)

/-! ## Commands of a datagram -/

/-- The command with this number that waits for an acknowledgement, removed.  A
command that was not sent yet ends the search. -/
def protocolRemoveSentReliableCommand (p : Peer) (reliableSequenceNumber : UInt16)
    (channelID : UInt8) : Peer × ProtocolCommand :=
  let isIt : OutgoingCommand → Bool := fun c =>
    c.reliableSequenceNumber == reliableSequenceNumber && c.channelID == channelID
  match p.sentReliableCommands.find? isIt with
  | some c => ({ p with sentReliableCommands := p.sentReliableCommands.eraseP isIt }, c.command)
  | none =>
    match (p.outgoingReliableCommands.takeWhile
        fun c => decide (1 ≤ c.sendAttempts)).find? isIt with
    | some c =>
      ({ p with outgoingReliableCommands := p.outgoingReliableCommands.eraseP isIt }, c.command)
    | none => (p, .none)

/-- The body of a CONNECT command, and whether the two allocations for it succeed. -/
structure Connect where
  channelCount : Nat
  connectID : UInt32
  mtu : Nat
  data : UInt32
  channels : Bool := true
  verifies : Bool := true

/-- The search of `enet_protocol_handle_connect`: the first free slot and the
number of slots in use by the address, unless one of them is this connection. -/
def connectSearch (h : Host) (address : Address) (connectID : UInt32) :
    List Nat → Option Nat → Nat → Option (Option Nat × Nat)
  | [], peer, duplicatePeers => some (peer, duplicatePeers)
  | i :: slots, peer, duplicatePeers =>
    let p := h.peers i
    if p.state = .disconnected then
      connectSearch h address connectID slots (peer.or (some i)) duplicatePeers
    else if p.state ≠ .connecting ∧ p.address.host = address.host then
      if p.address.port = address.port ∧ p.connectID = connectID then none
      else connectSearch h address connectID slots peer (duplicatePeers + 1)
    else connectSearch h address connectID slots peer duplicatePeers

def clampMtu (mtu : Nat) : Nat := max protocolMinimumMtu (min mtu protocolMaximumMtu)

/-- A free slot goes to a connection that came in. -/
def connectAccept (h : Host) (i : Nat) (address : Address) (c : Connect) : Host :=
  { h with connections := h.connections + 1 }.update i fun p =>
    let p := { p with
      channels := fun _ => {}
      channelCount := min c.channelCount h.channelLimit
      state := .acknowledgingConnect
      connectID := c.connectID
      address := address
      eventData := c.data
      mtu := clampMtu c.mtu
      connection := h.connections }
    (peerQueueOutgoingCommand p
      { command := .verifyConnect, acknowledge := true, channelID := 0xFF } c.verifies).getD p

def protocolHandleConnect (h : Host) (address : Address) (c : Connect) : Option (Host × Nat) :=
  if c.channelCount < protocolMinimumChannelCount ∨ c.channelCount > protocolMaximumChannelCount
  then none
  else
    match connectSearch h address c.connectID (List.range h.peerCount) none 0 with
    | some (some i, duplicatePeers) =>
      if duplicatePeers ≥ h.duplicatePeers then none
      else if c.channels then some (connectAccept h i address c, i)
      else none
    | _ => none

/-- The commands that carry a packet or a fragment of one. -/
inductive SendCommand where
  | reliable
  | unreliable
  | fragment
  | unsequenced
  | unreliableFragment

def SendCommand.command : SendCommand → ProtocolCommand
  | .reliable => .sendReliable
  | .unreliable => .sendUnreliable
  | .fragment => .sendFragment
  | .unsequenced => .sendUnsequenced
  | .unreliableFragment => .sendUnreliableFragment

/-- The body of a command.  `agrees` of a VERIFY_CONNECT says that it repeats the
throttle parameters; `inTime` of an ACKNOWLEDGE that its time is not in the
future; `packets` of a send are the packets it completes, `none` if it is refused
by the checks on its numbers and sizes. -/
inductive Body where
  | acknowledge (receivedReliableSequenceNumber : UInt16) (inTime : Bool)
  | connect (c : Connect)
  | verifyConnect (channelCount : Nat) (connectID : UInt32) (mtu : Nat) (agrees : Bool)
  | disconnect (data : UInt32)
  | ping
  | send (command : SendCommand) (packets : Option (List Packet))
  | bandwidthLimit
  | throttleConfigure

/-- What an acknowledgement answers. -/
def Body.command : Body → ProtocolCommand
  | .acknowledge _ _ => .acknowledge
  | .connect _ => .connect
  | .verifyConnect _ _ _ _ => .verifyConnect
  | .disconnect _ => .disconnect
  | .ping => .ping
  | .send c _ => c.command
  | .bandwidthLimit => .bandwidthLimit
  | .throttleConfigure => .throttleConfigure

/-- A command of a datagram.  `acknowledge` is the flag of its header, and
`acknowledges` says that an acknowledgement can be allocated and is in the window. -/
structure Command where
  acknowledge : Bool := false
  channelID : UInt8 := 0xFF
  body : Body
  acknowledges : Bool := true

/-- What a handler leaves; an error ends the datagram. -/
structure Handled where
  host : Host
  event : Option Event := none
  error : Bool := false

def protocolHandleAcknowledge (h : Host) (i : Nat) (deliver : Bool) (channelID : UInt8)
    (receivedReliableSequenceNumber : UInt16) (inTime allocates : Bool) : Handled :=
  if (h.peers i).state = .disconnected ∨ (h.peers i).state = .zombie ∨ !inTime then ⟨h, none, false⟩
  else
    let removed :=
      protocolRemoveSentReliableCommand (h.peers i) receivedReliableSequenceNumber channelID
    let h := h.update i fun _ => removed.1
    match (h.peers i).state with
    | .acknowledgingConnect =>
      if removed.2 ≠ .verifyConnect then ⟨h, none, true⟩
      else
        let r := protocolNotifyConnect h i deliver
        ⟨r.1, r.2, false⟩
    | .disconnecting =>
      if removed.2 ≠ .disconnect then ⟨h, none, true⟩
      else
        let r := protocolNotifyDisconnect h i deliver
        ⟨r.1, r.2, false⟩
    | .disconnectLater =>
      if (h.peers i).drained then
        ⟨peerDisconnectConnected h i (h.peers i).eventData allocates, none, false⟩
      else ⟨h, none, false⟩
    | _ => ⟨h, none, false⟩

def protocolHandleVerifyConnect (h : Host) (i : Nat) (deliver : Bool) (channelCount : Nat)
    (connectID : UInt32) (mtu : Nat) (agrees : Bool) : Handled :=
  if (h.peers i).state ≠ .connecting then ⟨h, none, false⟩
  else if channelCount < protocolMinimumChannelCount ∨
      channelCount > protocolMaximumChannelCount ∨ !agrees ∨ connectID ≠ (h.peers i).connectID then
    ⟨protocolDispatchState (h.update i fun p => { p with eventData := 0 }) i .zombie, none, true⟩
  else
    let h := h.update i fun p =>
      let p := (protocolRemoveSentReliableCommand p 1 0xFF).1
      { p with
        channelCount := min channelCount p.channelCount
        mtu := min (clampMtu mtu) p.mtu }
    let r := protocolNotifyConnect h i deliver
    ⟨r.1, r.2, false⟩

def protocolHandleDisconnect (h : Host) (i : Nat) (acknowledge : Bool) (data : UInt32) : Host :=
  let state := (h.peers i).state
  if state = .disconnected ∨ state = .zombie ∨ state = .acknowledgingDisconnect then h
  else
    let h := peerResetQueues h i
    let h :=
      if state = .connectionSucceeded ∨ state = .disconnecting ∨ state = .connecting then
        protocolDispatchState h i .zombie
      else if state ≠ .connected ∧ state ≠ .disconnectLater then peerReset h i
      else if acknowledge then protocolChangeState h i .acknowledgingDisconnect
      else protocolDispatchState h i .zombie
    if (h.peers i).state ≠ .disconnected then h.update i fun p => { p with eventData := data }
    else h

/-- The five send commands.  Packets that became complete wait for dispatch. -/
def protocolHandleSend (h : Host) (i : Nat) (channelID : UInt8) (packets : Option (List Packet)) :
    Handled :=
  if channelID.toNat ≥ (h.peers i).channelCount ∨
      (h.peers i).state ≠ .connected ∧ (h.peers i).state ≠ .disconnectLater then ⟨h, none, true⟩
  else
    match packets with
    | none => ⟨h, none, true⟩
    | some [] => ⟨h, none, false⟩
    | some packets =>
      ⟨queueDispatch (h.update i fun p => { p with
        dispatchedCommands := p.dispatchedCommands ++ packets.map fun q => ⟨channelID, q⟩ }) i,
        none, false⟩

/-- `enet_protocol_handle_ping` and the two handlers that only set parameters. -/
def protocolHandleConnected (h : Host) (i : Nat) : Handled :=
  ⟨h, none, decide ((h.peers i).state ≠ .connected ∧ (h.peers i).state ≠ .disconnectLater)⟩

def protocolHandleCommand (h : Host) (i : Nat) (deliver : Bool) (c : Command) : Handled :=
  match c.body with
  | .acknowledge number inTime =>
    protocolHandleAcknowledge h i deliver c.channelID number inTime c.acknowledges
  | .connect _ => ⟨h, none, true⟩
  | .verifyConnect channelCount connectID mtu agrees =>
    protocolHandleVerifyConnect h i deliver channelCount connectID mtu agrees
  | .disconnect data => ⟨protocolHandleDisconnect h i c.acknowledge data, none, false⟩
  | .ping => protocolHandleConnected h i
  | .send _ packets => protocolHandleSend h i c.channelID packets
  | .bandwidthLimit => protocolHandleConnected h i
  | .throttleConfigure => protocolHandleConnected h i

/-- The end of a turn over the commands: `enet_peer_queue_acknowledgement` where
the state of the peer calls for it. -/
def protocolQueueAcknowledgement (h : Host) (i : Nat) (c : Command) : Host :=
  let queue := h.update i fun p =>
    if c.acknowledges then { p with acknowledgements := p.acknowledgements ++ [c.body.command] }
    else p
  match (h.peers i).state with
  | .disconnecting | .acknowledgingConnect | .disconnected | .zombie => h
  | .acknowledgingDisconnect => if c.body.command = .disconnect then queue else h
  | _ => queue

/-- What a datagram carries.  `session` says that its session number is the one
the slot expects; the commands are those in front of the first malformed one.
No datagram comes from the broadcast address. -/
structure Datagram where
  address : Address
  peerID : Option Nat
  session : Bool := true
  sentTime : Bool := true
  commands : List Command
  source : address.host ≠ enetHostBroadcast

/-- The loop over the commands of a datagram for the peer `i`. -/
def protocolHandleCommands (d : Datagram) (deliver : Bool) (i : Nat) :
    List Command → Host → Option Event → Host × Option Event
  | [], h, event => (h, event)
  | c :: commands, h, event =>
    let r := protocolHandleCommand h i deliver c
    let event := r.event.or event
    if r.error then (r.host, event)
    else if !c.acknowledge then protocolHandleCommands d deliver i commands r.host event
    else if !d.sentTime then (r.host, event)
    else
      protocolHandleCommands d deliver i commands (protocolQueueAcknowledgement r.host i c) event

/-- A datagram without a peer: its first command has to be a CONNECT. -/
def protocolHandleFirstCommand (d : Datagram) (deliver : Bool) (h : Host) : Host × Option Event :=
  match d.commands with
  | [] => (h, none)
  | c :: commands =>
    match c.body with
    | .connect body =>
      match protocolHandleConnect h d.address body with
      | none => (h, none)
      | some (h, i) =>
        if !c.acknowledge then protocolHandleCommands d deliver i commands h none
        else if !d.sentTime then (h, none)
        else protocolHandleCommands d deliver i commands (protocolQueueAcknowledgement h i c) none
    | _ => (h, none)

def protocolHandleIncomingCommands (h : Host) (d : Datagram) (deliver : Bool) :
    Host × Option Event :=
  match d.peerID with
  | none => protocolHandleFirstCommand d deliver h
  | some i =>
    let p := h.peers i
    if i ≥ h.peerCount ∨ p.state = .disconnected ∨ p.state = .zombie ∨
        (d.address ≠ p.address ∧ p.address.host ≠ enetHostBroadcast) ∨ !d.session then (h, none)
    else
      protocolHandleCommands d deliver i d.commands
        (h.update i fun p => { p with address := d.address }) none

/-! ## Sending -/

/-- What happened to a command that waits for its acknowledgement. -/
inductive Timeout where
  | inTime
  | late
  | expired

/-- What fits into the datagram for one peer, and what the clock says. -/
structure SendChoice where
  acknowledgements : Nat := 0
  overdue : Bool := false
  timeouts : List Timeout := []
  reliable : List Bool := []
  ping : Bool := false
  pingReliable : List Bool := []
  unreliable : Nat := 0
  allocates : Bool := true
  /-- A datagram was put together and `enet_socket_send` failed. -/
  failed : Bool := false

def protocolSendAcknowledgements (h : Host) (i : Nat) (n : Nat) : Host :=
  let h' :=
    if ((h.peers i).acknowledgements.take n).contains .disconnect then
      protocolDispatchState h i .zombie
    else h
  h'.update i fun p => { p with acknowledgements := p.acknowledgements.drop n }

/-- The loop of `enet_protocol_check_timeouts`: what stays sent, what goes back to
be sent again, and whether the peer timed out. -/
def checkTimeoutsLoop : List OutgoingCommand → List Timeout →
    List OutgoingCommand × List OutgoingCommand × Bool
  | [], _ => ([], [], false)
  | cs, [] => (cs, [], false)
  | c :: cs, .inTime :: ts =>
    let r := checkTimeoutsLoop cs ts
    (c :: r.1, r.2.1, r.2.2)
  | c :: cs, .late :: ts =>
    let r := checkTimeoutsLoop cs ts
    (r.1, c :: r.2.1, r.2.2)
  | c :: cs, .expired :: _ => (c :: cs, [], true)

/-- The late commands go in front of those that were not sent yet. -/
def Peer.requeue (p : Peer) (ts : List Timeout) : Peer :=
  let r := checkTimeoutsLoop p.sentReliableCommands ts
  { p with
    sentReliableCommands := r.1
    outgoingReliableCommands := r.2.1 ++ p.outgoingReliableCommands }

def Peer.expired (p : Peer) (ts : List Timeout) : Bool :=
  (checkTimeoutsLoop p.sentReliableCommands ts).2.2

/-- The commands that are sent and those that wait, in order. -/
def splitCommands : List OutgoingCommand → List Bool → List OutgoingCommand × List OutgoingCommand
  | [], _ => ([], [])
  | cs, [] => ([], cs)
  | c :: cs, fits :: mask =>
    let r := splitCommands cs mask
    if fits then ({ c with sendAttempts := c.sendAttempts + 1 } :: r.1, r.2) else (r.1, c :: r.2)

def protocolSendReliableOutgoingCommands (p : Peer) (mask : List Bool) : Peer :=
  let r := splitCommands p.outgoingReliableCommands mask
  { p with
    sentReliableCommands := p.sentReliableCommands ++ r.1
    outgoingReliableCommands := r.2 }

/-- The reliable commands of one datagram.  A peer that waits for nothing may be
pinged. -/
def sendReliable (p : Peer) (choice : SendChoice) : Peer :=
  let p := protocolSendReliableOutgoingCommands p choice.reliable
  if choice.ping && p.sentReliableCommands.isEmpty then
    protocolSendReliableOutgoingCommands (peerPing p choice.allocates) choice.pingReliable
  else p

/-- Commands sent or dropped leave the list from its front. -/
def protocolSendUnreliableOutgoingCommands (h : Host) (i n : Nat) (allocates : Bool) : Host :=
  let h := h.update i fun p =>
    { p with outgoingUnreliableCommands := p.outgoingUnreliableCommands.drop n }
  if (h.peers i).state = .disconnectLater ∧ (h.peers i).drained then
    peerDisconnectConnected h i (h.peers i).eventData allocates
  else h

/-- What a visit of a peer leaves; `failed` is a return of -1. -/
structure Sent where
  host : Host
  event : Option Event := none
  failed : Bool := false

/-- The body of the loop of `enet_protocol_send_outgoing_commands` for one peer. -/
def protocolSendOutgoingCommands (h : Host) (i : Nat) (deliver checkForTimeouts : Bool)
    (choice : SendChoice) : Sent :=
  if (h.peers i).state = .disconnected ∨ (h.peers i).state = .zombie then ⟨h, none, false⟩
  else
    let h := protocolSendAcknowledgements h i choice.acknowledgements
    let checks := checkForTimeouts && choice.overdue && !(h.peers i).sentReliableCommands.isEmpty
    if checks && (h.peers i).expired choice.timeouts then
      let r := protocolNotifyDisconnect (h.update i fun p => p.requeue choice.timeouts) i deliver
      ⟨r.1, r.2, false⟩
    else
      let h := h.update i fun p =>
        sendReliable (if checks then p.requeue choice.timeouts else p) choice
      let h :=
        if (h.peers i).outgoingUnreliableCommands.isEmpty then h
        else protocolSendUnreliableOutgoingCommands h i choice.unreliable choice.allocates
      ⟨h, none, choice.failed⟩

/-- One pass over the peers without events; it ends when a datagram cannot be sent. -/
def flushPass (choice : Nat → SendChoice) : List Nat → Host → Host × Bool
  | [], h => (h, true)
  | i :: slots, h =>
    let r := protocolSendOutgoingCommands h i false false (choice i)
    if r.failed then (r.host, false) else flushPass choice slots r.host

/-- `enet_host_flush`, with the choices of each pass. -/
def hostFlush : List (Nat → SendChoice) → Host → Host
  | [], h => h
  | choice :: passes, h =>
    let r := flushPass choice (List.range h.peerCount) h
    if r.2 then hostFlush passes r.1 else r.1

end ENet
