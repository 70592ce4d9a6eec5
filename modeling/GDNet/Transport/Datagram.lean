import GDNet.Transport.Wire

/-!
# Datagrams

`protocolCommands` are the commands in the bytes behind a header, one behind the other.
A datagram is put together at the end of `enet_protocol_send_outgoing_commands` and
taken apart at the beginning of `enet_protocol_handle_incoming_commands`.

Checksum and compressor are functions that the application may install; the checksum
is taken over the datagram with the connect ID in its place and before compression.
-/

namespace Transport
open ENet (ProtocolCommand protocolMaximumPeerID)
open Codec

/-! ## The commands of a datagram -/

/-- The length of the data behind a command. -/
def dataLength : (c : ProtocolCommand) → Fields c → Nat
  | .sendReliable, length => UInt16.toNat length
  | .sendUnreliable, f => (SendUnreliable.dataLength f).toNat
  | .sendFragment, f => (SendFragment.dataLength f).toNat
  | .sendUnsequenced, f => (SendUnsequenced.dataLength f).toNat
  | .sendUnreliableFragment, f => (SendFragment.dataLength f).toNat
  | _, _ => 0

def Protocol.dataLength (p : Protocol) : Nat := Transport.dataLength p.command p.fields

/-- A command with its data. -/
structure Message where
  protocol : Protocol
  data : List UInt8
  isCommand : protocol.command ≠ .none
  length_data : data.length = protocol.dataLength

namespace Message

def encode (m : Message) : List UInt8 := encodeCommand m.protocol ++ m.data

theorem length_encode (m : Message) :
    m.encode.length = commandSizes (commandNumber m.protocol.command) + m.data.length := by
  rw [encode, List.length_append, encodeCommand_length _ m.isCommand]

theorem length_encode_pos (m : Message) : 0 < m.encode.length := by
  rw [length_encode, commandSizes_eq _ m.isCommand]
  show 0 < 4 + (fieldsCodec m.protocol.command).size + m.data.length
  omega

theorem ext {m n : Message} (hp : m.protocol = n.protocol) (hd : m.data = n.data) : m = n := by
  cases m
  cases n
  cases hp
  cases hd
  rfl

end Message

/-- One turn of the loop: the command at the front, and what is behind its data. -/
def protocolCommand (bs : List UInt8) : Option (Message × List UInt8) :=
  match h : decodeCommand bs with
  | none => none
  | some p =>
    let rest := bs.drop (commandSizes (commandNumber p.command))
    if hl : p.dataLength ≤ rest.length then
      some ({ protocol := p
              data := rest.take p.dataLength
              isCommand := (encode_decodeCommand h).1
              length_data := List.length_take_of_le hl }, rest.drop p.dataLength)
    else none

theorem protocolCommand_encode (m : Message) (bs : List UInt8) :
    protocolCommand (m.encode ++ bs) = some (m, bs) := by
  have hp : decodeCommand (m.encode ++ bs) = some m.protocol := by
    rw [Message.encode, List.append_assoc]
    exact decodeCommand_encode m.protocol m.isCommand _
  have hrest : (m.encode ++ bs).drop (commandSizes (commandNumber m.protocol.command)) =
      m.data ++ bs := by
    rw [Message.encode, List.append_assoc]
    exact List.drop_left' (encodeCommand_length _ m.isCommand)
  unfold protocolCommand
  split
  · next h =>
    rw [hp] at h
    cases h
  · next p h =>
    have he : m.protocol = p := Option.some.inj (hp.symm.trans h)
    subst he
    have hl : m.protocol.dataLength ≤ (m.data ++ bs).length := by
      rw [List.length_append, m.length_data]
      omega
    simp only [hrest, dif_pos hl]
    refine congrArg some (Prod.ext (Message.ext rfl ?_) ?_)
    · exact List.take_left' m.length_data
    · exact List.drop_left' m.length_data

theorem encode_protocolCommand {bs rest : List UInt8} {m : Message}
    (h : protocolCommand bs = some (m, rest)) : m.encode ++ rest = bs := by
  unfold protocolCommand at h
  split at h
  · cases h
  · next p hp =>
    obtain ⟨-, htake, -⟩ := encode_decodeCommand hp
    simp only at h
    split at h
    · cases h
      rw [Message.encode]
      simp only [htake, List.append_assoc, List.take_append_drop]
    · cases h

/-- The commands found, and the bytes where the loop stops. -/
def protocolCommands (bs : List UInt8) : List Message × List UInt8 :=
  match h : protocolCommand bs with
  | none => ([], bs)
  | some (m, rest) =>
    let r := protocolCommands rest
    (m :: r.1, r.2)
termination_by bs.length
decreasing_by
  rw [← encode_protocolCommand h, List.length_append]
  have := m.length_encode_pos
  omega

theorem protocolCommands_none {bs : List UInt8} (h : protocolCommand bs = none) :
    protocolCommands bs = ([], bs) := by
  rw [protocolCommands]
  split
  · rfl
  · next h' =>
    rw [h] at h'
    cases h'

theorem protocolCommands_some {bs rest : List UInt8} {m : Message}
    (h : protocolCommand bs = some (m, rest)) :
    protocolCommands bs = (m :: (protocolCommands rest).1, (protocolCommands rest).2) := by
  rw [protocolCommands]
  split
  · next h' =>
    rw [h] at h'
    cases h'
  · next m' rest' h' =>
    cases h.symm.trans h'
    rfl

/-- The loop finds exactly the commands whose bytes are in front of the first bytes
that are no command. -/
theorem protocolCommands_eq_iff (bs rest : List UInt8) (ms : List Message) :
    protocolCommands bs = (ms, rest) ↔
      bs = ms.flatMap Message.encode ++ rest ∧ protocolCommand rest = none := by
  constructor
  · intro h
    induction ms generalizing bs with
    | nil =>
      cases hc : protocolCommand bs with
      | none =>
        rw [protocolCommands_none hc] at h
        cases h
        exact ⟨rfl, hc⟩
      | some r =>
        rw [protocolCommands_some hc] at h
        cases h
    | cons m ms ih =>
      cases hc : protocolCommand bs with
      | none =>
        rw [protocolCommands_none hc] at h
        cases h
      | some r =>
        rw [protocolCommands_some hc] at h
        obtain ⟨m', bs'⟩ := r
        have hm : m' = m := (List.cons.inj (Prod.mk.inj h).1).1
        have hms := (List.cons.inj (Prod.mk.inj h).1).2
        subst hm
        obtain ⟨hbs, hrest⟩ := ih bs' (Prod.ext hms (Prod.mk.inj h).2)
        refine ⟨?_, hrest⟩
        rw [← encode_protocolCommand hc, List.flatMap_cons, List.append_assoc, ← hbs]
  · rintro ⟨rfl, hrest⟩
    induction ms with
    | nil => exact protocolCommands_none hrest
    | cons m ms ih =>
      have hc := protocolCommand_encode m (ms.flatMap Message.encode ++ rest)
      rw [List.flatMap_cons, List.append_assoc, protocolCommands_some hc, ih]

/-! ## Header, checksum and compression -/

/-- `ENetCompressor`, with a context.  A result of no bytes is a failure. -/
structure Compressor where
  compress : (inData : List UInt8) → (outLimit : Nat) → List UInt8
  decompress : (inData : List UInt8) → (outLimit : Nat) → List UInt8

/-- What a host has installed. -/
structure Transforms where
  checksum : Option (List UInt8 → RawWord)
  compressor : Option Compressor

/-- What the header of a datagram says. -/
structure Header where
  /-- `ENET_PROTOCOL_MAXIMUM_PEER_ID` for none. -/
  peerID : Fin 4096
  sessionID : Fin 4
  sentTime : Option UInt16
deriving DecidableEq

/-- `ENET_PROTOCOL_HEADER_FLAG_COMPRESSED`. -/
def flagCompressed : Nat := 0x4000

/-- `ENET_PROTOCOL_HEADER_FLAG_SENT_TIME`. -/
def flagSentTime : Nat := 0x8000

/-- The first word of the header. -/
def headerWord (h : Header) (compressed : Bool) : UInt16 :=
  UInt16.ofNat (h.peerID.val + 4096 * h.sessionID.val + (if compressed then flagCompressed else 0) +
    if h.sentTime.isSome then flagSentTime else 0)

def sentTimeBytes : Option UInt16 → List UInt8
  | some t => word16.encode t
  | none => []

/-- The header up to the checksum. -/
def headerBytes (h : Header) (compressed : Bool) : List UInt8 :=
  word16.encode (headerWord h compressed) ++ sentTimeBytes h.sentTime

/-- The checksum in its place in the header. -/
def checksumBytes (t : Transforms) (connectID : RawWord) (header payload : List UInt8) :
    List UInt8 :=
  match t.checksum with
  | none => []
  | some sum => rawWord.encode (sum (header ++ rawWord.encode connectID ++ payload))

/-- The commands compressed, where that makes them shorter. -/
def compressed (t : Transforms) (payload : List UInt8) : Option (List UInt8) :=
  match t.compressor with
  | none => none
  | some c =>
    let out := c.compress payload payload.length
    if 0 < out.length ∧ out.length < payload.length then some out else none

/-- The datagram that is sent. -/
def assemble (t : Transforms) (connectID : RawWord) (h : Header) (payload : List UInt8) :
    List UInt8 :=
  let small := compressed t payload
  let header := headerBytes h small.isSome
  header ++ checksumBytes t connectID header payload ++ small.getD payload

/-- `sizeof (host -> packetData [1])`. -/
def packetDataSize : Nat := 4096

/-- The first word taken apart: what it says, and whether the commands are
compressed and the time of sending follows. -/
def readHeaderWord (w : UInt16) : Fin 4096 × Fin 4 × Bool × Bool :=
  (⟨w.toNat % 4096, Nat.mod_lt _ (by decide)⟩, ⟨w.toNat / 4096 % 4, Nat.mod_lt _ (by decide)⟩,
    w.toNat.testBit 14, w.toNat.testBit 15)

/-- The commands of a received datagram; `room` is what is left of the buffer. -/
def decompressed (t : Transforms) (isCompressed : Bool) (room : Nat) (bs : List UInt8) :
    Option (List UInt8) :=
  if isCompressed then
    match t.compressor with
    | none => none
    | some c =>
      let original := c.decompress bs room
      if original.length = 0 ∨ original.length > room then none else some original
  else some bs

/-- What a host knows of a peer to check its datagrams by. -/
structure Known where
  connectID : RawWord
  outgoingPeerID : UInt16
  incomingSessionID : UInt8

/-- The slot a datagram is for, if it is for one. -/
def Header.peer (header : Header) : Option Nat :=
  if header.peerID.val = protocolMaximumPeerID then none else some header.peerID.val

/-- The check on the session number. -/
def Header.inSession (known : Nat → Known) (header : Header) : Bool :=
  match header.peer with
  | none => true
  | some i =>
    !decide ((known i).outgoingPeerID.toNat < protocolMaximumPeerID ∧
      header.sessionID.val ≠ (known i).incomingSessionID.toNat)

/-- The checks on the slot of a datagram that came from `address`. -/
def Header.admitted (host : ENet.Host) (known : Nat → Known) (address : ENet.Address)
    (header : Header) : Bool :=
  match header.peer with
  | none => true
  | some i =>
    let p := host.peers i
    !decide (i ≥ host.peerCount ∨ p.state = .disconnected ∨ p.state = .zombie ∨
      (address ≠ p.address ∧ p.address.host ≠ ENet.enetHostBroadcast) ∨
      !header.inSession known)

/-- The connect ID that the checksum is taken with, 0 where there is no peer. -/
def Header.connectID (known : Nat → Known) (header : Header) : RawWord :=
  match header.peer with
  | none => (0, 0, 0, 0)
  | some i => (known i).connectID

/-- The bytes the commands of a datagram are read from, `none` if they cannot be
decompressed or the checksum is not theirs.  The bytes that a datagram is too short for
are taken to be zero. -/
def receivedData (t : Transforms) (known : Nat → Known) (header : Header) (isCompressed : Bool)
    (bs : List UInt8) : Option (List UInt8) :=
  let sentSize := if header.sentTime.isSome then 4 else 2
  let headerSize := sentSize + if t.checksum.isSome then 4 else 0
  match decompressed t isCompressed (packetDataSize - headerSize) (bs.drop headerSize) with
  | none => none
  | some payload =>
    match t.checksum with
    | none => some payload
    | some sum =>
      if sum (bs.take sentSize ++ rawWord.encode (header.connectID known) ++ payload) ≠
          rawWord.decode (bs.drop sentSize) then none
      else some payload

/-- What a datagram from `address` says and the bytes its commands are read from; `none`
is a datagram that is dropped. -/
def disassemble (t : Transforms) (host : ENet.Host) (known : Nat → Known)
    (address : ENet.Address) (bs : List UInt8) : Option (Header × List UInt8) :=
  if bs.length < 2 then none
  else
    let word := readHeaderWord (word16.decode bs)
    let header : Header :=
      { peerID := word.1
        sessionID := word.2.1
        sentTime := if word.2.2.2 then some (word16.decode (bs.drop 2)) else none }
    if !header.admitted host known address then none
    else (receivedData t known header word.2.2.1 bs).map fun payload => (header, payload)

theorem headerWord_toNat (h : Header) (compressed : Bool) :
    (headerWord h compressed).toNat = h.peerID.val + 4096 * h.sessionID.val +
      (if compressed then flagCompressed else 0) +
        if h.sentTime.isSome then flagSentTime else 0 := by
  have hp := h.peerID.isLt
  have hs := h.sessionID.isLt
  rw [headerWord, UInt16.toNat_ofNat']
  unfold flagCompressed flagSentTime
  apply Nat.mod_eq_of_lt
  split <;> split <;> omega

/-- The fields of the first word do not overlap. -/
theorem readHeaderWord_headerWord (h : Header) (compressed : Bool) :
    readHeaderWord (headerWord h compressed) =
      (h.peerID, h.sessionID, compressed, h.sentTime.isSome) := by
  have hp := h.peerID.isLt
  have hs := h.sessionID.isLt
  have hw := headerWord_toNat h compressed
  unfold flagCompressed flagSentTime at hw
  rw [readHeaderWord]
  simp only [Prod.mk.injEq, Nat.testBit_eq_decide_div_mod_eq]
  generalize h.sentTime.isSome = hasSentTime at hw ⊢
  cases compressed <;> cases hasSentTime <;>
    simp only [Bool.false_eq_true, if_true, if_false, decide_eq_true_eq, decide_eq_false_iff_not,
      Fin.ext_iff] at hw ⊢ <;>
    omega

theorem headerBytes_length (h : Header) (compressed : Bool) :
    (headerBytes h compressed).length = if h.sentTime.isSome then 4 else 2 := by
  unfold headerBytes sentTimeBytes
  rw [List.length_append, word16.length_encode]
  cases h.sentTime with
  | none => rfl
  | some t =>
    show 2 + (word16.encode t).length = 4
    rw [word16.length_encode]
    rfl

theorem checksumBytes_length (t : Transforms) (connectID : RawWord) (header payload : List UInt8) :
    (checksumBytes t connectID header payload).length = if t.checksum.isSome then 4 else 0 := by
  unfold checksumBytes
  cases t.checksum with
  | none => rfl
  | some sum => exact rawWord.length_encode _

theorem sentTime_read (h : Header) (isCompressed : Bool) (bs : List UInt8) :
    (if h.sentTime.isSome then some (word16.decode ((headerBytes h isCompressed ++ bs).drop 2))
      else none) = h.sentTime := by
  have hd : (headerBytes h isCompressed ++ bs).drop 2 = sentTimeBytes h.sentTime ++ bs := by
    rw [headerBytes, List.append_assoc]
    exact word16.drop_encode _ _
  rw [hd]
  cases h.sentTime with
  | none => rfl
  | some time => exact congrArg some (word16.decode_encode time bs)

/-- What is read of the bytes behind the header, checksum and commands apart. -/
theorem receivedData_parts (t : Transforms) (known : Nat → Known) (h : Header)
    (isCompressed : Bool) {sum : List UInt8} (body : List UInt8)
    (hsum : sum.length = if t.checksum.isSome then 4 else 0) :
    receivedData t known h isCompressed (headerBytes h isCompressed ++ (sum ++ body)) =
      match decompressed t isCompressed (packetDataSize -
          ((if h.sentTime.isSome then 4 else 2) + if t.checksum.isSome then 4 else 0)) body with
      | none => none
      | some payload =>
        match t.checksum with
        | none => some payload
        | some check =>
          if check (headerBytes h isCompressed ++ rawWord.encode (h.connectID known) ++
              payload) ≠ rawWord.decode (sum ++ body) then none
          else some payload := by
  have hheader := headerBytes_length h isCompressed
  have hbody : (headerBytes h isCompressed ++ (sum ++ body)).drop
      ((if h.sentTime.isSome then 4 else 2) + if t.checksum.isSome then 4 else 0) = body := by
    rw [← List.append_assoc, List.drop_left' (by rw [List.length_append, hheader, hsum])]
  unfold receivedData
  simp only [hbody]
  rw [List.drop_left' hheader, List.take_left' hheader]

theorem disassemble_parts (t : Transforms) (host : ENet.Host) (known : Nat → Known)
    (address : ENet.Address) (h : Header) (isCompressed : Bool) (bs : List UInt8) :
    disassemble t host known address (headerBytes h isCompressed ++ bs) =
      if !h.admitted host known address then none
      else (receivedData t known h isCompressed (headerBytes h isCompressed ++ bs)).map
        fun payload => (h, payload) := by
  have hword : readHeaderWord (word16.decode (headerBytes h isCompressed ++ bs)) =
      (h.peerID, h.sessionID, isCompressed, h.sentTime.isSome) := by
    unfold headerBytes
    rw [List.append_assoc, word16.decode_encode, readHeaderWord_headerWord]
  have hlong : ¬(headerBytes h isCompressed ++ bs).length < 2 := by
    rw [List.length_append, headerBytes_length]
    split <;> omega
  rw [disassemble, if_neg hlong]
  simp only [hword, sentTime_read]

end Transport
