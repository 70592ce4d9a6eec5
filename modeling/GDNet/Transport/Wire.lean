import GDNet.Bytes.Codec
import GDNet.ENet.Types

/-!
# The commands on the wire

A command is a header of four bytes and the fields that its number calls for.
Numbers are in network order; the connect ID is copied as it lies in memory, and
the two hosts only compare it.

`decodeCommand` makes the checks of `enet_protocol_handle_incoming_commands` on the bytes
of one command.
-/

namespace Transport
open ENet (ProtocolCommand)

/-! ## Command numbers -/

def commandNumber : ProtocolCommand → Nat
  | .none => 0
  | .acknowledge => 1
  | .connect => 2
  | .verifyConnect => 3
  | .disconnect => 4
  | .ping => 5
  | .sendReliable => 6
  | .sendUnreliable => 7
  | .sendFragment => 8
  | .sendUnsequenced => 9
  | .bandwidthLimit => 10
  | .throttleConfigure => 11
  | .sendUnreliableFragment => 12

/-- `ENET_PROTOCOL_COMMAND_COUNT`. -/
def commandCount : Nat := 13

def commandOfNumber : Nat → Option ProtocolCommand
  | 0 => some .none
  | 1 => some .acknowledge
  | 2 => some .connect
  | 3 => some .verifyConnect
  | 4 => some .disconnect
  | 5 => some .ping
  | 6 => some .sendReliable
  | 7 => some .sendUnreliable
  | 8 => some .sendFragment
  | 9 => some .sendUnsequenced
  | 10 => some .bandwidthLimit
  | 11 => some .throttleConfigure
  | 12 => some .sendUnreliableFragment
  | _ => none

theorem commandNumber_lt (c : ProtocolCommand) : commandNumber c < commandCount := by
  cases c <;> decide

theorem commandOfNumber_number (c : ProtocolCommand) :
    commandOfNumber (commandNumber c) = some c := by
  cases c <;> rfl

theorem number_of_commandOfNumber {n : Nat} {c : ProtocolCommand} (h : commandOfNumber n = some c) :
    commandNumber c = n := by
  unfold commandOfNumber at h
  split at h <;> first | (cases h; rfl) | cases h

/-! ## Fields -/

/-- A word that is copied, not converted. -/
abbrev RawWord := UInt8 × UInt8 × UInt8 × UInt8

structure Acknowledge where
  receivedReliableSequenceNumber : UInt16
  receivedSentTime : UInt16
deriving DecidableEq, Repr

structure Connect where
  outgoingPeerID : UInt16
  incomingSessionID : UInt8
  outgoingSessionID : UInt8
  mtu : UInt32
  windowSize : UInt32
  channelCount : UInt32
  incomingBandwidth : UInt32
  outgoingBandwidth : UInt32
  packetThrottleInterval : UInt32
  packetThrottleAcceleration : UInt32
  packetThrottleDeceleration : UInt32
  connectID : RawWord
  data : UInt32
deriving DecidableEq, Repr

structure VerifyConnect where
  outgoingPeerID : UInt16
  incomingSessionID : UInt8
  outgoingSessionID : UInt8
  mtu : UInt32
  windowSize : UInt32
  channelCount : UInt32
  incomingBandwidth : UInt32
  outgoingBandwidth : UInt32
  packetThrottleInterval : UInt32
  packetThrottleAcceleration : UInt32
  packetThrottleDeceleration : UInt32
  connectID : RawWord
deriving DecidableEq, Repr

structure BandwidthLimit where
  incomingBandwidth : UInt32
  outgoingBandwidth : UInt32
deriving DecidableEq, Repr

structure ThrottleConfigure where
  packetThrottleInterval : UInt32
  packetThrottleAcceleration : UInt32
  packetThrottleDeceleration : UInt32
deriving DecidableEq, Repr

structure SendUnreliable where
  unreliableSequenceNumber : UInt16
  dataLength : UInt16
deriving DecidableEq, Repr

structure SendUnsequenced where
  unsequencedGroup : UInt16
  dataLength : UInt16
deriving DecidableEq, Repr

structure SendFragment where
  startSequenceNumber : UInt16
  dataLength : UInt16
  fragmentCount : UInt32
  fragmentNumber : UInt32
  totalLength : UInt32
  fragmentOffset : UInt32
deriving DecidableEq, Repr

/-- What is behind the header.  A disconnect carries its data, a reliable send the
length of what follows. -/
def Fields : ProtocolCommand → Type
  | .none => Unit
  | .acknowledge => Acknowledge
  | .connect => Connect
  | .verifyConnect => VerifyConnect
  | .disconnect => UInt32
  | .ping => Unit
  | .sendReliable => UInt16
  | .sendUnreliable => SendUnreliable
  | .sendFragment => SendFragment
  | .sendUnsequenced => SendUnsequenced
  | .bandwidthLimit => BandwidthLimit
  | .throttleConfigure => ThrottleConfigure
  | .sendUnreliableFragment => SendFragment

open Codec

def rawWord : Codec RawWord := byte.pair (byte.pair (byte.pair byte))

def acknowledgeCodec : Codec Acknowledge :=
  (word16.pair word16).iso (fun p => ⟨p.1, p.2⟩) (fun a => (a.1, a.2)) (fun _ => rfl) (fun _ => rfl)

/-- The eight words between the session numbers and the connect ID. -/
def parameters : Codec (UInt32 × UInt32 × UInt32 × UInt32 × UInt32 × UInt32 × UInt32 × UInt32) :=
  word32.pair (word32.pair (word32.pair (word32.pair (word32.pair (word32.pair
    (word32.pair word32))))))

def connectCodec : Codec Connect :=
  (word16.pair (byte.pair (byte.pair (parameters.pair (rawWord.pair word32))))).iso
    (fun ⟨peer, inS, outS, ⟨mtu, window, channels, inB, outB, ti, ta, td⟩, connectID, data⟩ =>
      ⟨peer, inS, outS, mtu, window, channels, inB, outB, ti, ta, td, connectID, data⟩)
    (fun c => (c.outgoingPeerID, c.incomingSessionID, c.outgoingSessionID,
      (c.mtu, c.windowSize, c.channelCount, c.incomingBandwidth, c.outgoingBandwidth,
        c.packetThrottleInterval, c.packetThrottleAcceleration, c.packetThrottleDeceleration),
      c.connectID, c.data))
    (fun _ => rfl) (fun _ => rfl)

def verifyConnectCodec : Codec VerifyConnect :=
  (word16.pair (byte.pair (byte.pair (parameters.pair rawWord)))).iso
    (fun ⟨peer, inS, outS, ⟨mtu, window, channels, inB, outB, ti, ta, td⟩, connectID⟩ =>
      ⟨peer, inS, outS, mtu, window, channels, inB, outB, ti, ta, td, connectID⟩)
    (fun c => (c.outgoingPeerID, c.incomingSessionID, c.outgoingSessionID,
      (c.mtu, c.windowSize, c.channelCount, c.incomingBandwidth, c.outgoingBandwidth,
        c.packetThrottleInterval, c.packetThrottleAcceleration, c.packetThrottleDeceleration),
      c.connectID))
    (fun _ => rfl) (fun _ => rfl)

def bandwidthLimitCodec : Codec BandwidthLimit :=
  (word32.pair word32).iso (fun p => ⟨p.1, p.2⟩) (fun b => (b.1, b.2)) (fun _ => rfl) (fun _ => rfl)

def throttleConfigureCodec : Codec ThrottleConfigure :=
  (word32.pair (word32.pair word32)).iso (fun p => ⟨p.1, p.2.1, p.2.2⟩)
    (fun t => (t.1, t.2, t.3)) (fun _ => rfl) (fun _ => rfl)

def sendUnreliableCodec : Codec SendUnreliable :=
  (word16.pair word16).iso (fun p => ⟨p.1, p.2⟩) (fun s => (s.1, s.2)) (fun _ => rfl) (fun _ => rfl)

def sendUnsequencedCodec : Codec SendUnsequenced :=
  (word16.pair word16).iso (fun p => ⟨p.1, p.2⟩) (fun s => (s.1, s.2)) (fun _ => rfl) (fun _ => rfl)

def sendFragmentCodec : Codec SendFragment :=
  (word16.pair (word16.pair (word32.pair (word32.pair (word32.pair word32))))).iso
    (fun ⟨start, length, count, number, total, offset⟩ =>
      ⟨start, length, count, number, total, offset⟩)
    (fun f => (f.startSequenceNumber, f.dataLength, f.fragmentCount, f.fragmentNumber,
      f.totalLength, f.fragmentOffset))
    (fun _ => rfl) (fun _ => rfl)

def fieldsCodec : (c : ProtocolCommand) → Codec (Fields c)
  | .none => Codec.empty
  | .acknowledge => acknowledgeCodec
  | .connect => connectCodec
  | .verifyConnect => verifyConnectCodec
  | .disconnect => word32
  | .ping => Codec.empty
  | .sendReliable => word16
  | .sendUnreliable => sendUnreliableCodec
  | .sendFragment => sendFragmentCodec
  | .sendUnsequenced => sendUnsequencedCodec
  | .bandwidthLimit => bandwidthLimitCodec
  | .throttleConfigure => throttleConfigureCodec
  | .sendUnreliableFragment => sendFragmentCodec

/-! ## Commands -/

/-- A command.  The upper four bits of its first byte are `flags`. -/
structure Protocol where
  flags : Fin 16
  command : ProtocolCommand
  channelID : UInt8
  reliableSequenceNumber : UInt16
  fields : Fields command

/-- `ENET_PROTOCOL_COMMAND_FLAG_ACKNOWLEDGE`. -/
def flagAcknowledge : Fin 16 := 8

/-- `ENET_PROTOCOL_COMMAND_FLAG_UNSEQUENCED`. -/
def flagUnsequenced : Fin 16 := 4

def noFlags : Fin 16 := ⟨0, by decide⟩

def Protocol.acknowledges (p : Protocol) : Bool := p.flags.val.testBit 3

/-- `sizeof (ENetProtocolCommandHeader)`. -/
def headerSize : Nat := 4

/-- The sizes of the structures, by command number. -/
def commandSizes : Nat → Nat
  | 1 => 8
  | 2 => 48
  | 3 => 44
  | 4 => 8
  | 5 => 4
  | 6 => 6
  | 7 => 8
  | 8 => 24
  | 9 => 8
  | 10 => 12
  | 11 => 16
  | 12 => 24
  | _ => 0

theorem commandSizes_eq (c : ProtocolCommand) (h : c ≠ .none) :
    commandSizes (commandNumber c) = headerSize + (fieldsCodec c).size := by
  cases c <;> first | rfl | exact absurd rfl h

def commandByte (flags : Fin 16) (c : ProtocolCommand) : UInt8 :=
  UInt8.ofNat (16 * flags.val + commandNumber c)

def encodeHeader (p : Protocol) : List UInt8 :=
  (byte.pair (byte.pair word16)).encode
    (commandByte p.flags p.command, p.channelID, p.reliableSequenceNumber)

def encodeCommand (p : Protocol) : List UInt8 :=
  encodeHeader p ++ (fieldsCodec p.command).encode p.fields

theorem encodeHeader_length (p : Protocol) : (encodeHeader p).length = headerSize :=
  (byte.pair (byte.pair word16)).length_encode _

theorem encodeCommand_length (p : Protocol) (h : p.command ≠ .none) :
    (encodeCommand p).length = commandSizes (commandNumber p.command) := by
  rw [commandSizes_eq p.command h, encodeCommand, List.length_append, encodeHeader_length,
    (fieldsCodec p.command).length_encode]

/-- The checks of the loop, and the command that passes them. -/
def decodeCommand (bs : List UInt8) : Option Protocol :=
  if bs.length < headerSize then none
  else
    let header := (byte.pair (byte.pair word16)).decode bs
    let number := header.1.toNat % 16
    match commandOfNumber number with
    | none => none
    | some c =>
      if commandSizes number = 0 ∨ bs.length < commandSizes number then none
      else some
        { flags := ⟨header.1.toNat / 16, by
            have h := header.1.toNat_lt
            omega⟩
          command := c
          channelID := header.2.1
          reliableSequenceNumber := header.2.2
          fields := (fieldsCodec c).decode (bs.drop headerSize) }

theorem commandByte_toNat (flags : Fin 16) (c : ProtocolCommand) :
    (commandByte flags c).toNat = 16 * flags.val + commandNumber c := by
  have hf := flags.isLt
  have hc : commandNumber c < 13 := commandNumber_lt c
  rw [commandByte, UInt8.toNat_ofNat']
  omega

/-- What is written is read back, whatever follows. -/
theorem decodeCommand_encode (p : Protocol) (h : p.command ≠ .none) (bs : List UInt8) :
    decodeCommand (encodeCommand p ++ bs) = some p := by
  have hlen := encodeCommand_length p h
  have hsize := commandSizes_eq p.command h
  have hheader : headerSize = 4 := rfl
  have hc : commandNumber p.command < 13 := commandNumber_lt p.command
  have hdecode : (byte.pair (byte.pair word16)).decode (encodeCommand p ++ bs) =
      (commandByte p.flags p.command, p.channelID, p.reliableSequenceNumber) := by
    rw [encodeCommand, List.append_assoc]
    exact (byte.pair (byte.pair word16)).decode_encode _ _
  have hfields : (fieldsCodec p.command).decode ((encodeCommand p ++ bs).drop headerSize) =
      p.fields := by
    rw [encodeCommand, List.append_assoc, List.drop_left' (encodeHeader_length p)]
    exact (fieldsCodec p.command).decode_encode _ _
  have hnumber : (commandByte p.flags p.command).toNat % 16 = commandNumber p.command := by
    rw [commandByte_toNat]
    omega
  have hflags : (commandByte p.flags p.command).toNat / 16 = p.flags.val := by
    rw [commandByte_toNat]
    omega
  unfold decodeCommand
  rw [if_neg (by rw [List.length_append]; omega)]
  simp only [hdecode, hnumber, commandOfNumber_number, hfields, hflags]
  rw [if_neg (by rw [List.length_append]; omega)]

/-- A command that is accepted is written as the bytes it was read from. -/
theorem encode_decodeCommand {bs : List UInt8} {p : Protocol} (h : decodeCommand bs = some p) :
    p.command ≠ .none ∧ encodeCommand p = bs.take (commandSizes (commandNumber p.command)) ∧
      commandSizes (commandNumber p.command) ≤ bs.length := by
  unfold decodeCommand at h
  split at h
  · cases h
  · next hlen =>
    simp only at h
    split at h
    · cases h
    · next c hc =>
      split at h
      · cases h
      · next hsize =>
        cases h
        have hnumber := number_of_commandOfNumber hc
        rw [not_or, Nat.not_lt, ← hnumber] at hsize
        have hne : c ≠ .none := by
          rintro rfl
          exact hsize.1 rfl
        have hs := commandSizes_eq c hne
        refine ⟨hne, ?_, hsize.2⟩
        have hbyte : commandByte ⟨((byte.pair (byte.pair word16)).decode bs).1.toNat / 16, by
            have h := ((byte.pair (byte.pair word16)).decode bs).1.toNat_lt
            omega⟩ c = ((byte.pair (byte.pair word16)).decode bs).1 := by
          apply UInt8.toNat_inj.mp
          rw [commandByte_toNat]
          show 16 * (((byte.pair (byte.pair word16)).decode bs).1.toNat / 16) + commandNumber c = _
          omega
        have hh : (byte.pair (byte.pair word16)).size ≤ bs.length := Nat.le_of_not_lt hlen
        have hf : (fieldsCodec c).size ≤ (bs.drop headerSize).length := by
          rw [List.length_drop]
          omega
        show encodeHeader _ ++ (fieldsCodec c).encode ((fieldsCodec c).decode _) = _
        rw [encodeHeader, hbyte, (fieldsCodec c).encode_decode _ hf, hs, List.take_add]
        congr 1
        exact (byte.pair (byte.pair word16)).encode_decode bs hh

end Transport
