import GDNet.Bytes.Feedback
import GDNet.Transport.Handling

/-!
# Datagrams through a network

What is put together arrives as it was, and with `enet_crc32` installed a datagram
that was damaged on its way is dropped, if the damage to its commands is a burst of
at most 32 bits.  The checksum is computed with a table; it is the remainder of a
register of 32 bits into which the bytes go lowest bit first.
-/

namespace Transport
open ENet (ProtocolCommand)
open Codec Feedback

/-! ## The checksum -/

/-- `reflect_crc`. -/
def reflectCrc (val : BitVec 32) (bits : Nat) : BitVec 32 :=
  ((List.range bits).foldl (fun s bit =>
    (s.1.sshiftRight 1, if s.1.getLsbD 0 then s.2 ||| 1#32 <<< (bits - 1 - bit) else s.2))
    (val, 0#32)).2

/-- The table of `initialize_crc32`. -/
def crcTable (byte : BitVec 8) : BitVec 32 :=
  reflectCrc ((List.range 8).foldl
    (fun crc _ => if crc.msb then (crc <<< 1) ^^^ 0x04c11db7#32 else crc <<< 1)
    (reflectCrc (byte.setWidth 32) 8 <<< 24)) 32

/-- One turn of the loop of `enet_crc32`. -/
def crcByte (crc : BitVec 32) (byte : UInt8) : BitVec 32 :=
  (crc >>> 8) ^^^ crcTable (crc.setWidth 8 ^^^ byte.toBitVec)

/-- `enet_crc32`, as it lies in memory. -/
def enetCrc32 (bytes : List UInt8) : RawWord :=
  rawWord.decode (word32.encode (UInt32.ofBitVec (~~~bytes.foldl crcByte 0xFFFFFFFF#32)))

def crcTaps : BitVec 32 := 0xEDB88320#32

def byteBits (byte : UInt8) : List Bool := (List.range 8).map fun i => byte.toBitVec.getLsbD i

/-- The bits of a message, in the order of the register. -/
def messageBits (bytes : List UInt8) : List Bool := bytes.flatMap byteBits

theorem crcTable_eq (byte : BitVec 8) : crcTable byte = shifts crcTaps 8 (byte.setWidth 32) := by
  revert byte
  decide +kernel

theorem pack_byteBits (byte : UInt8) :
    (pack (byteBits byte) : BitVec 32) = byte.toBitVec.setWidth 32 := by
  refine BitVec.eq_of_getLsbD_eq fun i hi => ?_
  rw [getLsbD_pack, BitVec.getLsbD_setWidth]
  by_cases h : i < 8
  · simp [hi, byteBits, h]
  · simp [hi, byteBits, h, BitVec.getLsbD_of_ge byte.toBitVec i (by omega)]

theorem crcByte_eq (crc : BitVec 32) (byte : UInt8) :
    crcByte crc byte = remainder crcTaps crc (byteBits byte) := by
  have hlen : (byteBits byte).length = 8 := by rw [byteBits, List.length_map, List.length_range]
  have hlow : low 8 (crc ^^^ byte.toBitVec.setWidth 32) =
      (crc.setWidth 8 ^^^ byte.toBitVec).setWidth 32 := by
    refine BitVec.eq_of_getLsbD_eq fun i hi => ?_
    rw [getLsbD_low]
    by_cases h : i < 8
    · simp [h, hi]
    · simp [h, BitVec.getLsbD_of_ge byte.toBitVec i (by omega)]
  have hhigh : (crc ^^^ byte.toBitVec.setWidth 32) >>> 8 = crc >>> 8 := by
    refine BitVec.eq_of_getLsbD_eq fun i _ => ?_
    simp
  rw [remainder_eq_shifts (by omega), hlen, pack_byteBits, shifts_eq, hhigh, hlow, crcByte,
    crcTable_eq]

theorem foldl_crcByte (crc : BitVec 32) (bytes : List UInt8) :
    bytes.foldl crcByte crc = remainder crcTaps crc (messageBits bytes) := by
  induction bytes generalizing crc with
  | nil => rfl
  | cons byte bytes ih =>
    rw [List.foldl_cons, ih, crcByte_eq, messageBits, messageBits, List.flatMap_cons, remainder,
      remainder, remainder, List.foldl_append]

/-- Equal checksums are equal remainders. -/
theorem enetCrc32_inj {bytes bytes' : List UInt8} (h : enetCrc32 bytes = enetCrc32 bytes') :
    remainder crcTaps 0xFFFFFFFF#32 (messageBits bytes) =
      remainder crcTaps 0xFFFFFFFF#32 (messageBits bytes') := by
  have hraw : ∀ n, rawWord.encode (rawWord.decode (word32.encode n)) = word32.encode n := by
    intro n
    have hl : rawWord.size = (word32.encode n).length := (word32.length_encode n).symm
    rw [rawWord.encode_decode _ (Nat.le_of_eq hl), hl, List.take_length]
  have hwords := congrArg rawWord.encode h
  rw [enetCrc32, enetCrc32, hraw, hraw] at hwords
  have hnumbers := congrArg word32.decode hwords
  rw [← List.append_nil (word32.encode _), word32.decode_encode,
    ← List.append_nil (word32.encode _), word32.decode_encode] at hnumbers
  have hbits := congrArg UInt32.toBitVec hnumbers
  simp only [BitVec.not_inj, foldl_crcByte] at hbits
  exact hbits

theorem messageBits_append (bytes bytes' : List UInt8) :
    messageBits (bytes ++ bytes') = messageBits bytes ++ messageBits bytes' :=
  List.flatMap_append

/-! ## What arrives -/

theorem assemble_uncompressed {t : Transforms} (hc : t.compressor = none) (connectID : RawWord)
    (h : Header) (payload : List UInt8) :
    assemble t connectID h payload =
      headerBytes h false ++
        checksumBytes t connectID (headerBytes h false) payload ++ payload := by
  have hcompressed : compressed t payload = none := by
    unfold compressed
    rw [hc]
  unfold assemble
  rw [hcompressed]
  rfl

/-- A datagram whose commands are damaged within 32 bits is dropped. -/
theorem damaged_dropped {t : Transforms} (ht : t.checksum = some enetCrc32)
    (hc : t.compressor = none) (host : ENet.Host) (known : Nat → Known) (address : ENet.Address)
    (h : Header) {payload damaged start : List UInt8} (front burst burst' back : List Bool)
    (hsent : assemble t (h.connectID known) h payload = start ++ payload)
    (hpayload : messageBits payload = front ++ burst ++ back)
    (hdamaged : messageBits damaged = front ++ burst' ++ back)
    (hlen : burst.length = burst'.length) (hburst : burst.length ≤ 32) (hne : burst ≠ burst') :
    disassemble t host known address (start ++ damaged) = none := by
  have hsum := checksumBytes_length t (h.connectID known) (headerBytes h false) payload
  have hstart : start = headerBytes h false ++
      checksumBytes t (h.connectID known) (headerBytes h false) payload :=
    List.append_cancel_right (hsent.symm.trans (assemble_uncompressed hc _ h payload))
  have hbytes : checksumBytes t (h.connectID known) (headerBytes h false) payload =
      rawWord.encode (enetCrc32 (headerBytes h false ++ rawWord.encode (h.connectID known) ++
        payload)) := by
    unfold checksumBytes
    rw [ht]
  have hdropped : receivedData t known h false (headerBytes h false ++
      (checksumBytes t (h.connectID known) (headerBytes h false) payload ++ damaged)) = none := by
    rw [receivedData_parts t known h false damaged hsum]
    simp only [decompressed, Bool.false_eq_true, if_false, ht]
    refine if_pos fun he => hne ?_
    rw [hbytes, rawWord.decode_encode] at he
    have hremainders := enetCrc32_inj he
    rw [messageBits_append, messageBits_append _ payload, hpayload, hdamaged] at hremainders
    simp only [← List.append_assoc] at hremainders
    exact (remainder_burst (by decide) hlen.symm (by omega) hremainders).symm
  rw [hstart, List.append_assoc, disassemble_parts, hdropped, Option.map_none, ite_self]

/-- A ping of which two bits are changed. -/
theorem damaged_dropped_ping : disassemble ⟨some enetCrc32, none⟩ aHost aPeer ⟨9, 7000⟩
    (headerBytes ⟨0, 1, some 9⟩ false ++ checksumBytes ⟨some enetCrc32, none⟩ (1, 2, 3, 4)
      (headerBytes ⟨0, 1, some 9⟩ false) [133, 255, 0, 1] ++ [133, 255, 0, 2]) = none :=
  damaged_dropped rfl rfl aHost aPeer _ _ (messageBits [133, 255, 0]) (byteBits 1) (byteBits 2) []
    (assemble_uncompressed rfl _ _ _) rfl rfl rfl (by decide) (by decide)

end Transport
