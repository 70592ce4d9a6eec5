import Mathlib.Data.List.Forall2
import GDNet.ENet.Peer

/-!
# The commands of a packet

`enet_peer_send` asks whether it can take a packet at all, and then queues the
commands for it one after the other.  `peerSend_iff` takes the two apart, and
`Queued` is what stays of the commands in the lists of the peer.

A packet that is too long for one command goes out in reliable fragments unless
its sender asked for unreliable ones, and an unreliable packet goes out reliably
when the unreliable sequence of its channel is used up.
-/

namespace ENet

/-- What `enet_peer_send` asks before it queues anything. -/
structure Accepts (host : Host) (peer : Peer) (channelID : UInt8) (packet : Packet) : Prop where
  connected : peer.state = .connected
  channel : channelID.toNat < peer.channelCount
  size : packet.dataLength ≤ host.maximumPacketSize
  fragments : fragmentLength host peer < packet.dataLength →
    (packet.dataLength + fragmentLength host peer - 1) / fragmentLength host peer ≤
      protocolMaximumFragmentCount

/-- The unreliable sequence of a channel has no number left. -/
def Channel.saturated (c : Channel) : Bool := decide (c.outgoingUnreliableSequenceNumber ≥ 0xFFFF)

def fragmentCommand (peer : Peer) (channelID : UInt8) (packet : Packet) (piece : Nat × Nat) :
    OutgoingCommand :=
  let unreliable :=
    packet.flags &&& (packetFlagReliable ||| packetFlagUnreliableFragment) ==
      packetFlagUnreliableFragment && !(peer.channels channelID.toNat).saturated
  { command := if unreliable then .sendUnreliableFragment else .sendFragment
    acknowledge := !unreliable
    channelID := channelID
    fragmentOffset := piece.1
    fragmentLength := piece.2
    packet := some packet }

def wholeCommand (peer : Peer) (channelID : UInt8) (packet : Packet) : OutgoingCommand :=
  let command : OutgoingCommand :=
    { command := .sendUnreliable, channelID := channelID,
      fragmentLength := packet.dataLength, packet := some packet }
  if packet.flags &&& (packetFlagReliable ||| packetFlagUnsequenced) == packetFlagUnsequenced then
    { command with command := .sendUnsequenced, unsequenced := true }
  else if packet.flags &&& packetFlagReliable != 0 ||
      (peer.channels channelID.toNat).saturated then
    { command with command := .sendReliable, acknowledge := true }
  else command

def packetCommands (host : Host) (peer : Peer) (channelID : UInt8) (packet : Packet) :
    List OutgoingCommand :=
  if packet.dataLength > fragmentLength host peer then
    (fragmentPieces packet.dataLength (fragmentLength host peer) packet.dataLength 0).map
      (fragmentCommand peer channelID packet)
  else [wholeCommand peer channelID packet]

variable {host : Host} {peer peer' : Peer} {channelID : UInt8} {packet : Packet}
  {allocates : Bool}

theorem saturated_lt (c : Channel) :
    decide (c.outgoingUnreliableSequenceNumber < 0xFFFF) = !c.saturated := by
  rw [Channel.saturated, ← decide_not, decide_eq_decide, ge_iff_le, UInt16.not_le]

/-- The first test of `enet_peer_send`. -/
theorem passes_test (hs : peer.state = .connected) (hc : channelID.toNat < peer.channelCount)
    (hd : packet.dataLength ≤ host.maximumPacketSize) :
    ¬(peer.state ≠ .connected ∨ channelID.toNat ≥ peer.channelCount ∨
      packet.dataLength > host.maximumPacketSize) := by
  rintro (h | h | h)
  · exact h hs
  · omega
  · omega

theorem peerSend_of_accepts (ha : Accepts host peer channelID packet) :
    peerSend host peer channelID packet allocates =
      if allocates then
        some ((packetCommands host peer channelID packet).foldl peerSetupOutgoingCommand peer)
      else none := by
  rw [peerSend, if_neg (passes_test ha.connected ha.channel ha.size), packetCommands]
  by_cases hl : packet.dataLength > fragmentLength host peer
  · simp only [if_pos hl, if_neg (Nat.not_lt.mpr (ha.fragments hl)), List.foldl_map]
    rw [saturated_lt]
    rfl
  · simp only [if_neg hl, List.foldl_cons, List.foldl_nil, wholeCommand]
    have hs : decide ((peer.channels channelID.toNat).outgoingUnreliableSequenceNumber ≥ 0xFFFF) =
        (peer.channels channelID.toNat).saturated := rfl
    rw [hs]
    split
    · rfl
    · split <;> rfl

/-- A packet is taken if `enet_peer_send` can take it and has the memory for its
commands. -/
theorem peerSend_iff : peerSend host peer channelID packet allocates = some peer' ↔
    Accepts host peer channelID packet ∧ allocates = true ∧
      peer' = (packetCommands host peer channelID packet).foldl peerSetupOutgoingCommand peer := by
  constructor
  · intro h
    obtain ⟨hs, hc, hd⟩ := peerSend_accepts h
    have ha : Accepts host peer channelID packet := by
      refine ⟨hs, hc, hd, fun hl => ?_⟩
      by_contra hcount
      have hcount := Nat.lt_of_not_le hcount
      rw [peerSend, if_neg (passes_test hs hc hd)] at h
      simp only [if_pos (show packet.dataLength > _ from hl), if_pos hcount] at h
      cases h
    rw [peerSend_of_accepts ha] at h
    simp only [Option.ite_none_right_eq_some, Option.some.injEq] at h
    exact ⟨ha, h.1, h.2.symm⟩
  · rintro ⟨ha, hm, rfl⟩
    rw [peerSend_of_accepts ha, if_pos hm]

/-! ## What is queued -/

/-- Numbering a command leaves what it says alone. -/
structure Numbered (c d : OutgoingCommand) : Prop where
  command : d.command = c.command
  acknowledge : d.acknowledge = c.acknowledge
  unsequenced : d.unsequenced = c.unsequenced
  channelID : d.channelID = c.channelID
  data : d.data = c.data
  packet : d.packet = c.packet

/-- The commands are at the end of the lists of the peer, in order. -/
structure Queued (p p' : Peer) (cs : List OutgoingCommand) : Prop where
  reliable : p'.outgoingReliableCommands =
    p.outgoingReliableCommands ++ cs.filter (·.acknowledge)
  unreliable : p'.outgoingUnreliableCommands =
    p.outgoingUnreliableCommands ++ cs.filter (!·.acknowledge)
  slot : p'.slot = p.slot
  channelCount : p'.channelCount = p.channelCount
  mtu : p'.mtu = p.mtu
  eventData : p'.eventData = p.eventData

theorem Queued.refl (p : Peer) : Queued p p [] :=
  ⟨(List.append_nil _).symm, (List.append_nil _).symm, rfl, rfl, rfl, rfl⟩

theorem Queued.trans {p q r : Peer} {cs ds : List OutgoingCommand} (h : Queued p q cs)
    (h' : Queued q r ds) : Queued p r (cs ++ ds) where
  reliable := by rw [h'.reliable, h.reliable, List.filter_append, List.append_assoc]
  unreliable := by rw [h'.unreliable, h.unreliable, List.filter_append, List.append_assoc]
  slot := h'.slot.trans h.slot
  channelCount := h'.channelCount.trans h.channelCount
  mtu := h'.mtu.trans h.mtu
  eventData := h'.eventData.trans h.eventData

theorem number_numbered (p : Peer) (c : OutgoingCommand) :
    Numbered c (peerNumberOutgoingCommand p c).2 := by
  unfold peerNumberOutgoingCommand
  simp only
  split
  · exact ⟨rfl, rfl, rfl, rfl, rfl, rfl⟩
  · split
    · exact ⟨rfl, rfl, rfl, rfl, rfl, rfl⟩
    · split <;> exact ⟨rfl, rfl, rfl, rfl, rfl, rfl⟩

/-- Numbering a command only counts. -/
theorem number_queued (p : Peer) (c : OutgoingCommand) :
    Queued p (peerNumberOutgoingCommand p c).1 [] := by
  unfold peerNumberOutgoingCommand
  simp only
  split
  · exact ⟨(List.append_nil _).symm, (List.append_nil _).symm, rfl, rfl, rfl, rfl⟩
  · split
    · exact ⟨(List.append_nil _).symm, (List.append_nil _).symm, rfl, rfl, rfl, rfl⟩
    · split <;> exact ⟨(List.append_nil _).symm, (List.append_nil _).symm, rfl, rfl, rfl, rfl⟩

/-- A command as `peerSetupOutgoingCommand` puts it into a list. -/
def setupCommand (p : Peer) (c : OutgoingCommand) : OutgoingCommand :=
  (peerNumberOutgoingCommand p { c with sendAttempts := 0 }).2

theorem setup_numbered (p : Peer) (c : OutgoingCommand) : Numbered c (setupCommand p c) := by
  have hn := number_numbered p { c with sendAttempts := 0 }
  exact ⟨hn.command, hn.acknowledge, hn.unsequenced, hn.channelID, hn.data, hn.packet⟩

theorem setup_queued (p : Peer) (c : OutgoingCommand) :
    Queued p (peerSetupOutgoingCommand p c) [setupCommand p c] := by
  have hack := (setup_numbered p c).acknowledge
  have hq := number_queued p { c with sendAttempts := 0 }
  unfold setupCommand at hack ⊢
  unfold peerSetupOutgoingCommand
  generalize peerNumberOutgoingCommand p { c with sendAttempts := 0 } = n at hq hack ⊢
  have hr := hq.reliable
  have hu := hq.unreliable
  simp only [List.filter_nil, List.append_nil] at hr hu
  by_cases ha : c.acknowledge = true
  · have hd : n.2.acknowledge = true := hack.trans ha
    simp only [if_pos ha]
    exact ⟨by simp [hd, hr], by simp [hd, hu], hq.slot, hq.channelCount, hq.mtu,
      hq.eventData⟩
  · have hd : n.2.acknowledge = false := hack.trans (Bool.not_eq_true _ ▸ ha)
    simp only [if_neg ha]
    exact ⟨by simp [hd, hr], by simp [hd, hu], hq.slot, hq.channelCount, hq.mtu,
      hq.eventData⟩

theorem foldl_queued : ∀ (cs : List OutgoingCommand) (p : Peer),
    ∃ ds, Queued p (cs.foldl peerSetupOutgoingCommand p) ds ∧ List.Forall₂ Numbered cs ds := by
  intro cs
  induction cs with
  | nil => exact fun p => ⟨[], Queued.refl p, .nil⟩
  | cons c cs ih =>
    intro p
    obtain ⟨ds, hds, hns⟩ := ih (peerSetupOutgoingCommand p c)
    exact ⟨_ :: ds, (setup_queued p c).trans hds, .cons (setup_numbered p c) hns⟩

theorem fragmentPieces_ne_nil {dataLength length : Nat} (h : 0 < dataLength) :
    fragmentPieces dataLength length dataLength 0 ≠ [] := by
  obtain ⟨n, rfl⟩ := Nat.exists_eq_succ_of_ne_zero (Nat.ne_of_gt h)
  rw [fragmentPieces, if_pos h]
  exact List.cons_ne_nil _ _

theorem packetCommands_ne_nil (host : Host) (peer : Peer) (channelID : UInt8) (packet : Packet) :
    packetCommands host peer channelID packet ≠ [] := by
  unfold packetCommands
  split
  · next hl =>
    intro h
    exact fragmentPieces_ne_nil (Nat.lt_of_le_of_lt (Nat.zero_le _) hl) (List.map_eq_nil_iff.mp h)
  · exact List.cons_ne_nil _ _

theorem packetCommands_mem {c : OutgoingCommand}
    (hc : c ∈ packetCommands host peer channelID packet) :
    c.channelID = channelID ∧ c.packet = some packet := by
  unfold packetCommands at hc
  split at hc
  · obtain ⟨piece, _, rfl⟩ := List.mem_map.mp hc
    exact ⟨rfl, rfl⟩
  · rw [List.mem_singleton] at hc
    subst hc
    unfold wholeCommand
    simp only
    split
    · exact ⟨rfl, rfl⟩
    · split <;> exact ⟨rfl, rfl⟩

/-- Each command of the packet that is in the lists afterwards is one of those of
the packet. -/
theorem numbered_mem {cs ds : List OutgoingCommand} (h : List.Forall₂ Numbered cs ds)
    {d : OutgoingCommand} (hd : d ∈ ds) : ∃ c ∈ cs, Numbered c d := by
  induction h with
  | nil => cases hd
  | cons hn _ ih =>
    rcases List.mem_cons.mp hd with rfl | hd
    · exact ⟨_, List.mem_cons_self, hn⟩
    · obtain ⟨c, hc, hn⟩ := ih hd
      exact ⟨c, List.mem_cons_of_mem _ hc, hn⟩

/-- A packet that is taken has its commands at the end of the lists. -/
theorem peerSend_queued (h : peerSend host peer channelID packet allocates = some peer') :
    ∃ ds, Queued peer peer' ds ∧
      List.Forall₂ Numbered (packetCommands host peer channelID packet) ds := by
  obtain ⟨_, _, rfl⟩ := peerSend_iff.mp h
  exact foldl_queued _ peer

/-! ## The class of a packet -/

/-- The commands for the packet are not one command of its own class. -/
def Demotes (host : Host) (peer : Peer) (channelID : UInt8) (packet : Packet) : Prop :=
  packet.dataLength > fragmentLength host peer ∨
    packet.flags = 0 ∧ (peer.channels channelID.toNat).saturated = true

/-- Without a request for unreliable fragments a packet that is too long is
acknowledged, and so is one that finds no unreliable number left. -/
theorem packetCommands_acknowledged {c : OutgoingCommand}
    (hf : packet.flags = 0 ∨ packet.flags = packetFlagReliable ∨
      packet.flags = packetFlagUnsequenced)
    (hd : packet.flags = packetFlagReliable ∨ Demotes host peer channelID packet)
    (hc : c ∈ packetCommands host peer channelID packet) : c.acknowledge = true := by
  unfold packetCommands at hc
  split at hc
  · obtain ⟨piece, _, rfl⟩ := List.mem_map.mp hc
    have hflags : (packet.flags &&& (packetFlagReliable ||| packetFlagUnreliableFragment) ==
        packetFlagUnreliableFragment) = false := by
      rcases hf with e | e | e <;> rw [e] <;> decide
    simp [fragmentCommand, hflags]
  · next hl =>
    obtain rfl := List.mem_singleton.mp hc
    rcases hd with e | hl' | ⟨e, hs⟩
    · have h₁ : (packet.flags &&& (packetFlagReliable ||| packetFlagUnsequenced) ==
          packetFlagUnsequenced) = false := by rw [e]; decide
      have h₂ : (packet.flags &&& packetFlagReliable != 0) = true := by rw [e]; decide
      simp [wholeCommand, h₁, h₂]
    · exact absurd hl' hl
    · have h₁ : (packet.flags &&& (packetFlagReliable ||| packetFlagUnsequenced) ==
          packetFlagUnsequenced) = false := by rw [e]; decide
      simp [wholeCommand, h₁, hs]

/-- An unsequenced packet that fits is one command, and no channel counts it. -/
theorem send_unsequenced (hf : packet.flags = packetFlagUnsequenced)
    (hd : ¬Demotes host peer channelID packet) (hch : channelID ≠ 0xFF)
    (h : peerSend host peer channelID packet allocates = some peer') :
    ∃ d, Queued peer peer' [d] ∧ d.acknowledge = false ∧ d.unsequenced = true ∧
      d.channelID = channelID ∧ d.packet = some packet ∧ peer'.channels = peer.channels := by
  obtain ⟨_, _, rfl⟩ := peerSend_iff.mp h
  have hl : ¬packet.dataLength > fragmentLength host peer := fun hl => hd (Or.inl hl)
  have h₁ : (packet.flags &&& (packetFlagReliable ||| packetFlagUnsequenced) ==
      packetFlagUnsequenced) = true := by rw [hf]; decide
  have hcs : packetCommands host peer channelID packet =
      [{ command := .sendUnsequenced, unsequenced := true, channelID := channelID,
         fragmentLength := packet.dataLength, packet := some packet }] := by
    rw [packetCommands, if_neg hl, wholeCommand]
    simp only [if_pos h₁]
  rw [hcs, List.foldl_cons, List.foldl_nil]
  have hn := setup_numbered peer
    { command := .sendUnsequenced, unsequenced := true, channelID := channelID,
      fragmentLength := packet.dataLength, packet := some packet }
  refine ⟨_, setup_queued _ _, hn.acknowledge, hn.unsequenced, hn.channelID, hn.packet, ?_⟩
  simp [peerSetupOutgoingCommand, peerNumberOutgoingCommand, hch]

theorem next_unreliable {c : Channel} (h : c.saturated = false) :
    (c.outgoingUnreliableSequenceNumber + 1).toNat =
      c.outgoingUnreliableSequenceNumber.toNat + 1 := by
  have hlt : c.outgoingUnreliableSequenceNumber.toNat < 0xFFFF := by
    have := decide_eq_false_iff_not.mp h
    rw [ge_iff_le, UInt16.not_le] at this
    exact this
  rw [UInt16.toNat_add]
  show (c.outgoingUnreliableSequenceNumber.toNat + 1) % 65536 = _
  omega

/-- A sequenced packet that fits is one command with the next unreliable number of
its channel. -/
theorem send_sequenced (hf : packet.flags = 0) (hd : ¬Demotes host peer channelID packet)
    (hch : channelID ≠ 0xFF) (h : peerSend host peer channelID packet allocates = some peer') :
    ∃ d, Queued peer peer' [d] ∧ d.acknowledge = false ∧ d.unsequenced = false ∧
      d.channelID = channelID ∧ d.packet = some packet ∧
      d.unreliableSequenceNumber.toNat =
        (peer.channels channelID.toNat).outgoingUnreliableSequenceNumber.toNat + 1 ∧
      peer'.channels = Function.update peer.channels channelID.toNat
        { peer.channels channelID.toNat with
          outgoingUnreliableSequenceNumber := d.unreliableSequenceNumber } := by
  obtain ⟨_, _, rfl⟩ := peerSend_iff.mp h
  have hl : ¬packet.dataLength > fragmentLength host peer := fun hl => hd (Or.inl hl)
  have hs : (peer.channels channelID.toNat).saturated = false := by
    by_contra hs
    exact hd (Or.inr ⟨hf, Bool.not_eq_false _ ▸ hs⟩)
  have h₁ : (packet.flags &&& (packetFlagReliable ||| packetFlagUnsequenced) ==
      packetFlagUnsequenced) = false := by rw [hf]; decide
  have h₂ : (packet.flags &&& packetFlagReliable != 0) = false := by rw [hf]; decide
  have hcs : packetCommands host peer channelID packet =
      [{ command := .sendUnreliable, channelID := channelID,
         fragmentLength := packet.dataLength, packet := some packet }] := by
    rw [packetCommands, if_neg hl, wholeCommand]
    simp [h₁, h₂, hs]
  rw [hcs, List.foldl_cons, List.foldl_nil]
  have hn := setup_numbered peer
    { command := .sendUnreliable, channelID := channelID,
      fragmentLength := packet.dataLength, packet := some packet }
  refine ⟨_, setup_queued _ _, hn.acknowledge, hn.unsequenced, hn.channelID, hn.packet, ?_, ?_⟩
  · rw [← next_unreliable hs]
    simp [setupCommand, peerNumberOutgoingCommand, hch]
  · simp [setupCommand, peerSetupOutgoingCommand, peerNumberOutgoingCommand, hch]

end ENet
