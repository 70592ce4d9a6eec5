import GDNet.Transport.Reliable
import GDNet.Transport.Retransmission

/-!
# What a sender has accepted

The plan of a channel are the parcels of the packets that `enet_peer_send` accepted
for reliable delivery, in order.  Each of their commands has its number in the plan;
`Carries` says that a peer's reliable commands are commands of the plan.
-/

namespace Transport
open ENet (PeerState Packet ProtocolCommand packetFlagReliable packetFlagUnsequenced
  packetFlagUnreliableFragment fragmentPieces)

/-- The command that carries a part of the plan. -/
def Arrival.command (a : Arrival) (channelID : UInt8) (flags : UInt32) : Outgoing :=
  let packet : Packet := { flags := flags, data := a.parcel.data }
  let c : Outgoing :=
    if a.parcel.fragmented then
      fragmentCommand .sendFragment true channelID (UInt16.ofNat a.start) a.parcel.count packet
        a.index (a.index * a.parcel.pieceLength, (a.parcel.piece a.index).length)
    else
      { command := .sendReliable, acknowledge := true, channelID := channelID
        fragmentLength := packet.dataLength, packet := some packet }
  c.number (UInt16.ofNat a.number) 0 a.number

/-- The command is one of the plan. -/
def Planned (plan : List Parcel) (channelID : UInt8) (c : Outgoing) (a : Arrival) : Prop :=
  (a.start, a.parcel) ∈ numbered 0 plan ∧ ∃ flags, c.message = a.command channelID flags

theorem Planned.serial {plan : List Parcel} {channelID : UInt8} {c : Outgoing} {a : Arrival}
    (h : Planned plan channelID c a) : c.serial = a.number := by
  obtain ⟨-, flags, hc⟩ := h
  exact congrArg (fun c => c.serial) hc

theorem Planned.more {plan : List Parcel} {channelID : UInt8} {c : Outgoing} {a : Arrival}
    (h : Planned plan channelID c a) (ps : List Parcel) : Planned (plan ++ ps) channelID c a := by
  refine ⟨?_, h.2⟩
  rw [numbered_append]
  exact List.mem_append_left _ h.1

structure Carries (channelID : UInt8) (plan : List Parcel) (p : Outbound) : Prop where
  serial : (p.channels channelID.toNat).serial = total plan
  planned : ∀ c ∈ p.reliable, c.channelID = channelID → ∃ a, Planned plan channelID c a

theorem Carries.start {channelCount mtu : Nat} {state : PeerState} (channelID : UInt8) :
    Carries channelID []
      { state := state, mtu := mtu, channelCount := channelCount, channels := fun _ => {} } :=
  ⟨rfl, fun c hc => by cases hc⟩

/-- The commands may move. -/
theorem Carries.moved {channelID : UInt8} {plan : List Parcel} {p p' : Outbound}
    (h : Carries channelID plan p)
    (hs : (p'.channels channelID.toNat).serial = (p.channels channelID.toNat).serial)
    (hm : ∀ c ∈ p'.reliable, ∃ d ∈ p.reliable, d.message = c.message) :
    Carries channelID plan p' := by
  refine ⟨hs.trans h.serial, fun c hc hch => ?_⟩
  obtain ⟨d, hd, he⟩ := hm c hc
  obtain ⟨a, ha, flags, hmsg⟩ := h.planned d hd
    ((congrArg (fun c => c.channelID) he).trans hch)
  exact ⟨a, ha, flags, he.symm.trans hmsg⟩

/-! ## Queueing -/

/-- A reliable command of the channel takes the next number. -/
theorem setup_next {p : Outbound} {c : Outgoing} (hctl : c.channelID ≠ 0xFF)
    (hack : c.acknowledge = true) :
    peerSetupOutgoingCommand p c =
      { p.setChannel c.channelID.toNat (p.channels c.channelID.toNat).next with
        outgoingReliableCommands := p.outgoingReliableCommands ++
          [c.number (p.channels c.channelID.toNat).next.outgoingReliableSequenceNumber 0
            (p.channels c.channelID.toNat).next.serial] } := by
  unfold peerSetupOutgoingCommand
  simp only [if_neg hctl, if_pos hack]
  rfl

/-- Commands that are not reliable, or not of the channel, leave its reliable ones. -/
theorem setup_other {p : Outbound} {c : Outgoing} {i : Nat}
    (h : c.acknowledge = false ∨ c.channelID.toNat ≠ i) (hi : i < 255) :
    ((peerSetupOutgoingCommand p c).channels i).serial = (p.channels i).serial ∧
      ∃ new, (peerSetupOutgoingCommand p c).reliable = p.reliable ++ new ∧
        ∀ d ∈ new, d.channelID.toNat ≠ i := by
  unfold peerSetupOutgoingCommand
  by_cases hctl : c.channelID = 0xFF
  · simp only [if_pos hctl]
    split
    · refine ⟨rfl, [c.number (p.outgoingReliableSequenceNumber + 1) 0 c.serial],
        (List.append_assoc ..).symm, ?_⟩
      intro d hd
      rw [List.mem_singleton.mp hd]
      show c.channelID.toNat ≠ i
      rw [hctl]
      show 255 ≠ i
      omega
    · exact ⟨rfl, [], (List.append_nil _).symm, fun d hd => by cases hd⟩
  · simp only [if_neg hctl]
    by_cases hack : c.acknowledge = true
    · have hne : c.channelID.toNat ≠ i := by
        rcases h with h | h
        · rw [hack] at h
          cases h
        · exact h
      simp only [if_pos hack]
      refine ⟨?_, [_], (List.append_assoc ..).symm, fun d hd => ?_⟩
      · show (Function.update p.channels c.channelID.toNat _ i).serial = _
        rw [Function.update_of_ne (Ne.symm hne)]
      · rw [List.mem_singleton.mp hd]
        exact hne
    · simp only [if_neg hack]
      split
      · exact ⟨rfl, [], (List.append_nil _).symm, fun d hd => by cases hd⟩
      · refine ⟨?_, [], (List.append_nil _).symm, fun d hd => by cases hd⟩
        show (Function.update p.channels c.channelID.toNat _ i).serial = _
        by_cases hi : c.channelID.toNat = i
        · subst hi
          rw [Function.update_self]
        · rw [Function.update_of_ne (Ne.symm hi)]

theorem Sound.foldl {i base : Nat} (cs : List Outgoing) (p : Outbound) (h : Sound i base p)
    (hp : ∀ c ∈ cs, c.packet.isSome = true) :
    Sound i base (cs.foldl peerSetupOutgoingCommand p) := by
  induction cs generalizing p with
  | nil => exact h
  | cons c cs ih =>
    obtain ⟨hc, hcs⟩ := List.forall_mem_cons.mp hp
    exact ih _ (h.setup c fun _ _ => hc) hcs

theorem foldl_other {i : Nat} (hi : i < 255) (cs : List Outgoing) (p : Outbound)
    (h : ∀ c ∈ cs, c.acknowledge = false ∨ c.channelID.toNat ≠ i) :
    ((cs.foldl peerSetupOutgoingCommand p).channels i).serial = (p.channels i).serial ∧
      ∃ new, (cs.foldl peerSetupOutgoingCommand p).reliable = p.reliable ++ new ∧
        ∀ d ∈ new, d.channelID.toNat ≠ i := by
  induction cs generalizing p with
  | nil => exact ⟨rfl, [], (List.append_nil _).symm, fun d hd => by cases hd⟩
  | cons c cs ih =>
    obtain ⟨hc, hcs⟩ := List.forall_mem_cons.mp h
    obtain ⟨hserial, new, hr, hnew⟩ := setup_other (p := p) hc hi
    obtain ⟨hserial', new', hr', hnew'⟩ := ih (peerSetupOutgoingCommand p c) hcs
    refine ⟨hserial'.trans hserial, new ++ new', ?_, List.forall_mem_append.mpr ⟨hnew, hnew'⟩⟩
    rw [List.foldl_cons, hr', hr, List.append_assoc]

/-- Reliable commands of one channel are numbered through. -/
theorem foldl_next {channelID : UInt8} (hctl : channelID ≠ 0xFF) (cs : List Outgoing)
    (p : Outbound) (h : ∀ c ∈ cs, c.acknowledge = true ∧ c.channelID = channelID) (n : Nat)
    (hserial : (p.channels channelID.toNat).serial = n)
    (hcounter : (p.channels channelID.toNat).outgoingReliableSequenceNumber = UInt16.ofNat n) :
    ((cs.foldl peerSetupOutgoingCommand p).channels channelID.toNat).serial = n + cs.length ∧
      (cs.foldl peerSetupOutgoingCommand p).reliable = p.reliable ++
        cs.mapIdx fun k c => c.number (UInt16.ofNat (n + 1 + k)) 0 (n + 1 + k) := by
  induction cs generalizing p n with
  | nil => exact ⟨hserial, (List.append_nil _).symm⟩
  | cons c cs ih =>
    obtain ⟨⟨hack, rfl⟩, hcs⟩ := List.forall_mem_cons.mp h
    have hnext : (p.channels c.channelID.toNat).next.outgoingReliableSequenceNumber =
        UInt16.ofNat (n + 1) := by
      show (p.channels c.channelID.toNat).outgoingReliableSequenceNumber + 1 = _
      rw [hcounter, ← UInt16.ofNat_one, ← UInt16.ofNat_add]
    have hnext' : (p.channels c.channelID.toNat).next.serial = n + 1 := by
      rw [← hserial]
      rfl
    have hset := setup_next (p := p) hctl hack
    rw [hnext, hnext'] at hset
    have hself : (peerSetupOutgoingCommand p c).channels c.channelID.toNat =
        (p.channels c.channelID.toNat).next := by
      rw [hset]
      exact Function.update_self ..
    obtain ⟨hs, hr⟩ := ih (peerSetupOutgoingCommand p c) hcs (n + 1) (by rw [hself]; exact hnext')
      (by rw [hself]; exact hnext)
    have hone : (peerSetupOutgoingCommand p c).reliable =
        p.reliable ++ [c.number (UInt16.ofNat (n + 1)) 0 (n + 1)] := by
      rw [hset]
      exact (List.append_assoc ..).symm
    refine ⟨?_, ?_⟩
    · rw [List.foldl_cons, hs, List.length_cons]
      omega
    · rw [List.foldl_cons, hr, hone, List.append_assoc, List.singleton_append, List.mapIdx_cons]
      congr 2
      refine List.mapIdx_eq_mapIdx_iff.mpr fun k hk => ?_
      rw [show n + 1 + 1 + k = n + 1 + (k + 1) by omega]

/-! ## Sending a packet -/

/-- `enet_peer_send` makes reliable commands of the packet. -/
def sendsReliably (p : Outbound) (checksum : Bool) (channelID : UInt8) (packet : Packet) : Bool :=
  let exhausted := decide ((p.channels channelID.toNat).outgoingUnreliableSequenceNumber ≥ 0xFFFF)
  if packet.dataLength > p.pieceLength checksum then
    packet.flags &&& (packetFlagReliable ||| packetFlagUnreliableFragment) !=
      packetFlagUnreliableFragment || exhausted
  else
    packet.flags &&& (packetFlagReliable ||| packetFlagUnsequenced) != packetFlagUnsequenced &&
      (packet.flags &&& packetFlagReliable != 0 || exhausted)

/-- What a packet adds to the plan of a channel. -/
def accepted (p : Outbound) (checksum : Bool) (channelID sendTo : UInt8) (packet : Packet) :
    List Parcel :=
  if h : 0 < p.pieceLength checksum ∧ sendTo = channelID ∧
      sendsReliably p checksum sendTo packet = true then
    [{ data := packet.data
       pieceLength := p.pieceLength checksum
       pieceLength_pos := h.1 }]
  else []

/-- The commands that `enet_peer_send` queues, without their numbers. -/
def sendCommands (p : Outbound) (checksum : Bool) (channelID : UInt8) (packet : Packet) :
    List Outgoing :=
  let channel := p.channels channelID.toNat
  let length := p.pieceLength checksum
  let reliably := sendsReliably p checksum channelID packet
  if packet.dataLength > length then
    fragmentCommands (if reliably then .sendFragment else .sendUnreliableFragment) reliably
      channelID
      (if reliably then channel.outgoingReliableSequenceNumber + 1
        else channel.outgoingUnreliableSequenceNumber + 1)
      ((packet.dataLength + length - 1) / length) packet
      (fragmentPieces packet.dataLength length packet.dataLength 0)
  else
    let unsequenced := packet.flags &&& (packetFlagReliable ||| packetFlagUnsequenced) ==
      packetFlagUnsequenced
    [{ command :=
         if unsequenced then .sendUnsequenced
         else if reliably then .sendReliable else .sendUnreliable
       acknowledge := reliably
       unsequenced := unsequenced
       channelID := channelID
       fragmentLength := packet.dataLength
       packet := some packet }]

/-- A packet that is accepted becomes its commands. -/
theorem peerSend_eq {checksum : Bool} {maximum : Nat} {p p' : Outbound} {channelID : UInt8}
    {packet : Packet} {allocates : Bool}
    (h : peerSend checksum maximum p channelID packet allocates = some p') :
    p.state = .connected ∧ channelID.toNat < p.channelCount ∧
      p' = (sendCommands p checksum channelID packet).foldl peerSetupOutgoingCommand p := by
  unfold peerSend at h
  split at h
  · cases h
  · next hc =>
    simp only [not_or, ne_eq, not_not, ge_iff_le, Nat.not_le] at hc
    refine ⟨hc.1, hc.2.1, ?_⟩
    simp only at h
    unfold sendCommands sendsReliably
    simp only
    split at h
    · next hl =>
      simp only [if_pos hl]
      split at h
      · cases h
      · split at h
        · rw [← Option.some.inj h]
          split
          · next hu =>
            rw [Bool.and_eq_true, beq_iff_eq, decide_eq_true_eq] at hu
            have hx : ¬(p.channels channelID.toNat).outgoingUnreliableSequenceNumber ≥ 0xFFFF :=
              UInt16.not_le.mpr hu.2
            simp [hu.1, hx]
          · next hu =>
            rw [Bool.and_eq_true, beq_iff_eq, decide_eq_true_eq, not_and_or, UInt16.not_lt] at hu
            have hr : (packet.flags &&& (packetFlagReliable ||| packetFlagUnreliableFragment) !=
                packetFlagUnreliableFragment || decide ((p.channels
                  channelID.toNat).outgoingUnreliableSequenceNumber ≥ 0xFFFF)) = true := by
              rw [Bool.or_eq_true, bne_iff_ne, decide_eq_true_eq]
              exact hu
            simp only [hr, if_true]
        · cases h
    · next hl =>
      simp only [if_neg hl]
      split at h
      · rw [← Option.some.inj h, List.foldl_cons, List.foldl_nil]
        split
        · next hu => simp [bne, hu]
        · next hu =>
          rw [Bool.not_eq_true] at hu
          have hne : (packet.flags &&& (packetFlagReliable ||| packetFlagUnsequenced) !=
              packetFlagUnsequenced) = true := by rw [bne, hu, Bool.not_false]
          simp only [hne, hu, Bool.true_and]
          split
          · next hr => simp only [hr]
          · next hr =>
            rw [Bool.not_eq_true] at hr
            simp only [hr]
      · cases h

theorem sendCommands_all (p : Outbound) (checksum : Bool) (channelID : UInt8) (packet : Packet) :
    ∀ c ∈ sendCommands p checksum channelID packet, c.packet = some packet ∧
      c.channelID = channelID ∧ c.acknowledge = sendsReliably p checksum channelID packet := by
  intro c hc
  unfold sendCommands at hc
  simp only at hc
  split at hc
  · obtain ⟨k, hk, rfl⟩ := List.mem_mapIdx.mp hc
    exact ⟨rfl, rfl, rfl⟩
  · rw [List.mem_singleton.mp hc]
    exact ⟨rfl, rfl, rfl⟩

/-- The commands of a packet that is sent reliably are those of its parcel. -/
theorem sendCommands_reliable {p : Outbound} {checksum : Bool} {channelID : UInt8}
    {packet : Packet} {q : Parcel} (hq : q.data = packet.data)
    (hl : q.pieceLength = p.pieceLength checksum)
    (hr : sendsReliably p checksum channelID packet = true) {n : Nat}
    (hn : (p.channels channelID.toNat).outgoingReliableSequenceNumber = UInt16.ofNat n) :
    (sendCommands p checksum channelID packet).length = q.count ∧
      ∀ k c, (sendCommands p checksum channelID packet)[k]? = some c → ∃ hk : k < q.count,
        c.number (UInt16.ofNat (n + 1 + k)) 0 (n + 1 + k) =
          Arrival.command ⟨n + 1, q, k, hk⟩ channelID packet.flags := by
  have hstart : UInt16.ofNat n + 1 = UInt16.ofNat (n + 1) := by
    rw [← UInt16.ofNat_one, ← UInt16.ofNat_add]
  unfold sendCommands
  simp only [hr, if_true, hn, hstart, Packet.dataLength, ← hl, ← hq]
  by_cases hf : q.fragmented = true
  · have hlong : q.data.length > q.pieceLength := Parcel.fragmented_iff.mp hf
    have hpieces := Parcel.fragmentPieces_eq hf 0 q.data.length (by omega)
    rw [Nat.zero_mul, Nat.sub_zero] at hpieces
    have hcount : (q.data.length + q.pieceLength - 1) / q.pieceLength = q.count := by
      rw [Parcel.count, if_pos hf]
    simp only [if_pos hlong, hcount, hpieces, fragmentCommands]
    refine ⟨by rw [List.length_mapIdx, List.length_map, List.length_range'], fun k c hc => ?_⟩
    rw [List.getElem?_mapIdx, List.getElem?_map] at hc
    by_cases hk : k < q.count
    · refine ⟨hk, ?_⟩
      rw [List.getElem?_range' hk, Option.map_some, Option.map_some, Option.some.injEq] at hc
      rw [← hc]
      unfold Arrival.command
      simp only [hf, if_true, Nat.zero_add, Nat.one_mul, Arrival.number, hq]
    · rw [List.getElem?_eq_none (by rw [List.length_range']; omega)] at hc
      cases hc
  · have hshort : ¬q.data.length > q.pieceLength := fun h => hf (Parcel.fragmented_iff.mpr h)
    have hcount := Parcel.count_of_whole (by simpa using hf)
    have hnot : (packet.flags &&& (packetFlagReliable ||| packetFlagUnsequenced) ==
        packetFlagUnsequenced) = false := by
      unfold sendsReliably Packet.dataLength at hr
      rw [← hl, ← hq, if_neg hshort, Bool.and_eq_true] at hr
      simpa using hr.1
    simp only [if_neg hshort, hnot, Bool.false_eq_true, if_false]
    refine ⟨hcount.symm, fun k c hc => ?_⟩
    cases k with
    | zero =>
      refine ⟨q.count_pos, ?_⟩
      rw [← Option.some.inj hc]
      unfold Arrival.command
      simp only [hf, Bool.false_eq_true, if_false, Arrival.number, hq, Packet.dataLength,
        Nat.add_zero]
    | succ k => cases hc

theorem accepted_of {p : Outbound} {checksum : Bool} {channelID sendTo : UInt8} {packet : Packet}
    (hpos : 0 < p.pieceLength checksum) (hto : sendTo = channelID)
    (hr : sendsReliably p checksum sendTo packet = true) :
    ∃ q, accepted p checksum channelID sendTo packet = [q] ∧ q.data = packet.data ∧
      q.pieceLength = p.pieceLength checksum := by
  refine ⟨_, dif_pos ⟨hpos, hto, hr⟩, rfl, rfl⟩

/-- The plan grows by what is accepted, and nothing else changes about the channel. -/
theorem peerSend_carries {base : Nat} {checksum : Bool} {maximum : Nat} {p p' : Outbound}
    {channelID sendTo : UInt8} {packet : Packet} {plan : List Parcel} {allocates : Bool}
    (h : Sound channelID.toNat base p) (hc : Carries channelID plan p)
    (hpos : 0 < p.pieceLength checksum)
    (hs : peerSend checksum maximum p sendTo packet allocates = some p') :
    Sound channelID.toNat base p' ∧
      Carries channelID (plan ++ accepted p checksum channelID sendTo packet) p' ∧
      ∃ new, p'.reliable = p.reliable ++ new := by
  obtain ⟨-, -, rfl⟩ := peerSend_eq hs
  have hall := sendCommands_all p checksum sendTo packet
  have hlt : channelID.toNat < 255 := Nat.lt_of_lt_of_le h.channel h.channels
  refine ⟨h.foldl _ _ fun c hc => by rw [(hall c hc).1]; rfl, ?_⟩
  by_cases hto : sendTo = channelID ∧ sendsReliably p checksum sendTo packet = true
  · obtain ⟨rfl, hr⟩ := hto
    obtain ⟨q, hq, hdata, hlength⟩ := accepted_of hpos rfl hr
    have hserial := hc.serial
    have hcounter := h.counter
    rw [hserial] at hcounter
    obtain ⟨hcount, hcommands⟩ := sendCommands_reliable hdata hlength hr hcounter
    obtain ⟨hnew, hrel⟩ := foldl_next (h.ne_control rfl) _ p
      (fun c hc => ⟨(hall c hc).2.2.trans hr, (hall c hc).2.1⟩) (total plan) hserial hcounter
    refine ⟨⟨?_, fun c hmem hch => ?_⟩, _, hrel⟩
    · rw [hnew, hq, total_append, hcount, total, total, Nat.add_zero]
    · rw [hrel, List.mem_append] at hmem
      rcases hmem with hmem | hmem
      · obtain ⟨a, ha⟩ := hc.planned c hmem hch
        exact ⟨a, ha.more _⟩
      · obtain ⟨k, hk, rfl⟩ := List.mem_mapIdx.mp hmem
        obtain ⟨hlt, heq⟩ := hcommands k _ (List.getElem?_eq_getElem hk)
        refine ⟨⟨total plan + 1, q, k, hlt⟩, ?_, packet.flags, ?_⟩
        · rw [hq, numbered_append, Nat.zero_add]
          exact List.mem_append_right _ List.mem_cons_self
        · rw [← heq]
          rfl
  · have hnone : accepted p checksum channelID sendTo packet = [] :=
      dif_neg fun hp => hto hp.2
    obtain ⟨hserial, new, hrel, hnew⟩ := foldl_other hlt _ p fun c hmem => by
      obtain ⟨-, hch, hack⟩ := hall c hmem
      by_cases he : sendTo = channelID
      · refine .inl (hack.trans ?_)
        simpa [he] using hto
      · refine .inr fun hi => he ?_
        rw [← hch]
        exact UInt8.toNat_inj.mp hi
    rw [hnone, List.append_nil]
    refine ⟨⟨hserial.trans hc.serial, fun c hmem hch => ?_⟩, new, hrel⟩
    rw [hrel, List.mem_append] at hmem
    rcases hmem with hmem | hmem
    · exact hc.planned c hmem hch
    · exact absurd (congrArg UInt8.toNat hch) (hnew c hmem)

end Transport
