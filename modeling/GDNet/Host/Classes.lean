import GDNet.Host.Delivery
import GDNet.Host.Rises

/-!
# Delivery classes

What the host thread queues for a message, peer by peer, and in which class.  A
message that fits into one command goes out in the class it was sent with.  A
longer one goes out in fragments, which ENet acknowledges whatever the class, and
a sequenced one is acknowledged when its channel has used up the unreliable
numbers, so that they start again.
-/

namespace GDNet

open Transition

variable {s t : State} {a : Action} {q : QueuedMessage} {m : Message} {input : WorkerInput}
  {h h' : ENet.Host} {i : Nat}

/-! ## One message, peer by peer -/

def Message.enetPacket (m : Message) : ENet.Packet := ⟨packetFlags m.type, m.packet⟩

def Message.channel (m : Message) : UInt8 := UInt8.ofInt m.channelId

/-- The message is for the slot `i` of the host. -/
def Message.For (m : Message) (h : ENet.Host) (i : Nat) : Prop :=
  if m.broadcast then i < h.peerCount else m.slot = i

theorem peerSend_congr {g : ENet.Host} (hc : g.checksum = h.checksum)
    (hm : g.maximumPacketSize = h.maximumPacketSize) (p : ENet.Peer) (channelID : UInt8)
    (packet : ENet.Packet) (allocates : Bool) :
    ENet.peerSend g p channelID packet allocates =
      ENet.peerSend h p channelID packet allocates := by
  unfold ENet.peerSend ENet.fragmentLength
  rw [hc, hm]

/-- A peer that is not connected takes no packet. -/
theorem peerSend_unconnected {p : ENet.Peer} {channelID : UInt8} {packet : ENet.Packet}
    {allocates : Bool} (hs : p.state ≠ .connected) :
    ENet.peerSend h p channelID packet allocates = none := by
  cases hp : ENet.peerSend h p channelID packet allocates with
  | none => rfl
  | some p' => exact absurd (ENet.peerSend_accepts hp).1 hs

/-- The loop of a broadcast comes to every peer of its list once. -/
theorem broadcastLoop_peer (channelID : UInt8) (packet : ENet.Packet) (allocates : Nat → Bool) :
    ∀ (slots : List Nat) (h : ENet.Host), slots.Nodup →
    ((∀ j ∉ slots, (ENet.broadcastLoop channelID packet allocates slots h).peers j = h.peers j) ∧
      ∀ j ∈ slots, (ENet.broadcastLoop channelID packet allocates slots h).peers j =
        (ENet.peerSend h (h.peers j) channelID packet (allocates j)).getD (h.peers j)) := by
  intro slots
  induction slots with
  | nil =>
    intro h _
    refine ⟨fun j _ => rfl, fun j hj => ?_⟩
    cases hj
  | cons i slots ih =>
    intro h hn
    obtain ⟨hi, hn⟩ := List.nodup_cons.mp hn
    unfold ENet.broadcastLoop
    by_cases hs : (h.peers i).state ≠ .connected
    · rw [if_pos hs]
      obtain ⟨hout, hin⟩ := ih h hn
      refine ⟨fun j hj => hout j fun hm => hj (List.mem_cons_of_mem i hm), fun j hj => ?_⟩
      rcases List.mem_cons.mp hj with rfl | hj
      · rw [hout j hi, peerSend_unconnected hs]
        rfl
      · exact hin j hj
    · rw [if_neg hs]
      obtain ⟨hout, hin⟩ := ih (h.update i fun p =>
        (ENet.peerSend h p channelID packet (allocates i)).getD p) hn
      refine ⟨fun j hj => ?_, fun j hj => ?_⟩
      · rw [hout j fun hm => hj (List.mem_cons_of_mem i hm)]
        exact ENet.Host.update_peers_of_ne h _ fun e => hj (e ▸ List.mem_cons_self)
      · rcases List.mem_cons.mp hj with rfl | hj
        · rw [hout j hi, ENet.Host.update_peers_self]
        · have hne : j ≠ i := fun e => hi (e ▸ hj)
          rw [hin j hj, ENet.Host.update_peers_of_ne h _ hne,
            peerSend_congr (g := h.update i _) (h := h) rfl rfl]

/-- What the host thread does to each peer when it hands a message over. -/
theorem handOver_peer (ho : handOver h m input = some h') (hc : input.creates = true) (i : Nat) :
    (m.For h i → h'.peers i =
      (ENet.peerSend h (h.peers i) m.channel m.enetPacket (input.allocates i)).getD (h.peers i)) ∧
    (¬m.For h i → h'.peers i = h.peers i) := by
  unfold handOver at ho
  simp only [hc, Bool.not_true, Bool.false_eq_true, if_false] at ho
  unfold Message.For
  by_cases hb : m.broadcast = true
  · simp only [hb, if_true, Option.some.injEq] at ho ⊢
    subst ho
    obtain ⟨hout, hin⟩ := broadcastLoop_peer m.channel m.enetPacket input.allocates
      (List.range h.peerCount) h List.nodup_range
    exact ⟨fun hi => hin i (List.mem_range.mpr hi), fun hi => hout i fun hm =>
      hi (List.mem_range.mp hm)⟩
  · simp only [if_neg hb] at ho ⊢
    split at ho
    · obtain rfl := Option.some.inj ho
      refine ⟨fun hi => ?_, fun hi => ENet.Host.update_peers_of_ne h _ fun e => hi e.symm⟩
      subst hi
      exact ENet.Host.update_peers_self h _ _
    · cases ho

theorem handOver_uncreated (ho : handOver h m input = some h') (hc : input.creates = false) :
    h' = h := by
  unfold handOver at ho
  simp only [hc, Bool.not_false, if_true, Option.some.injEq] at ho
  exact ho.symm

/-- A peer that a message leaves changed has taken it. -/
theorem handOver_taken (ho : handOver h m input = some h') (hi : h'.peers i ≠ h.peers i) :
    m.For h i ∧ ENet.peerSend h (h.peers i) m.channel m.enetPacket (input.allocates i) =
      some (h'.peers i) := by
  cases hc : input.creates with
  | false =>
    rw [handOver_uncreated ho hc] at hi
    exact absurd rfl hi
  | true =>
    obtain ⟨hin, hout⟩ := handOver_peer ho hc i
    have hfor : m.For h i := by
      by_contra hn
      exact hi (hout hn)
    refine ⟨hfor, ?_⟩
    have hp := hin hfor
    cases hs : ENet.peerSend h (h.peers i) m.channel m.enetPacket (input.allocates i) with
    | none =>
      rw [hs] at hp
      exact absurd hp hi
    | some p =>
      rw [hs] at hp
      rw [hp]
      rfl

/-! ## The class of a message -/

/-- One command of the class the message was sent with. -/
def Message.InClass (m : Message) (p p' : ENet.Peer) (c : ENet.OutgoingCommand) : Prop :=
  match m.type with
  | .reliable => c.acknowledge = true
  | .unsequenced => c.acknowledge = false ∧ c.unsequenced = true ∧ p'.channels = p.channels
  | _ =>
    c.acknowledge = false ∧ c.unsequenced = false ∧
      c.unreliableSequenceNumber.toNat =
        (p.channels m.channel.toNat).outgoingUnreliableSequenceNumber.toNat + 1 ∧
      p'.channels = Function.update p.channels m.channel.toNat
        { p.channels m.channel.toNat with
          outgoingUnreliableSequenceNumber := c.unreliableSequenceNumber }

/-- ENet acknowledges the commands of the message although it was not sent as RELIABLE. -/
def Message.Demoted (m : Message) (h : ENet.Host) (p : ENet.Peer) : Prop :=
  m.type ≠ .reliable ∧ ENet.Demotes h p m.channel m.enetPacket

theorem packetFlags_cases (type : MessageType) :
    (type = .reliable ∧ packetFlags type = ENet.packetFlagReliable) ∨
    (type = .unsequenced ∧ packetFlags type = ENet.packetFlagUnsequenced) ∨
    (type ≠ .reliable ∧ type ≠ .unsequenced ∧ packetFlags type = 0) := by
  cases type with
  | unsequenced => exact Or.inr (Or.inl ⟨rfl, rfl⟩)
  | sequenced => exact Or.inr (Or.inr ⟨by simp, by simp, rfl⟩)
  | reliable => exact Or.inl ⟨rfl, rfl⟩
  | other n => exact Or.inr (Or.inr ⟨by simp, by simp, rfl⟩)

/-- The commands that a peer takes for a message. -/
structure QueuedFor (m : Message) (h : ENet.Host) (p p' : ENet.Peer)
    (cs : List ENet.OutgoingCommand) : Prop where
  queued : ENet.Queued p p' cs
  some : cs ≠ []
  carries : ∀ c ∈ cs, c.channelID = m.channel ∧ c.packet = Option.some m.enetPacket
  acknowledged : m.type = .reliable ∨ m.Demoted h p → ∀ c ∈ cs, c.acknowledge = true
  inClass : ¬m.Demoted h p → (∀ c ∈ cs, m.InClass p p' c) ∧ (m.type ≠ .reliable → ∃ c, cs = [c])

theorem peerSend_acknowledged {p p' : ENet.Peer} {allocates : Bool}
    (hs : ENet.peerSend h p m.channel m.enetPacket allocates = some p')
    (hd : m.type = .reliable ∨ m.Demoted h p) :
    ∃ cs, ENet.Queued p p' cs ∧ cs ≠ [] ∧
      (∀ c ∈ cs, c.channelID = m.channel ∧ c.packet = some m.enetPacket) ∧
      ∀ c ∈ cs, c.acknowledge = true := by
  obtain ⟨ds, hq, hn⟩ := ENet.peerSend_queued hs
  refine ⟨ds, hq, ?_, fun d hm => ?_, fun d hm => ?_⟩
  · rintro rfl
    exact ENet.packetCommands_ne_nil _ _ _ _ (List.forall₂_nil_right_iff.mp hn)
  · obtain ⟨c, hc, hcd⟩ := ENet.numbered_mem hn hm
    obtain ⟨hch, hp⟩ := ENet.packetCommands_mem hc
    exact ⟨hcd.channelID.trans hch, hcd.packet.trans hp⟩
  · obtain ⟨c, hc, hcd⟩ := ENet.numbered_mem hn hm
    rw [hcd.acknowledge]
    refine ENet.packetCommands_acknowledged ?_ ?_ hc
    · rcases packetFlags_cases m.type with ⟨_, e⟩ | ⟨_, e⟩ | ⟨_, _, e⟩
      · exact Or.inr (Or.inl e)
      · exact Or.inr (Or.inr e)
      · exact Or.inl e
    · rcases hd with e | hd
      · refine Or.inl ?_
        show packetFlags m.type = _
        rw [e]
        rfl
      · exact Or.inr hd.2

theorem peerSend_taken {p p' : ENet.Peer} {allocates : Bool} (hch : m.channel ≠ 0xFF)
    (hs : ENet.peerSend h p m.channel m.enetPacket allocates = some p') :
    ∃ cs, QueuedFor m h p p' cs := by
  by_cases hd : m.type = .reliable ∨ m.Demoted h p
  · obtain ⟨cs, hq, hne, hc, hack⟩ := peerSend_acknowledged hs hd
    refine ⟨cs, hq, hne, hc, fun _ => hack, fun hn => ?_⟩
    have hr : m.type = .reliable := hd.resolve_right hn
    refine ⟨fun c hm => ?_, fun hr' => absurd hr hr'⟩
    rw [Message.InClass, hr]
    exact hack c hm
  · rw [not_or] at hd
    have hn : ¬ENet.Demotes h p m.channel m.enetPacket := fun hx => hd.2 ⟨hd.1, hx⟩
    rcases packetFlags_cases m.type with ⟨e, _⟩ | ⟨e, hf⟩ | ⟨_, e, hf⟩
    · exact absurd e hd.1
    · obtain ⟨c, hq, hack, huns, hchan, hpkt, hsame⟩ := ENet.send_unsequenced hf hn hch hs
      refine ⟨[c], hq, List.cons_ne_nil _ _, fun d hm => ?_, fun hx => ?_, fun _ =>
        ⟨fun d hm => ?_, fun _ => ⟨c, rfl⟩⟩⟩
      · obtain rfl := List.mem_singleton.mp hm
        exact ⟨hchan, hpkt⟩
      · exact absurd hx (not_or.mpr hd)
      · obtain rfl := List.mem_singleton.mp hm
        rw [Message.InClass, e]
        exact ⟨hack, huns, hsame⟩
    · obtain ⟨c, hq, hack, huns, hchan, hpkt, hnum, hcount⟩ := ENet.send_sequenced hf hn hch hs
      refine ⟨[c], hq, List.cons_ne_nil _ _, fun d hm => ?_, fun hx => ?_, fun _ =>
        ⟨fun d hm => ?_, fun _ => ⟨c, rfl⟩⟩⟩
      · obtain rfl := List.mem_singleton.mp hm
        exact ⟨hchan, hpkt⟩
      · exact absurd hx (not_or.mpr hd)
      · obtain rfl := List.mem_singleton.mp hm
        unfold Message.InClass
        split
        · next e' => exact absurd e' hd.1
        · next e' => exact absurd e' e
        · exact ⟨hack, huns, hnum, hcount⟩

/-- The host thread hands the message over, or its index is beyond the peers. -/
theorem handing_step (hpc : s.world.worker = some (.handing q))
    (hst : system.step s (.worker input) = some t) (hh : s.enet = some h) (hh' : t.enet = some h') :
    handOver h q.item input = some h' ∨ h' = h := by
  cases (step_cases hst).2 with
  | worker hpc' hs =>
    obtain rfl := Option.some.inj (hpc.symm.trans hpc')
    cases hs with
    | handing hg ho =>
      obtain rfl := Option.some.inj (hh.symm.trans hg)
      obtain rfl := Option.some.inj hh'
      exact Or.inl ho
    | fails hx => exact Or.inr (Option.some.inj (hh'.symm.trans hh))

/-- What a peer takes for a message is in the class of the message, unless ENet has
to fragment it or to restart the unreliable numbers of the channel. -/
theorem delivery_class (hr : system.Reachable s) (hpc : s.world.worker = some (.handing q))
    (hst : system.step s (.worker input) = some t) (hh : s.enet = some h) (hh' : t.enet = some h')
    (hi : h'.peers i ≠ h.peers i) :
    q.item.For h i ∧ ∃ cs, QueuedFor q.item h (h.peers i) (h'.peers i) cs := by
  have ho : handOver h q.item input = some h' :=
    (handing_step hpc hst hh hh').resolve_right fun e => hi (by rw [e])
  obtain ⟨hfor, hs⟩ := handOver_taken ho hi
  refine ⟨hfor, peerSend_taken (fun hch => ?_) hs⟩
  have hlt := (ENet.peerSend_accepts hs).2.1
  have hle := channels_bounded hr hh i
  rw [hch] at hlt
  have : (0xFF : UInt8).toNat < ENet.protocolMaximumChannelCount := Nat.lt_of_lt_of_le hlt hle
  exact absurd this (by decide)

/-- A packet for the first peer of a connected host, up to where the host thread has it. -/
def sendingRun (packet : List UInt8) (channelId type : Int) : List Action :=
  connectRun ++ [.game (.call (.getPeer 0) {}),
    .game (.call (.sendPacket ⟨1, 0⟩ packet channelId type) {}), .game (.go {}), .game (.go {}),
    .game (.go {})] ++ List.replicate 7 (.worker {})

theorem delivery_class_unsequenced :
    ∃ (s t : State) (q : QueuedMessage) (h h' : ENet.Host),
      system.run .fresh (sendingRun [7] 0 0) = some s ∧ s.world.worker = some (.handing q) ∧
      q.item.type = .unsequenced ∧ system.step s (.worker {}) = some t ∧ s.enet = some h ∧
      t.enet = some h' ∧ h'.peers 0 ≠ h.peers 0 ∧
      (q.item.For h 0 ∧ ∃ cs, QueuedFor q.item h (h.peers 0) (h'.peers 0) cs) := by
  let s := (system.run .fresh (sendingRun [7] 0 0)).get (by rfl)
  have hs : system.run .fresh (sendingRun [7] 0 0) = some s := (Option.some_get _).symm
  let t := (system.step s (.worker {})).get (by rfl)
  have hst : system.step s (.worker {}) = some t := (Option.some_get _).symm
  let h := s.enet.get (by rfl)
  have hh : s.enet = some h := (Option.some_get _).symm
  let h' := t.enet.get (by rfl)
  have hh' : t.enet = some h' := (Option.some_get _).symm
  have hne : h'.peers 0 ≠ h.peers 0 := by
    intro he
    have hlen := congrArg (fun p => p.outgoingUnreliableCommands.length) he
    have h₁ : (h'.peers 0).outgoingUnreliableCommands.length = 1 := by rfl
    have h₀ : (h.peers 0).outgoingUnreliableCommands.length = 0 := by rfl
    simp only [h₀, h₁] at hlen
    cases hlen
  exact ⟨s, t, _, h, h', hs, by rfl, by rfl, hst, hh, hh', hne,
    delivery_class (Machine.Reachable.run (.start fresh_start) hs) (by rfl) hst hh hh' hne⟩

/-- What a connected host does with an unsequenced packet that is too long. -/
theorem unsequenced_long (packet : List UInt8) (hlong : 1372 < packet.length)
    (hmax : packet.length ≤ ENet.hostDefaultMaximumPacketSize) :
    ∃ (s t : State) (q : QueuedMessage) (h' : ENet.Host),
      system.run .fresh (sendingRun packet 0 0) = some s ∧
      s.world.worker = some (.handing q) ∧ q.item.type = .unsequenced ∧ q.item.packet = packet ∧
      system.step s (.worker {}) = some t ∧ t.enet = some h' ∧
      ∃ c ∈ (h'.peers 0).outgoingReliableCommands,
        c.packet = some q.item.enetPacket ∧ c.acknowledge = true := by
  let s := (system.run .fresh (sendingRun packet 0 0)).get (by rfl)
  have hs : system.run .fresh (sendingRun packet 0 0) = some s := (Option.some_get _).symm
  let t := (system.step s (.worker {})).get (by rfl)
  have hst : system.step s (.worker {}) = some t := (Option.some_get _).symm
  let h := s.enet.get (by rfl)
  let m : Message := ⟨.unsequenced, false, 0, 0, packet⟩
  have hlen : m.enetPacket.dataLength = packet.length := rfl
  have hlimit : ENet.fragmentLength h (h.peers 0) = 1372 := by rfl
  have hchannels : (h.peers 0).channelCount = 1 := by rfl
  have hchannel : m.channel.toNat = 0 := by rfl
  have ha : ENet.Accepts h (h.peers 0) m.channel m.enetPacket := by
    refine ⟨by rfl, by omega, hmax, fun _ => ?_⟩
    rw [hlen, hlimit]
    unfold ENet.hostDefaultMaximumPacketSize at hmax
    unfold ENet.protocolMaximumFragmentCount
    omega
  have hsend : ENet.peerSend h (h.peers 0) m.channel m.enetPacket true = some
      ((ENet.packetCommands h (h.peers 0) m.channel m.enetPacket).foldl
        ENet.peerSetupOutgoingCommand (h.peers 0)) := ENet.peerSend_iff.mpr ⟨ha, rfl, rfl⟩
  have hd : m.Demoted h (h.peers 0) := by
    refine ⟨by simp [m], Or.inl ?_⟩
    rw [hlen, hlimit]
    exact hlong
  obtain ⟨cs, hq, hne, hcarry, hack⟩ := peerSend_acknowledged hsend (Or.inr hd)
  obtain ⟨c, cs, rfl⟩ := List.exists_cons_of_ne_nil hne
  have hpeer : (t.enet.get (by rfl)).peers 0 =
      (ENet.peerSend h (h.peers 0) m.channel m.enetPacket true).getD (h.peers 0) := by rfl
  refine ⟨s, t, _, t.enet.get (by rfl), hs, by rfl, by rfl, by rfl, hst, (Option.some_get _).symm,
    c, ?_, (hcarry c List.mem_cons_self).2, hack c List.mem_cons_self⟩
  rw [hpeer, hsend, Option.getD_some, hq.reliable]
  refine List.mem_append_right _ (List.mem_filter.mpr ⟨List.mem_cons_self, ?_⟩)
  exact hack c List.mem_cons_self

/-- An unsequenced packet of 2000 bytes is queued as commands that are acknowledged. -/
theorem unsequenced_acknowledged :
    ∃ (s t : State) (q : QueuedMessage) (h' : ENet.Host),
      system.run .fresh (sendingRun (List.replicate 2000 7) 0 0) = some s ∧
      s.world.worker = some (.handing q) ∧ q.item.type = .unsequenced ∧
      q.item.packet = List.replicate 2000 7 ∧
      system.step s (.worker {}) = some t ∧ t.enet = some h' ∧
      ∃ c ∈ (h'.peers 0).outgoingReliableCommands,
        c.packet = some q.item.enetPacket ∧ c.acknowledge = true := by
  have hlen : (List.replicate 2000 (7 : UInt8)).length = 2000 := List.length_replicate
  refine unsequenced_long (List.replicate 2000 7) ?_ ?_
  · rw [hlen]
    decide
  · rw [hlen]
    decide

end GDNet
