import GDNet.ENet.Rises
import GDNet.ENet.Origin

/-!
# Who holds a packet

A packet counts the outgoing commands that hold it, and its owner is whoever sees
the count at zero.  `enet_host_broadcast` looks at the count and destroys a packet
that nobody took; `enet_peer_send` says that it refused a packet and leaves it to
its caller.  An incoming packet belongs to the peer until a RECEIVE event hands it
over.
-/

namespace ENet

/-! ## Outgoing packets -/

/-- What `enet_peer_send` adds to `referenceCount`: the number of the fragments, or
one for the command of `enet_peer_queue_outgoing_command`. -/
def peerSendReferences (host : Host) (peer : Peer) (channelID : UInt8) (packet : Packet)
    (allocates : Bool) : Nat :=
  if peer.state ≠ .connected ∨ channelID.toNat ≥ peer.channelCount ∨
      packet.dataLength > host.maximumPacketSize then 0
  else
    let length := fragmentLength host peer
    if packet.dataLength > length then
      if (packet.dataLength + length - 1) / length > protocolMaximumFragmentCount then 0
      else if allocates then (fragmentPieces packet.dataLength length packet.dataLength 0).length
      else 0
    else if allocates then 1 else 0

/-- The count of a packet after the loop of `enet_host_broadcast`. -/
def broadcastReferences (channelID : UInt8) (packet : Packet) (allocates : Nat → Bool) :
    List Nat → Host → Nat
  | [], _ => 0
  | i :: slots, h =>
    if (h.peers i).state ≠ .connected then broadcastReferences channelID packet allocates slots h
    else
      peerSendReferences h (h.peers i) channelID packet (allocates i) +
        broadcastReferences channelID packet allocates slots
          (h.update i fun p => (peerSend h p channelID packet (allocates i)).getD p)

variable {host : Host} {peer peer' : Peer} {channelID : UInt8} {packet : Packet}
  {allocates : Bool}

theorem references_refused (h : peerSend host peer channelID packet allocates = none) :
    peerSendReferences host peer channelID packet allocates = 0 := by
  unfold peerSend at h
  unfold peerSendReferences
  split
  · rfl
  · next hok =>
    rw [if_neg hok] at h
    simp only at h ⊢
    split
    · next hl =>
      rw [if_pos hl] at h
      split
      · rfl
      · next hc =>
        rw [if_neg hc] at h
        cases allocates with
        | false => rfl
        | true => cases h
    · next hl =>
      rw [if_neg hl] at h
      cases allocates with
      | false => rfl
      | true =>
        simp only [peerQueueOutgoingCommand, if_true] at h
        split at h
        · cases h
        · split at h <;> cases h

theorem references_accepted (ha : Accepts host peer channelID packet) :
    peerSendReferences host peer channelID packet true =
      (packetCommands host peer channelID packet).length := by
  rw [peerSendReferences, if_neg (passes_test ha.connected ha.channel ha.size), packetCommands]
  by_cases hl : packet.dataLength > fragmentLength host peer
  · simp only [if_pos hl, if_neg (Nat.not_lt.mpr (ha.fragments hl)), if_true, List.length_map]
  · simp only [if_neg hl, if_true, List.length_singleton]

/-- The commands at the end of the lists of a peer that hold the packet. -/
structure Holds (packet : Packet) (p p' : Peer) (cs : List OutgoingCommand) : Prop where
  queued : Queued p p' cs
  packet : ∀ c ∈ cs, c.packet = some packet

theorem Holds.none (packet : Packet) (p : Peer) : Holds packet p p [] :=
  ⟨.refl p, fun _ hc => absurd hc List.not_mem_nil⟩

/-- As many commands hold a packet after `enet_peer_send` as it counts. -/
theorem peerSend_holds (host : Host) (peer : Peer) (channelID : UInt8) (packet : Packet)
    (allocates : Bool) :
    ∃ cs, Holds packet peer ((peerSend host peer channelID packet allocates).getD peer) cs ∧
      peerSendReferences host peer channelID packet allocates = cs.length := by
  cases hs : peerSend host peer channelID packet allocates with
  | none => exact ⟨[], .none _ _, references_refused hs⟩
  | some p =>
    obtain ⟨ha, rfl, _⟩ := peerSend_iff.mp hs
    obtain ⟨ds, hq, hn⟩ := peerSend_queued hs
    refine ⟨ds, ⟨hq, fun d hm => ?_⟩, ?_⟩
    · obtain ⟨c, hc, hcd⟩ := numbered_mem hn hm
      exact hcd.packet.trans (packetCommands_mem hc).2
    · rw [references_accepted ha, hn.length_eq]

/-- A packet counts nothing exactly if it was refused. -/
theorem references_pos : 0 < peerSendReferences host peer channelID packet allocates ↔
    Accepts host peer channelID packet ∧ allocates = true := by
  constructor
  · intro h
    cases hs : peerSend host peer channelID packet allocates with
    | none => rw [references_refused hs] at h; omega
    | some p =>
      obtain ⟨ha, hm, _⟩ := peerSend_iff.mp hs
      exact ⟨ha, hm⟩
  · rintro ⟨ha, rfl⟩
    rw [references_accepted ha]
    exact List.length_pos_iff.mpr (packetCommands_ne_nil _ _ _ _)

theorem flatMap_single {α β : Type*} [DecidableEq α] {xs : List α} {x : α} {ys : List β}
    (hn : xs.Nodup) (hx : x ∈ xs) : xs.flatMap (Function.update (fun _ => []) x ys) = ys := by
  have hnone : ∀ zs : List α, x ∉ zs → zs.flatMap (Function.update (fun _ => []) x ys) = [] := by
    intro zs hz
    refine List.flatMap_eq_nil_iff.mpr fun z hm => ?_
    have hne : z ≠ x := fun e => hz (e ▸ hm)
    rw [Function.update_of_ne hne]
  induction xs with
  | nil => cases hx
  | cons y xs ih =>
    obtain ⟨hy, hn⟩ := List.nodup_cons.mp hn
    rw [List.flatMap_cons]
    by_cases h : y = x
    · subst h
      rw [Function.update_self, hnone xs hy, List.append_nil]
    · have hm : x ∈ xs := (List.mem_cons.mp hx).resolve_left fun e => h e.symm
      rw [Function.update_of_ne h, List.nil_append, ih hn hm]

/-- The commands of a broadcast, slot by slot. -/
theorem broadcast_holds (channelID : UInt8) (packet : Packet) (allocates : Nat → Bool) :
    ∀ (slots : List Nat) (h : Host), slots.Nodup →
    ∃ ds : Nat → List OutgoingCommand,
      (∀ j, Holds packet (h.peers j)
        ((broadcastLoop channelID packet allocates slots h).peers j) (ds j)) ∧
      (∀ j ∉ slots, ds j = []) ∧
      broadcastReferences channelID packet allocates slots h = (slots.flatMap ds).length := by
  intro slots
  induction slots with
  | nil => exact fun h _ => ⟨fun _ => [], fun j => .none _ _, fun _ _ => rfl, rfl⟩
  | cons i slots ih =>
    intro h hn
    obtain ⟨hi, hn⟩ := List.nodup_cons.mp hn
    unfold broadcastLoop broadcastReferences
    by_cases hs : (h.peers i).state ≠ .connected
    · simp only [if_pos hs]
      obtain ⟨ds, hds, hout, hcount⟩ := ih h hn
      refine ⟨ds, hds, fun j hj => hout j fun hm => hj (List.mem_cons_of_mem i hm), ?_⟩
      rw [List.flatMap_cons, hout i hi, List.nil_append, hcount]
    · simp only [if_neg hs]
      obtain ⟨ds, hds, hout, hcount⟩ := ih (h.update i fun p =>
        (peerSend h p channelID packet (allocates i)).getD p) hn
      obtain ⟨cs, hcs, hlen⟩ := peerSend_holds h (h.peers i) channelID packet (allocates i)
      refine ⟨Function.update ds i cs, fun j => ?_, fun j hj => ?_, ?_⟩
      · by_cases hj : j = i
        · subst hj
          rw [Function.update_self]
          have hsame := hds j
          rw [hout j hi, Host.update_peers_self] at hsame
          have hq := hcs.queued.trans hsame.queued
          rw [List.append_nil] at hq
          exact ⟨hq, hcs.packet⟩
        · rw [Function.update_of_ne hj]
          have hsame := hds j
          rw [Host.update_peers_of_ne h _ hj] at hsame
          exact hsame
      · have hj : j ≠ i ∧ j ∉ slots := by simpa using hj
        rw [Function.update_of_ne hj.1, hout j hj.2]
      · have hrest : slots.flatMap (Function.update ds i cs) = slots.flatMap ds := by
          refine List.flatMap_congr fun j hj => ?_
          have hne : j ≠ i := fun e => hi (e ▸ hj)
          rw [Function.update_of_ne hne]
        rw [List.flatMap_cons, Function.update_self, hrest, List.length_append, hlen, hcount]

/-! ## Incoming packets -/

/-- The event hands over the oldest packet of its peer. -/
structure Delivers (h h' : Host) (e : Event) (packet : Packet) : Prop where
  carries : e.packet = some packet
  oldest : (h.peers e.peer).dispatchedCommands =
    ⟨e.channelID, packet⟩ :: (h'.peers e.peer).dispatchedCommands

theorem setDispatch_commands (h : Host) (queue : List Nat) (i j : Nat) (b : Bool) :
    ((setDispatch h queue i b).peers j).dispatchedCommands = (h.peers j).dispatchedCommands := by
  by_cases hj : j = i
  · subst hj
    simp [setDispatch]
  · simp [setDispatch, Host.update_peers_of_ne _ _ hj]

theorem queueDispatch_commands (h : Host) (i j : Nat) :
    ((queueDispatch h i).peers j).dispatchedCommands = (h.peers j).dispatchedCommands := by
  unfold queueDispatch
  split
  · rfl
  · exact setDispatch_commands h _ i j true

theorem dispatchLoop_delivers {e : Event} : ∀ (queue : List Nat) (h : Host),
    (protocolDispatchLoop queue h).2 = some e → e.type = .receive →
    ∃ packet, Delivers h (protocolDispatchLoop queue h).1 e packet := by
  intro queue
  induction queue with
  | nil => intro h he; cases he
  | cons i queue ih =>
    intro h he ht
    have htake := fun j => setDispatch_commands h queue i j false
    rw [protocolDispatchLoop] at he ⊢
    generalize setDispatch h queue i false = t at htake he ⊢
    have hgo : ∀ {g : Host}, (∃ packet, Delivers t g e packet) →
        ∃ packet, Delivers h g e packet := by
      rintro g ⟨packet, hp, hd⟩
      exact ⟨packet, hp, (htake e.peer).symm.trans hd⟩
    cases hs : (t.peers i).state with
    | connectionPending =>
      simp only [hs, Option.some.injEq] at he
      subst he
      cases ht
    | connectionSucceeded =>
      simp only [hs, Option.some.injEq] at he
      subst he
      cases ht
    | zombie =>
      simp only [hs, Option.some.injEq] at he
      subst he
      cases ht
    | connected =>
      simp only [hs] at he ⊢
      cases hd : (t.peers i).dispatchedCommands with
      | nil =>
        simp only [hd] at he ⊢
        exact hgo (ih t he ht)
      | cons c commands =>
        simp only [hd, Option.some.injEq] at he ⊢
        subst he
        refine hgo ⟨c.packet, rfl, hd.trans (congrArg (c :: ·) (Eq.symm ?_))⟩
        show (Host.peers _ i).dispatchedCommands = commands
        split
        · rw [Host.update_peers_self]
        · rw [queueDispatch_commands, Host.update_peers_self]
    | disconnected => simp only [hs] at he ⊢; exact hgo (ih t he ht)
    | connecting => simp only [hs] at he ⊢; exact hgo (ih t he ht)
    | acknowledgingConnect => simp only [hs] at he ⊢; exact hgo (ih t he ht)
    | disconnectLater => simp only [hs] at he ⊢; exact hgo (ih t he ht)
    | disconnecting => simp only [hs] at he ⊢; exact hgo (ih t he ht)
    | acknowledgingDisconnect => simp only [hs] at he ⊢; exact hgo (ih t he ht)

theorem handleCommands_about {i : Nat} {d : Datagram} {deliver : Bool} :
    ∀ (cs : List Command) (h : Host) (event : Option Event), About i event →
    About i (protocolHandleCommands d deliver i cs h event).2 := by
  intro cs
  induction cs with
  | nil => intro h event ha; exact ha
  | cons c cs ih =>
    intro h event ha
    have hor := ha.or (@handleCommand_raises h i deliver c).2
    unfold protocolHandleCommands
    simp only
    split
    · exact hor
    · split
      · exact ih _ _ hor
      · split
        · exact hor
        · exact ih _ _ hor

/-- No datagram raises a RECEIVE: its packets wait for dispatch. -/
theorem handleIncoming_type {h : Host} {d : Datagram} {deliver : Bool} {e : Event}
    (he : (protocolHandleIncomingCommands h d deliver).2 = some e) : e.type ≠ .receive := by
  have hnone : ∀ i, About i none := fun i e he => by cases he
  unfold protocolHandleIncomingCommands at he
  cases hp : d.peerID with
  | none =>
    simp only [hp, protocolHandleFirstCommand] at he
    cases hcs : d.commands with
    | nil => simp only [hcs] at he; cases he
    | cons c cs =>
      simp only [hcs] at he
      cases hbody : c.body with
      | connect body =>
        simp only [hbody] at he
        cases hcon : protocolHandleConnect h d.address body with
        | none => simp only [hcon] at he; cases he
        | some r =>
          simp only [hcon] at he
          split at he
          · exact (handleCommands_about _ _ _ (hnone _) e he).2
          · split at he
            · cases he
            · exact (handleCommands_about _ _ _ (hnone _) e he).2
      | _ => simp only [hbody] at he; cases he
  | some i =>
    simp only [hp] at he
    split at he
    · cases he
    · exact (handleCommands_about _ _ _ (hnone i) e he).2

/-- Every RECEIVE event comes out of a dispatch. -/
theorem serviceStep_delivers {h : Host} {pc : ServicePc} {input : ServiceInput} {e : Event}
    (he : (serviceStep h pc input).2.event = some e) (ht : e.type = .receive) :
    ∃ packet, Delivers h (serviceStep h pc input).1 e packet := by
  cases pc with
  | dispatch =>
    simp only [serviceStep, deliverOr_host] at he ⊢
    rw [deliverOr_event rfl] at he
    exact dispatchLoop_delivers _ h he ht
  | throttle => cases he
  | send again i =>
    simp only [serviceStep] at he
    split at he
    · rw [deliverOr_event (by split <;> rfl)] at he
      rw [sendOutgoing_type he] at ht
      cases ht
    · split at he <;> cases he
  | receive packets =>
    simp only [serviceStep] at he
    split at he
    · cases hr : input.received with
      | nothing => rw [hr] at he; cases he
      | failed => rw [hr] at he; cases he
      | datagram d =>
        simp only [hr] at he
        rw [deliverOr_event rfl] at he
        exact absurd ht (handleIncoming_type he)
    · cases he
  | dispatchAgain =>
    simp only [serviceStep, deliverOr_host] at he ⊢
    rw [deliverOr_event rfl] at he
    exact dispatchLoop_delivers _ h he ht
  | wait =>
    simp only [serviceStep] at he
    split at he <;> cases he

end ENet
