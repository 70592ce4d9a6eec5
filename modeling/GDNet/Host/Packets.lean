import GDNet.Host.Classes
import GDNet.ENet.Packets

/-!
# The packets of the wrapper

`send_messages` makes a packet for every message it takes and hands it to ENet,
`new_event` destroys the packet of a RECEIVE event when it has copied its bytes.
A packet that is broadcast is held by commands or destroyed; a packet for one
peer is held by commands if the peer takes it, and belongs to nobody if it does
not, since nothing looks at the result of `enet_peer_send`.
-/

namespace GDNet

open Transition

variable {s t : State} {a : Action} {m : Message} {input : WorkerInput} {h h' : ENet.Host}

/-! ## The loop of `send_messages` -/

/-- What has become of a packet that `send_messages` created. -/
structure Fate where
  packet : ENet.Packet
  referenceCount : Nat
  destroyed : Nat

/-- The packet of a message, when it is handed over; `none` if it was not created. -/
def handOverPacket (h : ENet.Host) (m : Message) (input : WorkerInput) : Option Fate :=
  if !input.creates then none
  else if m.broadcast then
    let references := ENet.broadcastReferences m.channel m.enetPacket input.allocates
      (List.range h.peerCount) h
    some ⟨m.enetPacket, references, if references = 0 then 1 else 0⟩
  else
    -- `send_messages` does not look at what `enet_peer_send` returns.
    some ⟨m.enetPacket, ENet.peerSendReferences h (h.peers m.slot) m.channel m.enetPacket
      (input.allocates m.slot), 0⟩

/-- `send_messages` for the messages it finds, each with what happens in its turn;
`none` is an index beyond the peers. -/
def sendMessages : ENet.Host → List (Message × WorkerInput) → Option (ENet.Host × List Fate)
  | h, [] => some (h, [])
  | h, (m, input) :: turns =>
    (handOver h m input).bind fun g =>
      (sendMessages g turns).map fun r => (r.1, (handOverPacket h m input).toList ++ r.2)

/-- Held by commands or destroyed once. -/
def Fate.Owned (f : Fate) : Prop :=
  (0 < f.referenceCount ∧ f.destroyed = 0) ∨ (f.referenceCount = 0 ∧ f.destroyed = 1)

/-- The commands of the peers that hold the packet, as many as it counts. -/
structure Fate.Held (f : Fate) (n : Nat) (ds : Nat → List ENet.OutgoingCommand) : Prop where
  packet : ∀ i, ∀ c ∈ ds i, c.packet = some f.packet
  count : f.referenceCount = ((List.range n).flatMap ds).length

/-- `enet_peer_send` takes the packet of the message. -/
def TakenBy (h : ENet.Host) (m : Message) (input : WorkerInput) : Prop :=
  ENet.Accepts h (h.peers m.slot) m.channel m.enetPacket ∧ input.allocates m.slot = true

theorem handOver_slot (ho : handOver h m input = some h') (hc : input.creates = true)
    (hb : m.broadcast = false) : m.slot < h.peerCount ∧
      h' = h.update m.slot fun p =>
        (ENet.peerSend h p m.channel m.enetPacket (input.allocates m.slot)).getD p := by
  unfold handOver at ho
  simp only [hc, hb, Bool.not_true, Bool.false_eq_true, if_false,
    Option.ite_none_right_eq_some, Option.some.injEq] at ho
  obtain ⟨⟨h₀, hlt⟩, rfl⟩ := ho
  refine ⟨?_, rfl⟩
  have : (m.slot : Int) = m.peerId := Int.toNat_of_nonneg h₀
  omega

/-- One turn: the packet counts the commands that hold it, and it is owned unless it
was for one peer that did not take it. -/
theorem handOver_fate (ho : handOver h m input = some h') :
    (∃ ds : Nat → List ENet.OutgoingCommand,
      (∀ i, ENet.Queued (h.peers i) (h'.peers i) (ds i)) ∧
      (∀ f ∈ handOverPacket h m input, f.Held h.peerCount ds) ∧
      (handOverPacket h m input = none → ∀ i, ds i = [])) ∧
    ((∀ f ∈ handOverPacket h m input, f.Owned) ↔
      (input.creates = true → m.broadcast = false → TakenBy h m input)) := by
  cases hc : input.creates with
  | false =>
    obtain rfl := handOver_uncreated ho hc
    have hnone : handOverPacket h' m input = none := by simp [handOverPacket, hc]
    rw [hnone]
    refine ⟨⟨fun _ => [], fun i => .refl _, fun f hf => ?_, fun _ _ => rfl⟩, ?_⟩
    · cases hf
    · exact ⟨fun _ e => (by cases e), fun _ f hf => (by cases hf)⟩
  | true =>
    by_cases hb : m.broadcast = true
    · have hfate : handOverPacket h m input = some ⟨m.enetPacket,
          ENet.broadcastReferences m.channel m.enetPacket input.allocates
            (List.range h.peerCount) h,
          if ENet.broadcastReferences m.channel m.enetPacket input.allocates
            (List.range h.peerCount) h = 0 then 1 else 0⟩ := by
        simp [handOverPacket, hc, hb]
      have hh : h' = ENet.broadcastLoop m.channel m.enetPacket input.allocates
          (List.range h.peerCount) h := by
        unfold handOver at ho
        simp only [hc, hb, Bool.not_true, Bool.false_eq_true, if_false, if_true] at ho
        exact (Option.some.inj ho).symm
      obtain ⟨ds, hds, _, hcount⟩ := ENet.broadcast_holds m.channel m.enetPacket input.allocates
        (List.range h.peerCount) h List.nodup_range
      rw [hfate, hh]
      refine ⟨⟨ds, fun i => (hds i).queued, fun f hf => ?_, fun e => by cases e⟩, ?_⟩
      · obtain rfl := Option.some.inj hf
        exact ⟨fun i => (hds i).packet, hcount⟩
      · refine ⟨fun _ _ e => (by rw [hb] at e; cases e), fun _ f hf => ?_⟩
        obtain rfl := Option.some.inj hf
        unfold Fate.Owned
        by_cases hz : ENet.broadcastReferences m.channel m.enetPacket input.allocates
            (List.range h.peerCount) h = 0
        · exact Or.inr ⟨hz, if_pos hz⟩
        · exact Or.inl ⟨Nat.pos_of_ne_zero hz, if_neg hz⟩
    · have hb : m.broadcast = false := Bool.not_eq_true _ ▸ hb
      obtain ⟨hlt, rfl⟩ := handOver_slot ho hc hb
      have hfate : handOverPacket h m input = some ⟨m.enetPacket,
          ENet.peerSendReferences h (h.peers m.slot) m.channel m.enetPacket
            (input.allocates m.slot), 0⟩ := by
        simp [handOverPacket, hc, hb]
      obtain ⟨cs, hcs, hlen⟩ := ENet.peerSend_holds h (h.peers m.slot) m.channel m.enetPacket
        (input.allocates m.slot)
      rw [hfate]
      refine ⟨⟨Function.update (fun _ => []) m.slot cs, fun i => ?_, fun f hf => ?_,
        fun e => by cases e⟩, ?_⟩
      · by_cases hi : i = m.slot
        · subst hi
          rw [Function.update_self, ENet.Host.update_peers_self]
          exact hcs.queued
        · rw [Function.update_of_ne hi, ENet.Host.update_peers_of_ne h _ hi]
          exact .refl _
      · obtain rfl := Option.some.inj hf
        refine ⟨fun i c hm => ?_, ?_⟩
        · by_cases hi : i = m.slot
          · subst hi
            rw [Function.update_self] at hm
            exact hcs.packet c hm
          · rw [Function.update_of_ne hi] at hm
            cases hm
        · rw [ENet.flatMap_single List.nodup_range (List.mem_range.mpr hlt)]
          exact hlen
      · constructor
        · intro howned _ _
          rcases howned _ rfl with ⟨hpos, _⟩ | ⟨_, hd⟩
          · exact ENet.references_pos.mp hpos
          · cases hd
        · intro htaken f hf
          obtain rfl := Option.some.inj hf
          exact Or.inl ⟨ENet.references_pos.mpr (htaken rfl hb), rfl⟩

theorem broadcastLoop_limits {channelID : UInt8} {packet : ENet.Packet} {allocates : Nat → Bool} :
    ∀ (slots : List Nat) (h : ENet.Host),
    (ENet.broadcastLoop channelID packet allocates slots h).checksum = h.checksum ∧
    (ENet.broadcastLoop channelID packet allocates slots h).maximumPacketSize =
      h.maximumPacketSize := by
  intro slots
  induction slots with
  | nil => exact fun h => ⟨rfl, rfl⟩
  | cons i slots ih =>
    intro h
    unfold ENet.broadcastLoop
    split
    · exact ih h
    · exact ih _

theorem handOver_limits (ho : handOver h m input = some h') :
    h'.peerCount = h.peerCount ∧ h'.checksum = h.checksum ∧
      h'.maximumPacketSize = h.maximumPacketSize := by
  have hm : ENet.HostMoves .all h h' := handOver_moves ho
  refine ⟨hm.peerCount, ?_⟩
  unfold handOver at ho
  simp only at ho
  split at ho
  · cases ho
    exact ⟨rfl, rfl⟩
  · split at ho
    · cases ho
      exact broadcastLoop_limits _ h
    · split at ho
      · cases ho
        exact ⟨rfl, rfl⟩
      · cases ho

/-- Handing a message over changes nothing that decides who takes the next one. -/
theorem TakenBy.congr (ho : handOver h m input = some h')
    (hq : ∀ i, ∃ cs, ENet.Queued (h.peers i) (h'.peers i) cs) (m' : Message)
    (input' : WorkerInput) : TakenBy h' m' input' ↔ TakenBy h m' input' := by
  obtain ⟨_, hc, hm⟩ := handOver_limits ho
  obtain ⟨cs, hq⟩ := hq m'.slot
  have hstate := ENet.slot_state hq.slot
  have hlen : ENet.fragmentLength h' (h'.peers m'.slot) =
      ENet.fragmentLength h (h.peers m'.slot) := by
    rw [ENet.fragmentLength, ENet.fragmentLength, hq.mtu, hc]
  unfold TakenBy
  constructor
  · rintro ⟨⟨h₁, h₂, h₃, h₄⟩, ha⟩
    rw [hlen] at h₄
    exact ⟨⟨hstate ▸ h₁, hq.channelCount ▸ h₂, hm ▸ h₃, h₄⟩, ha⟩
  · rintro ⟨⟨h₁, h₂, h₃, h₄⟩, ha⟩
    refine ⟨⟨hstate.trans h₁, ?_, ?_, ?_⟩, ha⟩
    · rw [hq.channelCount]
      exact h₂
    · rw [hm]
      exact h₃
    · rw [hlen]
      exact h₄

/-- The packets of all turns. -/
theorem sendMessages_fates : ∀ (turns : List (Message × WorkerInput)) (h : ENet.Host)
    {h' : ENet.Host} {fates : List Fate}, sendMessages h turns = some (h', fates) →
    (∃ held : List (Nat → List ENet.OutgoingCommand),
      List.Forall₂ (fun f ds => f.Held h.peerCount ds) fates held ∧
      ∀ i, ENet.Queued (h.peers i) (h'.peers i) (held.flatMap fun ds => ds i)) ∧
    ((∀ f ∈ fates, f.Owned) ↔ ∀ turn ∈ turns, turn.2.creates = true →
      turn.1.broadcast = false → TakenBy h turn.1 turn.2) := by
  intro turns
  induction turns with
  | nil =>
    intro h h' fates hs
    cases hs
    refine ⟨⟨[], .nil, fun i => .refl _⟩, fun _ turn ht => ?_, fun _ f hf => ?_⟩
    · cases ht
    · cases hf
  | cons turn turns ih =>
    intro h h' fates hs
    obtain ⟨m, input⟩ := turn
    obtain ⟨g, ho, hs⟩ := Option.bind_eq_some_iff.mp hs
    obtain ⟨r, hr, he⟩ := Option.map_eq_some_iff.mp hs
    obtain ⟨h'', rest⟩ := r
    obtain ⟨rfl, rfl⟩ : h'' = h' ∧ (handOverPacket h m input).toList ++ rest = fates := by
      simpa using he
    obtain ⟨⟨ds, hds, hheld, hnone⟩, howned⟩ := handOver_fate ho
    obtain ⟨⟨held, hrest, hqueued⟩, hrestOwned⟩ := ih g hr
    obtain ⟨hcount, _, _⟩ := handOver_limits ho
    rw [hcount] at hrest
    refine ⟨?_, ?_⟩
    · cases hp : handOverPacket h m input with
      | none =>
        refine ⟨held, hrest, fun i => ?_⟩
        have hq := (hds i).trans (hqueued i)
        rw [hnone hp i] at hq
        exact hq
      | some f =>
        refine ⟨ds :: held, .cons (hheld f hp) hrest, fun i => ?_⟩
        exact (hds i).trans (hqueued i)
    · have htaken : ∀ turn : Message × WorkerInput,
          TakenBy g turn.1 turn.2 ↔ TakenBy h turn.1 turn.2 := fun turn =>
        TakenBy.congr ho (fun i => ⟨ds i, hds i⟩) turn.1 turn.2
      constructor
      · intro hall turn hm hc hb
        rcases List.mem_cons.mp hm with rfl | hm
        · refine howned.mp (fun f hf => hall f ?_) hc hb
          exact List.mem_append_left _ (Option.mem_toList.mpr hf)
        · refine (htaken turn).mp (hrestOwned.mp (fun f hf => hall f ?_) turn hm hc hb)
          exact List.mem_append_right _ hf
      · intro hall f hf
        rcases List.mem_append.mp hf with hf | hf
        · exact howned.mpr (hall (m, input) List.mem_cons_self) f (Option.mem_toList.mp hf)
        · refine hrestOwned.mpr (fun turn hm hc hb => ?_) f hf
          exact (htaken turn).mpr (hall turn (List.mem_cons_of_mem _ hm) hc hb)

/-! ## The packets of events -/

/-- The packet that `new_event` destroys. -/
def newEventDestroys (e : ENet.Event) : List ENet.Packet :=
  match e.type with
  | .receive => e.packet.toList
  | _ => []

/-- The event that `poll_events` gets from ENet at a step. -/
def polledEvent (s : State) (input : WorkerInput) : Option ENet.Event :=
  match s.world.worker, s.enet with
  | some (.service pc), some h => (ENet.serviceStep h pc input.service).2.event
  | some .check, some h => (ENet.protocolDispatchIncomingCommands h).2
  | _, _ => none

/-- The packets that the host thread destroys at a step. -/
def destroyedPackets (s : State) : Action → List ENet.Packet
  | .worker input => ((polledEvent s input).map newEventDestroys).getD []
  | .game _ => []

/-- The host thread goes on with the event that ENet returned. -/
theorem polled_step {e : ENet.Event} (hst : system.step s (.worker input) = some t)
    (he : polledEvent s input = some e) :
    ∃ g g', s.enet = some g ∧ t.enet = some g' ∧
      t.world.worker = some (.pushTest (s.world.queuedEvent input.time e)) ∧
      (e.type = .receive → ∃ packet, ENet.Delivers g g' e packet) := by
  cases (step_cases hst).2 with
  | @worker _ pc w hpc hs =>
    unfold polledEvent at he
    rw [hpc] at he
    have henet : ∀ {g : ENet.Host}, s.world.host.enetHost = some g → s.enet = some g := id
    cases hs with
    | @service spc g hg =>
      simp only [henet hg] at he
      refine ⟨g, _, hg, (polled_enet _ _ _ _).1, ?_, ENet.serviceStep_delivers he⟩
      cases ho : (ENet.serviceStep g spc input.service).2 with
      | next pc => rw [ho] at he; cases he
      | done event =>
        rw [ho] at he
        obtain rfl : event = some e := he
        rfl
    | @check g hg =>
      simp only [henet hg] at he
      refine ⟨g, _, hg, (polled_enet _ _ _ _).1, ?_, ENet.dispatchLoop_delivers _ g he⟩
      show (s.world.polled input.time _ (.done _)).worker = _
      rw [he]
      rfl
    | fails hx => cases hx <;> simp_all
    | _ => cases he

theorem pushing_destroys {q : QueuedEvent} (hw : s.world.hand = some q) (input : WorkerInput) :
    destroyedPackets s (.worker input) = [] := by
  have hnone : polledEvent s input = none := by
    unfold World.hand at hw
    unfold polledEvent
    split at hw
    · next hpc => rw [hpc]
    · next hpc => rw [hpc]
    · cases hw
  rw [destroyedPackets, hnone]
  rfl

/-! ## The loop of the host thread -/

/-- The host thread takes one message and hands it over. -/
theorem turn_run {q : QueuedMessage} {qs : List QueuedMessage} (hr : system.Reachable s)
    (hpc : s.world.worker = some .isEmpty) (hf : s.world.fault = none) (hh : s.enet = some h)
    (hp : s.world.host.messageQueue.pending = q :: qs) (ho : handOver h q.item input = some h') :
    ∃ t, system.run s [.worker {}, .worker {}, .worker {}, .worker input] = some t ∧
      t.world.worker = some .isEmpty ∧ t.world.fault = none ∧ t.enet = some h' ∧
      t.world.host.messageQueue.pending = qs := by
  have hv := (queues hr).messages.valid
  have he : s.world.host.messageQueue.isEmpty = false := by
    by_contra he
    rw [hv.isEmpty_iff.mp (Bool.not_eq_false _ ▸ he)] at hp
    cases hp
  obtain ⟨rfl, rfl⟩ : s.world.host.messageQueue.front = q ∧
      s.world.host.messageQueue.read.pending = qs := by
    rw [hv.pending_read he] at hp
    exact List.cons.inj hp
  have h₁ : system.step s (.worker {}) = some ⟨s.world.goto .popTest, s.game⟩ := by
    refine worker_step hf hpc ?_
    rw [workerRun, he]
    rfl
  have h₂ : system.step ⟨s.world.goto .popTest, s.game⟩ (.worker {}) =
      some ⟨s.world.goto .popRead, s.game⟩ := by
    refine worker_step (s := ⟨s.world.goto .popTest, s.game⟩) hf rfl ?_
    rw [workerRun]
    show some (if s.world.host.messageQueue.isEmpty then _ else _) = _
    rw [he]
    rfl
  have h₃ : system.step ⟨s.world.goto .popRead, s.game⟩ (.worker {}) =
      some ⟨(s.world.setMessages s.world.host.messageQueue.read).goto
        (.handing s.world.host.messageQueue.front), s.game⟩ :=
    worker_step (s := ⟨s.world.goto .popRead, s.game⟩) hf rfl rfl
  have h₄ : system.step ⟨(s.world.setMessages s.world.host.messageQueue.read).goto
      (.handing s.world.host.messageQueue.front), s.game⟩ (.worker input) =
      some ⟨((s.world.setMessages s.world.host.messageQueue.read).setENet h').goto .isEmpty,
        s.game⟩ := by
    have hh : ((s.world.setMessages s.world.host.messageQueue.read).goto
        (.handing s.world.host.messageQueue.front)).host.enetHost = some h := hh
    refine worker_step (s := ⟨(s.world.setMessages s.world.host.messageQueue.read).goto
      (.handing s.world.host.messageQueue.front), s.game⟩) hf rfl ?_
    simp only [workerRun, hh, ho]
    rfl
  refine ⟨_, Machine.run_cons.mpr ⟨_, h₁, Machine.run_cons.mpr ⟨_, h₂, Machine.run_cons.mpr
    ⟨_, h₃, Machine.run_single.mpr h₄⟩⟩⟩, rfl, hf, rfl, rfl⟩

/-- Left alone, the host thread hands over what is in the queue as `sendMessages` does. -/
theorem sendMessages_run : ∀ (turns : List (Message × WorkerInput)) {s : State} {h h' : ENet.Host}
    {fates : List Fate}, system.Reachable s → s.world.worker = some .isEmpty →
    s.world.fault = none → s.enet = some h →
    s.world.host.messageQueue.pending.map Stamped.item = turns.map Prod.fst →
    sendMessages h turns = some (h', fates) →
    ∃ as t, system.run s as = some t ∧ t.world.worker = some .poll ∧ t.enet = some h' := by
  intro turns
  induction turns with
  | nil =>
    intro s h h' fates hr hpc hf hh hp hs
    cases hs
    have he : s.world.host.messageQueue.isEmpty = true :=
      (queues hr).messages.valid.isEmpty_iff.mpr (List.map_eq_nil_iff.mp hp)
    have hst : system.step s (.worker {}) = some ⟨s.world.goto .poll, s.game⟩ := by
      refine worker_step hf hpc ?_
      rw [workerRun, he]
      rfl
    exact ⟨[.worker {}], _, Machine.run_single.mpr hst, rfl, hh⟩
  | cons turn turns ih =>
    intro s h h' fates hr hpc hf hh hp hs
    obtain ⟨m, input⟩ := turn
    obtain ⟨g, ho, hs⟩ := Option.bind_eq_some_iff.mp hs
    obtain ⟨r, hr', he⟩ := Option.map_eq_some_iff.mp hs
    obtain ⟨h'', rest⟩ := r
    obtain ⟨rfl, _⟩ : h'' = h' ∧ (handOverPacket h m input).toList ++ rest = fates := by
      simpa using he
    cases hq : s.world.host.messageQueue.pending with
    | nil =>
      rw [hq] at hp
      cases hp
    | cons q qs =>
      rw [hq] at hp
      obtain ⟨rfl, hqs⟩ := List.cons.inj hp
      obtain ⟨u, hu, hpc', hf', hh', hp'⟩ := turn_run hr hpc hf hh hq ho
      obtain ⟨as, t, ht, hpoll, henet⟩ := ih (hr.run hu) hpc' hf' hh' (hp' ▸ hqs) hr'
      exact ⟨_, t, Machine.run_append.mpr ⟨u, hu, ht⟩, hpoll, henet⟩

/-- Every packet that `send_messages` creates counts the commands that hold it, and
is held or destroyed once exactly if no packet for one peer was refused.  The packet
of a RECEIVE event is the oldest of its peer, and is destroyed once its bytes are
copied, before the event queue is asked. -/
theorem packets_owned {turns : List (Message × WorkerInput)} {fates : List Fate}
    (hs : sendMessages h turns = some (h', fates)) :
    (∃ held : List (Nat → List ENet.OutgoingCommand),
      List.Forall₂ (fun f ds => f.Held h.peerCount ds) fates held ∧
      ∀ i, ENet.Queued (h.peers i) (h'.peers i) (held.flatMap fun ds => ds i)) ∧
    ((∀ f ∈ fates, f.Owned) ↔ ∀ turn ∈ turns, turn.2.creates = true →
      turn.1.broadcast = false → TakenBy h turn.1 turn.2) ∧
    ∀ (s t : State) (input : WorkerInput) (e : ENet.Event),
      system.step s (.worker input) = some t → polledEvent s input = some e →
      e.type = .receive →
      ∃ g g' packet q, s.enet = some g ∧ t.enet = some g' ∧ ENet.Delivers g g' e packet ∧
        destroyedPackets s (.worker input) = [packet] ∧ t.world.worker = some (.pushTest q) ∧
        q.item.type = .receive ∧ q.item.packet = packet.data ∧
        ∀ u, u.world.hand = some q → ∀ input', destroyedPackets u (.worker input') = [] := by
  obtain ⟨hheld, howned⟩ := sendMessages_fates turns h hs
  refine ⟨hheld, howned, fun s t input e hst he ht => ?_⟩
  obtain ⟨g, g', hg, hg', hw, hdelivers⟩ := polled_step hst he
  obtain ⟨packet, hd⟩ := hdelivers ht
  refine ⟨g, g', packet, _, hg, hg', hd, ?_, hw, ?_, ?_, fun u hu => pushing_destroys hu⟩
  · rw [destroyedPackets, he, Option.map_some, Option.getD_some, newEventDestroys, ht, hd.carries]
    rfl
  · show (newEvent _ e).type = _
    rw [newEvent, ht]
  · show (newEvent _ e).packet = _
    rw [newEvent, ht, hd.carries]
    rfl

/-- A packet for the peer, a broadcast, and one that cannot be created. -/
def threeTurns : List (Message × WorkerInput) :=
  [(⟨.reliable, false, 0, 0, [7]⟩, {}), (⟨.unsequenced, true, 0, 0, [8, 9]⟩, {}),
    (⟨.sequenced, false, 0, 0, [3]⟩, { creates := false })]

theorem packets_owned_three :
    ∃ (s : State) (h h' : ENet.Host) (fates : List Fate),
      system.run .fresh connectRun = some s ∧ s.enet = some h ∧
      sendMessages h threeTurns = some (h', fates) ∧ fates.length = 2 ∧ ∀ f ∈ fates, f.Owned := by
  let s := (system.run .fresh connectRun).get (by rfl)
  have hs : system.run .fresh connectRun = some s := (Option.some_get _).symm
  let h := s.enet.get (by rfl)
  have hh : s.enet = some h := (Option.some_get _).symm
  let r := (sendMessages h threeTurns).get (by rfl)
  have hr : sendMessages h threeTurns = some r := (Option.some_get _).symm
  refine ⟨s, h, r.1, r.2, hs, hh, hr, by rfl, ?_⟩
  refine (packets_owned hr).2.1.mpr fun turn hm hcreates hone => ?_
  simp only [threeTurns, List.mem_cons, List.not_mem_nil, or_false] at hm
  rcases hm with rfl | rfl | rfl
  · exact ⟨⟨by rfl, by decide, by decide, by decide⟩, rfl⟩
  · cases hone
  · cases hcreates

/-- A packet is sent to a peer that nobody has connected to. -/
def refusedRun : List Action :=
  .game (.call (.setMaxPeers 1) {}) :: boundRun ++ [.game (.call (.getPeer 0) {}),
    .game (.call (.sendPacket ⟨1, 0⟩ [7] 0 2) {}), .game (.go {}), .game (.go {}),
    .game (.go {})] ++ List.replicate 7 (.worker {})

theorem refused_packet :
    ∃ (s : State) (q : QueuedMessage) (h h' : ENet.Host) (f : Fate),
      system.run .fresh refusedRun = some s ∧ s.world.worker = some (.handing q) ∧
      s.enet = some h ∧ sendMessages h [(q.item, {})] = some (h', [f]) ∧
      f.referenceCount = 0 ∧ f.destroyed = 0 ∧ ¬f.Owned := by
  let s := (system.run .fresh refusedRun).get (by rfl)
  have hs : system.run .fresh refusedRun = some s := (Option.some_get _).symm
  let h := s.enet.get (by rfl)
  have hh : s.enet = some h := (Option.some_get _).symm
  refine ⟨s, _, h, _, ⟨_, 0, 0⟩, hs, by rfl, hh, by rfl, rfl, rfl, ?_⟩
  rintro (⟨hpos, _⟩ | ⟨_, hd⟩)
  · cases hpos
  · cases hd

end GDNet
