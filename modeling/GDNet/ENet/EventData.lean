import Mathlib.Logic.Relation
import GDNet.ENet.Sending
import GDNet.ENet.Service

/-!
# The data of a disconnection and of a connection

`eventData` of a peer is what its next event will say.  It is written where a
CONNECT or a DISCONNECT comes in, by `enet_peer_disconnect_later`, and set to zero
where a connection is lost.  `Peer.Change` lists what may happen to it at once
together with the state and the commands that wait, and each function of ENet is
a sequence of such changes.
-/

namespace ENet

open Relation

/-- The commands that wait to be sent or to be acknowledged. -/
def Peer.waiting (p : Peer) : List OutgoingCommand :=
  p.sentReliableCommands ++ p.outgoingReliableCommands

/-- The other side has disconnected, or is lost. -/
def Peer.Closed (p : Peer) : Prop := p.state = .acknowledgingDisconnect ∨ p.state = .zombie

/-- What may happen to a peer at once.  Connections that come in later have numbers
from `n` on, and `asks` says that this side may ask for a disconnection. -/
inductive Peer.Change (n : Nat) (asks : Prop) (p p' : Peer) : Prop
  | keeps (hs : p'.state = p.state) (hc : p'.connection = p.connection)
      (hd : p'.eventData = p.eventData)
      (hw : ∀ c ∈ p'.waiting, (∃ b ∈ p.waiting, c.command = b.command ∧ c.data = b.data) ∨
        c.command ≠ .disconnect ∧ ¬p.Closed)
  | opens (hs : p.state.rank = 1 ∨ p.state.rank = 2)
      (hs' : p'.state.rank = 2 ∨ p'.state.rank = 3) (hc : p'.connection = p.connection)
      (hd : p'.eventData = p.eventData)
  /-- The last of the packets has left before a disconnection. -/
  | parts (hs : p.state = .disconnectLater) (hs' : p'.state = .disconnecting)
      (hc : p'.connection = p.connection) (hw : ∀ c ∈ p'.waiting, c.data = p.eventData)
  | asked (ha : asks) (hs : p.state = .connected ∨ p.state = .disconnectLater)
      (hs' : p'.state = .disconnectLater ∨ p'.state = .disconnecting)
      (hc : p'.connection = p.connection)
  /-- The other side disconnects, or is lost. -/
  | closes (hs : p.state ≠ .disconnected) (ha : p.Closed → p.waiting ≠ []) (hs' : p'.Closed)
      (hc : p'.connection = p.connection)
  /-- The acknowledgement of a DISCONNECT has been sent. -/
  | answers (hs : p.state ≠ .disconnected) (hs' : p'.state = .zombie)
      (hc : p'.connection = p.connection) (hd : p'.eventData = p.eventData)
      (hw : p'.waiting = p.waiting)
  | frees (hs' : p'.state = .disconnected) (hc : p'.connection = p.connection)
  | taken (hn : n ≤ p'.connection)

namespace Peer

variable {n : Nat} {asks : Prop} {p p' : Peer}

theorem Change.subset (hs : p'.state = p.state) (hc : p'.connection = p.connection)
    (hd : p'.eventData = p.eventData)
    (hw : ∀ c ∈ p'.waiting, ∃ b ∈ p.waiting, c.command = b.command ∧ c.data = b.data) :
    Change n asks p p' :=
  .keeps hs hc hd fun c hm => Or.inl (hw c hm)

theorem Change.same (hs : p'.state = p.state) (hc : p'.connection = p.connection)
    (hd : p'.eventData = p.eventData) (hw : p'.waiting = p.waiting) : Change n asks p p' :=
  .subset hs hc hd fun c hm => ⟨c, hw ▸ hm, rfl, rfl⟩

/-- Any number of changes. -/
def Changes (n : Nat) (asks : Prop) : Peer → Peer → Prop := ReflTransGen (Change n asks)

/-- What each change keeps holds after any number of them. -/
theorem Changes.preserves {P : Peer → Prop}
    (hP : ∀ p p', Change n asks p p' → P p → P p') (h : Changes n asks p p') (hp : P p) :
    P p' := by
  induction h with
  | refl => exact hp
  | tail _ hc ih => exact hP _ _ hc ih

end Peer

/-! ## What is known of the data -/

/-- While the connection `n` comes up, its slot has the data `d`. -/
def Opening (n : Nat) (d : UInt32) (p : Peer) : Prop :=
  p.connection = n → p.state.rank = 1 ∨ p.state.rank = 2 → p.eventData = d

/-- A DISCONNECT with the data `d` came in for the connection `n`, and the event that
says so is still to come unless the slot is free. -/
def Told (n : Nat) (d : UInt32) (p : Peer) : Prop :=
  p.connection = n → p.state = .disconnected ∨ p.Closed ∧ p.waiting = [] ∧ p.eventData = d

/-- This side asked for a disconnection of the connection `n` with the data `d`: it
waits in the slot until the packets before it have left, and then in a command. -/
def Leaving (n : Nat) (d : UInt32) (p : Peer) : Prop :=
  p.connection = n → p.state = .disconnected ∨ 4 ≤ p.state.rank ∧
    (p.state = .disconnectLater → p.eventData = d) ∧
    (p.state = .disconnecting → ∀ c ∈ p.waiting, c.command = .disconnect → c.data = d)

section Known

variable {n k : Nat} {asks : Prop} {d : UInt32} {p p' : Peer}

theorem Opening.change (hk : k < n) (h : Opening k d p) (hc : p.Change n asks p') :
    Opening k d p' := by
  intro hn hr
  cases hc with
  | keeps hs hc hd hw => exact hd.trans (h (hc.symm.trans hn) (hs ▸ hr))
  | opens hs hs' hc hd => exact hd.trans (h (hc.symm.trans hn) hs)
  | taken hn' => omega
  | parts hs hs' => rw [hs'] at hr; simp [PeerState.rank] at hr
  | asked ha hs hs' => rcases hs' with e | e <;> (rw [e] at hr; simp [PeerState.rank] at hr)
  | closes hs ha hs' => rcases hs' with e | e <;> (rw [e] at hr; simp [PeerState.rank] at hr)
  | answers hs hs' => rw [hs'] at hr; simp [PeerState.rank] at hr
  | frees hs' => rw [hs'] at hr; simp [PeerState.rank] at hr

theorem Told.change (hk : k < n) (h : Told k d p) (hc : p.Change n asks p') : Told k d p' := by
  intro hn
  have hold : p'.connection = p.connection → p.state ≠ .disconnected →
      p.Closed ∧ p.waiting = [] ∧ p.eventData = d :=
    fun hc hs => (h (hc.symm.trans hn)).resolve_left hs
  cases hc with
  | keeps hs hc hd hw =>
    rw [hs, hd, Peer.Closed, hs]
    refine (h (hc.symm.trans hn)).imp_right fun ⟨ht, hnil, he⟩ => ⟨ht, ?_, he⟩
    refine List.eq_nil_iff_forall_not_mem.mpr fun c hm => ?_
    rcases hw c hm with ⟨b, hb, _⟩ | ⟨_, hne⟩
    · rw [hnil] at hb
      cases hb
    · exact hne ht
  | opens hs hs' hc hd =>
    have hne : p.state ≠ .disconnected := fun e => by rw [e] at hs; simp [PeerState.rank] at hs
    rcases (hold hc hne).1 with e | e <;> (rw [e] at hs; simp [PeerState.rank] at hs)
  | parts hs hs' hc hw =>
    rcases (hold hc (by rw [hs]; decide)).1 with e | e <;> (rw [hs] at e; cases e)
  | asked ha hs hs' hc =>
    have hne : p.state ≠ .disconnected := by rcases hs with e | e <;> (rw [e]; decide)
    rcases (hold hc hne).1 with e | e <;> (rw [e] at hs; simp at hs)
  | closes hs ha hs' hc =>
    obtain ⟨ht, hnil, _⟩ := hold hc hs
    exact absurd hnil (ha ht)
  | answers hs hs' hc hd hw =>
    obtain ⟨_, hnil, he⟩ := hold hc hs
    exact Or.inr ⟨Or.inr hs', hw.trans hnil, hd.trans he⟩
  | frees hs' => exact Or.inl hs'
  | taken hn' => omega

theorem Leaving.change (hk : k < n) (h : Leaving k d p) (hc : p.Change n False p') :
    Leaving k d p' := by
  intro hn
  cases hc with
  | keeps hs hc hd hw =>
    rw [hs, hd]
    refine (h (hc.symm.trans hn)).imp_right fun ⟨hr, hl, hp⟩ => ⟨hr, hl, fun he c hm hdis => ?_⟩
    rcases hw c hm with ⟨b, hb, hcb, hdb⟩ | ⟨hne, _⟩
    · exact hdb.trans (hp he b hb (hcb.symm.trans hdis))
    · exact absurd hdis hne
  | opens hs hs' hc hd =>
    rcases h (hc.symm.trans hn) with e | ⟨hr, _⟩
    · rw [e] at hs
      simp [PeerState.rank] at hs
    · omega
  | parts hs hs' hc hw =>
    have hd := ((h (hc.symm.trans hn)).resolve_left (by rw [hs]; decide)).2.1 hs
    refine Or.inr ⟨by rw [hs']; decide, fun e => ?_, fun _ c hm _ => (hw c hm).trans hd⟩
    rw [hs'] at e
    cases e
  | asked ha => exact ha.elim
  | closes hs ha hs' hc =>
    rcases hs' with hs' | hs' <;> rw [hs'] <;>
      exact Or.inr ⟨by decide, fun e => (by cases e), fun e => (by cases e)⟩
  | answers hs hs' =>
    rw [hs']
    exact Or.inr ⟨by decide, fun e => (by cases e), fun e => (by cases e)⟩
  | frees hs' => exact Or.inl hs'
  | taken hn' => omega

end Known

/-! ## All slots of a host -/

def HostChanges (n : Nat) (asks : Nat → Prop) (h h' : Host) : Prop :=
  ∀ j, (h.peers j).Changes n (asks j) (h'.peers j)

namespace HostChanges

variable {n : Nat} {asks : Nat → Prop} {h h' h'' : Host} {i : Nat}

theorem refl (h : Host) : HostChanges n asks h h := fun _ => .refl

theorem trans (hc : HostChanges n asks h h') (hc' : HostChanges n asks h' h'') :
    HostChanges n asks h h'' := fun j => ReflTransGen.trans (hc j) (hc' j)

theorem of_peers (hp : h'.peers = h.peers) : HostChanges n asks h h' := by
  intro j
  rw [hp]
  exact .refl

/-- One slot changes, any number of times. -/
theorem slot (hi : (h.peers i).Changes n (asks i) (h'.peers i))
    (hne : ∀ j, j ≠ i → h'.peers j = h.peers j) : HostChanges n asks h h' := by
  intro j
  by_cases hj : j = i
  · rw [hj]
    exact hi
  · rw [hne j hj]
    exact .refl

theorem update {f : Peer → Peer} (hf : (h.peers i).Changes n (asks i) (f (h.peers i))) :
    HostChanges n asks h (h.update i f) :=
  slot (by rw [Host.update_peers_self]; exact hf) fun _ hj => Host.update_peers_of_ne h f hj

/-- A change of a peer that touches neither its state nor what waits. -/
theorem update_same {f : Peer → Peer} (hs : (f (h.peers i)).state = (h.peers i).state)
    (hc : (f (h.peers i)).connection = (h.peers i).connection)
    (hd : (f (h.peers i)).eventData = (h.peers i).eventData)
    (hw : (f (h.peers i)).waiting = (h.peers i).waiting) : HostChanges n asks h (h.update i f) :=
  update (.single (.same hs hc hd hw))

end HostChanges

variable {n : Nat} {asks : Nat → Prop} {h : Host} {i : Nat}

theorem setDispatch_changes (h : Host) (queue : List Nat) (i : Nat) (b : Bool) :
    HostChanges n asks h (setDispatch h queue i b) := by
  have hq : HostChanges n asks h { h with dispatchQueue := queue } := .of_peers rfl
  exact hq.trans (.update_same rfl rfl rfl rfl)

theorem queueDispatch_changes (h : Host) (i : Nat) : HostChanges n asks h (queueDispatch h i) := by
  unfold queueDispatch
  split
  · exact .refl h
  · exact setDispatch_changes h _ i true

theorem changeState_changes {t : PeerState}
    (hc : (h.peers i).Change n (asks i) { h.peers i with state := t }) :
    HostChanges n asks h (protocolChangeState h i t) :=
  .update (.single hc)

theorem dispatchState_changes {t : PeerState}
    (hc : (h.peers i).Change n (asks i) { h.peers i with state := t }) :
    HostChanges n asks h (protocolDispatchState h i t) :=
  (changeState_changes hc).trans (queueDispatch_changes _ i)

theorem resetQueues_changes (h : Host) (i : Nat) : HostChanges n asks h (peerResetQueues h i) := by
  refine .slot (i := i) ?_ fun j hj => by
    simp only [peerResetQueues, Host.update_peers_of_ne _ _ hj]
  simp only [peerResetQueues, Host.update_peers_self]
  exact .single (.subset rfl rfl rfl fun c hm => absurd hm List.not_mem_nil)

theorem reset_changes (h : Host) (i : Nat) : HostChanges n asks h (peerReset h i) := by
  refine .slot (i := i) ?_ fun j hj => by
    simp only [peerReset, peerResetQueues, Host.update_peers_of_ne _ _ hj]
  simp only [peerReset, peerResetQueues, Host.update_peers_self]
  exact .single (.frees rfl rfl)

/-! ## Outgoing commands -/

theorem number_waiting (p : Peer) (c : OutgoingCommand) :
    (peerNumberOutgoingCommand p c).1.waiting = p.waiting := by
  unfold peerNumberOutgoingCommand
  simp only
  split
  · rfl
  · split
    · rfl
    · split <;> rfl

theorem setup_waiting (p : Peer) (c : OutgoingCommand) :
    (peerSetupOutgoingCommand p c).waiting =
      if c.acknowledge then p.waiting ++ [setupCommand p c] else p.waiting := by
  have hn := number_waiting p { c with sendAttempts := 0 }
  unfold setupCommand
  unfold peerSetupOutgoingCommand
  generalize peerNumberOutgoingCommand p { c with sendAttempts := 0 } = m at hn
  unfold Peer.waiting at hn ⊢
  by_cases ha : c.acknowledge = true
  · simp only [if_pos ha]
    rw [← List.append_assoc, hn]
  · simp only [if_neg ha]
    exact hn

/-- A command other than DISCONNECT is queued. -/
theorem setup_change {a : Prop} {p : Peer} {c : OutgoingCommand}
    (hc : c.acknowledge = true → c.command ≠ .disconnect ∧ ¬p.Closed) :
    p.Change n a (peerSetupOutgoingCommand p c) := by
  have hslot := setup_slot p c
  refine .keeps (congrArg Slot.state hslot) (congrArg Slot.connection hslot)
    (setup_queued p c).eventData fun d hd => ?_
  rw [setup_waiting] at hd
  split at hd
  · next ha =>
    rcases List.mem_append.mp hd with hd | hd
    · exact Or.inl ⟨d, hd, rfl, rfl⟩
    · obtain rfl := List.mem_singleton.mp hd
      exact Or.inr ⟨(setup_numbered p c).command ▸ (hc ha).1, (hc ha).2⟩
  · exact Or.inl ⟨d, hd, rfl, rfl⟩

theorem foldl_changes {a : Prop} : ∀ (cs : List OutgoingCommand) (p : Peer),
    ¬p.Closed → (∀ c ∈ cs, c.command ≠ .disconnect) →
    p.Changes n a (cs.foldl peerSetupOutgoingCommand p) := by
  intro cs
  induction cs with
  | nil => exact fun p _ _ => .refl
  | cons c cs ih =>
    intro p hs hcs
    have hs' : ¬(peerSetupOutgoingCommand p c).Closed := by
      rw [Peer.Closed, slot_state (setup_slot p c)]
      exact hs
    exact ReflTransGen.head (setup_change fun _ => ⟨hcs c List.mem_cons_self, hs⟩)
      (ih _ hs' fun d hd => hcs d (List.mem_cons_of_mem c hd))

theorem queueOutgoing_getD_changes {a : Prop} {p : Peer} {c : OutgoingCommand} (allocates : Bool)
    (hc : c.acknowledge = true → c.command ≠ .disconnect ∧ ¬p.Closed) :
    p.Changes n a ((peerQueueOutgoingCommand p c allocates).getD p) := by
  rw [peerQueueOutgoingCommand]
  split
  · exact .single (setup_change hc)
  · exact .refl

theorem packetCommands_command {host : Host} {p : Peer} {channelID : UInt8} {packet : Packet}
    {c : OutgoingCommand} (hc : c ∈ packetCommands host p channelID packet) :
    c.command ≠ .disconnect := by
  unfold packetCommands at hc
  split at hc
  · obtain ⟨piece, _, rfl⟩ := List.mem_map.mp hc
    unfold fragmentCommand
    simp only
    split <;> decide
  · obtain rfl := List.mem_singleton.mp hc
    unfold wholeCommand
    simp only
    split
    · exact fun e => (by cases e)
    · split <;> exact fun e => (by cases e)

theorem peerSend_getD_changes {a : Prop} (host : Host) (p : Peer) (channelID : UInt8)
    (packet : Packet) (allocates : Bool) :
    p.Changes n a ((peerSend host p channelID packet allocates).getD p) := by
  cases hs : peerSend host p channelID packet allocates with
  | none => exact .refl
  | some p' =>
    obtain ⟨ha, _, rfl⟩ := peerSend_iff.mp hs
    exact foldl_changes _ p (by simp [Peer.Closed, ha.connected]) fun c => packetCommands_command

theorem peerPing_changes {a : Prop} (p : Peer) (allocates : Bool) :
    p.Changes n a (peerPing p allocates) := by
  unfold peerPing
  split
  · exact .refl
  · next hs =>
    rw [not_not] at hs
    exact queueOutgoing_getD_changes allocates fun _ => ⟨by decide, by simp [Peer.Closed, hs]⟩

theorem broadcastLoop_changes {channelID : UInt8} {packet : Packet} {allocates : Nat → Bool} :
    ∀ (slots : List Nat) (h : Host),
    HostChanges n asks h (broadcastLoop channelID packet allocates slots h) := by
  intro slots
  induction slots with
  | nil => exact fun h => .refl h
  | cons i slots ih =>
    intro h
    unfold broadcastLoop
    split
    · exact ih h
    · exact (HostChanges.update (peerSend_getD_changes _ _ _ _ _)).trans (ih _)

theorem bandwidthLoop_changes {allocates : Nat → Bool} : ∀ (slots : List Nat) (h : Host),
    HostChanges n asks h (bandwidthLoop allocates slots h) := by
  intro slots
  induction slots with
  | nil => exact fun h => .refl h
  | cons i slots ih =>
    intro h
    unfold bandwidthLoop
    split
    · exact ih h
    · next hs =>
      refine (HostChanges.update (queueOutgoing_getD_changes _ fun _ => ⟨by decide, ?_⟩)).trans
        (ih _)
      rintro (e | e) <;> exact hs ⟨by rw [e]; decide, by rw [e]; decide⟩

theorem bandwidthThrottle_changes {recalculate : Bool} {allocates : Nat → Bool} :
    HostChanges n asks h (hostBandwidthThrottle h recalculate allocates) := by
  unfold hostBandwidthThrottle
  split
  · exact bandwidthLoop_changes _ h
  · exact .refl h

/-! ## Sending -/

theorem checkTimeoutsLoop_mem : ∀ (cs : List OutgoingCommand) (ts : List Timeout)
    {c : OutgoingCommand}, c ∈ (checkTimeoutsLoop cs ts).1 ∨ c ∈ (checkTimeoutsLoop cs ts).2.1 →
    c ∈ cs := by
  intro cs
  induction cs with
  | nil =>
    intro ts c hc
    rcases hc with hc | hc <;> cases hc
  | cons b cs ih =>
    intro ts c hc
    cases ts with
    | nil => exact hc.resolve_right List.not_mem_nil
    | cons t ts =>
      cases t with
      | inTime =>
        rcases hc with hc | hc
        · exact (List.mem_cons.mp hc).elim (fun e => e ▸ List.mem_cons_self)
            fun hc => List.mem_cons_of_mem b (ih ts (Or.inl hc))
        · exact List.mem_cons_of_mem b (ih ts (Or.inr hc))
      | late =>
        rcases hc with hc | hc
        · exact List.mem_cons_of_mem b (ih ts (Or.inl hc))
        · exact (List.mem_cons.mp hc).elim (fun e => e ▸ List.mem_cons_self)
            fun hc => List.mem_cons_of_mem b (ih ts (Or.inr hc))
      | expired => exact hc.resolve_right List.not_mem_nil

/-- The command that expired is still there. -/
theorem checkTimeoutsLoop_ne_nil : ∀ (cs : List OutgoingCommand) (ts : List Timeout),
    (checkTimeoutsLoop cs ts).2.2 = true → (checkTimeoutsLoop cs ts).1 ≠ [] := by
  intro cs
  induction cs with
  | nil => intro ts h; cases h
  | cons c cs ih =>
    intro ts h
    cases ts with
    | nil => cases h
    | cons t ts =>
      cases t with
      | inTime => exact List.cons_ne_nil _ _
      | late => exact ih ts h
      | expired => exact List.cons_ne_nil _ _

theorem requeue_change {a : Prop} (p : Peer) (ts : List Timeout) :
    p.Change n a (p.requeue ts) := by
  refine .subset rfl rfl rfl fun c hc => ⟨c, ?_, rfl, rfl⟩
  unfold Peer.waiting Peer.requeue at hc
  rcases List.mem_append.mp hc with hc | hc
  · exact List.mem_append_left _ (checkTimeoutsLoop_mem _ ts (Or.inl hc))
  · rcases List.mem_append.mp hc with hc | hc
    · exact List.mem_append_left _ (checkTimeoutsLoop_mem _ ts (Or.inr hc))
    · exact List.mem_append_right _ hc

/-- Sending a command counts an attempt, and leaves what it says alone. -/
theorem splitCommands_mem : ∀ (cs : List OutgoingCommand) (mask : List Bool) {c : OutgoingCommand},
    c ∈ (splitCommands cs mask).1 ∨ c ∈ (splitCommands cs mask).2 →
    ∃ b ∈ cs, c.command = b.command ∧ c.data = b.data := by
  intro cs
  induction cs with
  | nil =>
    intro mask c hc
    rcases hc with hc | hc <;> cases hc
  | cons b cs ih =>
    intro mask c hc
    have hrest : ∀ {mask}, c ∈ (splitCommands cs mask).1 ∨ c ∈ (splitCommands cs mask).2 →
        ∃ a ∈ b :: cs, c.command = a.command ∧ c.data = a.data := by
      intro mask hc
      obtain ⟨a, ha, hca⟩ := ih mask hc
      exact ⟨a, List.mem_cons_of_mem b ha, hca⟩
    cases mask with
    | nil => exact ⟨c, hc.resolve_left List.not_mem_nil, rfl, rfl⟩
    | cons fits mask =>
      cases fits with
      | true =>
        rcases hc with hc | hc
        · rcases List.mem_cons.mp hc with rfl | hc
          · exact ⟨b, List.mem_cons_self, rfl, rfl⟩
          · exact hrest (Or.inl hc)
        · exact hrest (Or.inr hc)
      | false =>
        rcases hc with hc | hc
        · exact hrest (Or.inl hc)
        · rcases List.mem_cons.mp hc with rfl | hc
          · exact ⟨c, List.mem_cons_self, rfl, rfl⟩
          · exact hrest (Or.inr hc)

theorem sendReliableOutgoing_change {a : Prop} (p : Peer) (mask : List Bool) :
    p.Change n a (protocolSendReliableOutgoingCommands p mask) := by
  refine .subset rfl rfl rfl fun c hc => ?_
  unfold Peer.waiting protocolSendReliableOutgoingCommands at hc
  have hsplit : ∀ {c}, c ∈ (splitCommands p.outgoingReliableCommands mask).1 ∨
      c ∈ (splitCommands p.outgoingReliableCommands mask).2 →
      ∃ b ∈ p.waiting, c.command = b.command ∧ c.data = b.data := by
    intro c hc
    obtain ⟨b, hb, hcb⟩ := splitCommands_mem _ mask hc
    exact ⟨b, List.mem_append_right _ hb, hcb⟩
  rcases List.mem_append.mp hc with hc | hc
  · rcases List.mem_append.mp hc with hc | hc
    · exact ⟨c, List.mem_append_left _ hc, rfl, rfl⟩
    · exact hsplit (Or.inl hc)
  · exact hsplit (Or.inr hc)

theorem sendReliable_changes {a : Prop} (p : Peer) (choice : SendChoice) :
    p.Changes n a (sendReliable p choice) := by
  unfold sendReliable
  simp only
  have hs := sendReliableOutgoing_change (n := n) (a := a) p choice.reliable
  split
  · exact ((ReflTransGen.single hs).trans (peerPing_changes _ _)).tail
      (sendReliableOutgoing_change _ _)
  · exact .single hs

theorem sendAcknowledgements_changes {k : Nat} (hd : (h.peers i).state ≠ .disconnected) :
    HostChanges n asks h (protocolSendAcknowledgements h i k) := by
  unfold protocolSendAcknowledgements
  simp only
  split
  · exact (dispatchState_changes (.answers hd rfl rfl rfl rfl)).trans
      (.update_same rfl rfl rfl rfl)
  · exact .update_same rfl rfl rfl rfl

theorem sendAcknowledgements_state {k : Nat} (hd : (h.peers i).state ≠ .disconnected) :
    ((protocolSendAcknowledgements h i k).peers i).state ≠ .disconnected := by
  unfold protocolSendAcknowledgements
  simp only [Host.update_peers_self]
  split
  · rw [dispatchState_state]
    decide
  · exact hd

/-- A slot from which a DISCONNECT goes out waits for nothing else. -/
theorem disconnectConnected_peer (h : Host) (i : Nat) (data : UInt32) (allocates : Bool) :
    ((peerDisconnectConnected h i data allocates).peers i).state = .disconnecting ∧
      ((peerDisconnectConnected h i data allocates).peers i).connection =
        (h.peers i).connection ∧
      ((peerDisconnectConnected h i data allocates).peers i).eventData =
        (h.peers i).eventData ∧
      ∃ c : OutgoingCommand, c.command = .disconnect ∧ c.data = data ∧
        ((peerDisconnectConnected h i data allocates).peers i).waiting =
          if allocates then [c] else [] := by
  let c : OutgoingCommand :=
    { command := .disconnect, acknowledge := true, channelID := 0xFF, data := data }
  let p := (peerResetQueues h i).peers i
  have hp : p.connection = (h.peers i).connection ∧ p.eventData = (h.peers i).eventData ∧
      p.waiting = [] := by
    simp only [p, peerResetQueues, Host.update_peers_self, true_and]
    rfl
  have hpeer : (peerDisconnectConnected h i data allocates).peers i =
      { (peerQueueOutgoingCommand p c allocates).getD p with state := .disconnecting } := by
    rw [peerDisconnectConnected, Host.update_peers_self]
  have hq := setup_queued p c
  rw [hpeer, peerQueueOutgoingCommand]
  cases allocates with
  | false => exact ⟨rfl, hp.1, hp.2.1, c, rfl, rfl, hp.2.2⟩
  | true =>
    refine ⟨rfl, (congrArg Slot.connection hq.slot).trans hp.1, hq.eventData.trans hp.2.1,
      setupCommand p c, (setup_numbered p c).command, (setup_numbered p c).data, ?_⟩
    have hw := setup_waiting p c
    rw [hp.2.2, List.nil_append] at hw
    exact hw

theorem disconnectConnected_changes {data : UInt32} {allocates : Bool}
    (hc : ∀ p', p'.state = .disconnecting → p'.connection = (h.peers i).connection →
      (∀ c ∈ p'.waiting, c.data = data) → (h.peers i).Change n (asks i) p') :
    HostChanges n asks h (peerDisconnectConnected h i data allocates) := by
  refine .slot (i := i) ?_ fun j hj => by
    simp only [peerDisconnectConnected, peerResetQueues, Host.update_peers_of_ne _ _ hj]
  obtain ⟨hs, hconn, _, c, _, hdata, hw⟩ := disconnectConnected_peer h i data allocates
  refine .single (hc _ hs hconn fun d hd => ?_)
  rw [hw] at hd
  split at hd
  · rw [List.mem_singleton.mp hd, hdata]
  · cases hd

theorem sendUnreliable_changes {k : Nat} {allocates : Bool} :
    HostChanges n asks h (protocolSendUnreliableOutgoingCommands h i k allocates) := by
  unfold protocolSendUnreliableOutgoingCommands
  simp only
  have hdrop : HostChanges n asks h (h.update i fun p =>
      { p with outgoingUnreliableCommands := p.outgoingUnreliableCommands.drop k }) :=
    .update_same rfl rfl rfl rfl
  split
  · next hs =>
    exact hdrop.trans (disconnectConnected_changes fun p' hs' hc hw => .parts hs.1 hs' hc hw)
  · exact hdrop

theorem notifyDisconnect_changes {deliver : Bool} (hd : (h.peers i).state ≠ .disconnected)
    (ha : (h.peers i).Closed → (h.peers i).waiting ≠ []) :
    HostChanges n asks h (protocolNotifyDisconnect h i deliver).1 := by
  unfold protocolNotifyDisconnect
  split
  · exact reset_changes h i
  · split
    · exact reset_changes h i
    · have hz : HostChanges n asks h
          (protocolChangeState (h.update i fun p => { p with eventData := 0 }) i .zombie) := by
        refine .slot (i := i) ?_ fun j hj => by
          simp only [protocolChangeState, Host.update_peers_of_ne _ _ hj]
        simp only [protocolChangeState, Host.update_peers_self]
        exact .single (.closes hd ha (Or.inr rfl) rfl)
      exact hz.trans (queueDispatch_changes _ i)

theorem sendOutgoing_changes {deliver checkForTimeouts : Bool} {choice : SendChoice} :
    HostChanges n asks h
      (protocolSendOutgoingCommands h i deliver checkForTimeouts choice).host := by
  unfold protocolSendOutgoingCommands
  split
  · exact .refl h
  · next hd =>
    have hne : (h.peers i).state ≠ .disconnected := fun e => hd (Or.inl e)
    have hack : HostChanges n asks h (protocolSendAcknowledgements h i choice.acknowledgements) :=
      sendAcknowledgements_changes hne
    have hne' : ((protocolSendAcknowledgements h i choice.acknowledgements).peers i).state ≠
        .disconnected := sendAcknowledgements_state hne
    refine hack.trans ?_
    generalize protocolSendAcknowledgements h i choice.acknowledgements = g at hne' ⊢
    simp only
    split
    · next hx =>
      simp only [Bool.and_eq_true] at hx
      have hr : HostChanges n asks g (g.update i fun p => p.requeue choice.timeouts) :=
        .update (.single (requeue_change _ _))
      refine hr.trans (notifyDisconnect_changes ?_ fun _ hnil => ?_)
      · rw [Host.update_peers_self]
        exact hne'
      · rw [Host.update_peers_self] at hnil
        exact checkTimeoutsLoop_ne_nil _ _ hx.2 (List.append_eq_nil_iff.mp hnil).1
    · have hsend : ∀ checks : Bool, HostChanges n asks g (g.update i fun p =>
          sendReliable (if checks then p.requeue choice.timeouts else p) choice) := by
        intro checks
        refine .update (ReflTransGen.trans ?_ (sendReliable_changes _ _))
        split
        · exact .single (requeue_change _ _)
        · exact .refl
      have hlast : ∀ t : Host, HostChanges n asks t
          (if (t.peers i).outgoingUnreliableCommands.isEmpty then t
          else protocolSendUnreliableOutgoingCommands t i choice.unreliable choice.allocates) := by
        intro t
        split
        · exact .refl t
        · exact sendUnreliable_changes
      exact (hsend _).trans (hlast _)

theorem flushPass_changes {choice : Nat → SendChoice} : ∀ (slots : List Nat) (h : Host),
    HostChanges n asks h (flushPass choice slots h).1 := by
  intro slots
  induction slots with
  | nil => exact fun h => .refl h
  | cons i slots ih =>
    intro h
    unfold flushPass
    simp only
    split
    · exact sendOutgoing_changes
    · exact sendOutgoing_changes.trans (ih _)

theorem flush_changes : ∀ (passes : List (Nat → SendChoice)) (h : Host),
    HostChanges n asks h (hostFlush passes h) := by
  intro passes
  induction passes with
  | nil => exact fun h => .refl h
  | cons choice passes ih =>
    intro h
    unfold hostFlush
    simp only
    split
    · exact (flushPass_changes _ h).trans (ih _)
    · exact flushPass_changes _ h

/-! ## The functions on a peer -/

theorem flushReset_changes {data : UInt32} {allocates : Bool} {passes : List (Nat → SendChoice)} :
    HostChanges n asks h (peerReset (flushDisconnect h i data allocates passes) i) := by
  have hq : HostChanges n asks h (flushDisconnect h i data allocates passes) := by
    unfold flushDisconnect
    refine ((resetQueues_changes h i).trans (.update ?_)).trans (flush_changes passes _)
    exact queueOutgoing_getD_changes allocates fun e => (by cases e)
  exact hq.trans (reset_changes _ i)

theorem disconnect_changes {data : UInt32} {allocates : Bool} {passes : List (Nat → SendChoice)}
    (ha : asks i) : HostChanges n asks h (peerDisconnect h i data allocates passes) := by
  unfold peerDisconnect
  cases hs : (h.peers i).state with
  | connected =>
    exact disconnectConnected_changes fun p' hs' hc _ => .asked ha (Or.inl hs) (Or.inr hs') hc
  | disconnectLater =>
    exact disconnectConnected_changes fun p' hs' hc _ => .asked ha (Or.inr hs) (Or.inr hs') hc
  | connecting => exact flushReset_changes
  | acknowledgingConnect => exact flushReset_changes
  | connectionPending => exact flushReset_changes
  | connectionSucceeded => exact flushReset_changes
  | _ => exact .refl h

theorem disconnectNow_changes {data : UInt32} {allocates : Bool}
    {passes : List (Nat → SendChoice)} :
    HostChanges n asks h (peerDisconnectNow h i data allocates passes) := by
  unfold peerDisconnectNow
  cases (h.peers i).state with
  | disconnected => exact .refl h
  | zombie => exact reset_changes h i
  | disconnecting => exact reset_changes h i
  | _ => exact flushReset_changes

theorem disconnectLater_changes {data : UInt32} {allocates : Bool}
    {passes : List (Nat → SendChoice)} (ha : asks i) :
    HostChanges n asks h (peerDisconnectLater h i data allocates passes) := by
  unfold peerDisconnectLater
  split
  · next hs => exact .update (.single (.asked ha hs.1 (Or.inl rfl) rfl))
  · exact disconnect_changes ha

/-- A slot that is claimed goes to a new connection. -/
theorem connectClaim_changes {h' : Host} {address : Address} {channelCount : Nat} {data : UInt32}
    {channels connects : Bool} (hn : n ≤ h.connections)
    (hs : hostConnectClaim h i address channelCount data channels connects = some h') :
    HostChanges n asks h h' := by
  have hconn := congrArg Slot.connection (connectClaim_slot hs).1
  unfold hostConnectClaim at hs
  simp only [Option.ite_none_right_eq_some, Option.some.injEq] at hs
  obtain ⟨_, rfl⟩ := hs
  refine .slot (i := i) (.single (.taken ?_)) fun j hj => by
    simp only [Host.update_peers_of_ne _ _ hj]
  exact Nat.le_trans hn (Nat.le_of_eq hconn.symm)

end ENet
