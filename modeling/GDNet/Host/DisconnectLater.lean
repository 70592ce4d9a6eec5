import GDNet.Host.Handed

/-!
# Messages before `disconnect_later`

A message goes through the queue and `disconnect_later` goes straight to ENet.  As
long as the slot stays CONNECTED every message that is handed over finds it so, and
from `disconnect_later` on no message finds that connection CONNECTED again.  So the
messages that are still in the queue when `disconnect_later` gets to ENet are too
late, and the others are not.
-/

namespace GDNet

open Transition

variable {s t : State} {a : Action} {session n i : Nat}

/-! ## A slot stays connected -/

/-- The slot is CONNECTED, and the other side has not asked for a disconnection that
is still to be acknowledged. -/
structure Connected (h : ENet.Host) (i : Nat) : Prop where
  state : (h.peers i).state = .connected
  staying : .disconnect ∉ (h.peers i).acknowledgements

/-- Neither side disconnects the slot in the step, the host stays bound, and
`enet_packet_create` does not fail. -/
structure Undisturbed (i : Nat) (s : State) (a : Action) : Prop where
  closes : ¬(s.allow a).closes i
  bound : a.unbinds = false
  creates : a.creates

/-- The connection `n` of the session is up in the slot. -/
structure Up (session n i : Nat) (s : State) : Prop where
  calm : ¬s.game.pc.unbinding
  unclaimed : ∀ args, s.game.pc ≠ .found i args
  session : s.world.session = session
  host : ∃ h, s.enet = some h ∧ (h.slot i).connection = n ∧ Connected h i

theorem Connected.moves {b : ENet.Allow} {h h' : ENet.Host} (hc : Connected h i)
    (hm : ENet.Moves b i (h.slot i) (h'.slot i)) (hb : ¬b.closes i) : Connected h' i := by
  have hanswered : (h.slot i).Answered := fun hm => absurd hm hc.staying
  have hstate : (h'.slot i).state = .connected := by
    by_contra hne
    exact hb (hm.closes hanswered hc.state hne)
  refine ⟨hstate, fun hmem => ?_⟩
  rcases hm.answered hanswered hmem with e | e
  · rw [hstate] at e
    cases e
  · rw [hstate] at e
    cases e

theorem step_up (hi : Up session n i s) (hu : Undisturbed i s a) (h : Step s a t) :
    Up session n i t := by
  obtain ⟨g, hg, hn, hc⟩ := hi.host
  have hcalm := step_unbinding h hu.bound hi.calm
  have hunclaimed : ∀ args, t.game.pc ≠ .found i args := by
    intro args hf
    rcases step_found h hf with hf | ⟨_, g', hg', hsearch⟩
    · exact hi.unclaimed args hf
    · obtain rfl := Option.some.inj (hg.symm.trans hg')
      have hfree := (ENet.connectSearch_eq hsearch).2
      rw [hc.state] at hfree
      cases hfree
  cases step_host h with
  | keep he hs => exact ⟨hcalm, hunclaimed, hs.trans hi.session, g, he.trans hg, hn, hc⟩
  | @receives g₁ g' hg₁ hg' hr hs =>
    obtain rfl := Option.some.inj (hg.symm.trans hg₁)
    rcases hr.slots i with hm | ⟨_, ht⟩
    · exact ⟨hcalm, hunclaimed, hs.trans hi.session, g', hg', hm.connection.trans hn,
        hc.moves hm hu.closes⟩
    · have hfree : (g.peers i).state = .disconnected := ht.free
      rw [hc.state] at hfree
      cases hfree
  | @claim k args env g₁ g' hf hg₁ hg' hclaim hs =>
    obtain rfl := Option.some.inj (hg.symm.trans hg₁)
    have hne : i ≠ k := fun e => hi.unclaimed args (e ▸ hf)
    have hslot := (ENet.connectClaim_slot hclaim).2.1 i hne
    refine ⟨hcalm, hunclaimed, hs.trans hi.session, g', hg', by rw [hslot]; exact hn, ?_, ?_⟩
    · exact (congrArg ENet.Slot.state hslot).trans hc.state
    · rw [show (g'.peers i).acknowledgements = _ from congrArg ENet.Slot.acknowledgements hslot]
      exact hc.staying
  | create _ hg' _ _ _ =>
    rw [hg] at hg'
    cases hg'
  | destroy hpc _ _ => exact absurd (by rw [hpc]; trivial) hi.calm

/-! ## A slot that has been closed -/

/-- The connection `n` of the session is not up in the slot, and will not be again. -/
structure Down (session n i : Nat) (s : State) : Prop where
  started : session ≤ s.world.session
  host : s.world.session = session → ∀ h, s.enet = some h → n < h.connections ∧
    ((h.slot i).connection = n → (h.slot i).state.rank = 0 ∨ 4 ≤ (h.slot i).state.rank)

theorem step_down (hi : Down session n i s) (h : Step s a t) : Down session n i t := by
  have hst := step_host h
  refine ⟨Nat.le_trans hi.started hst.session_le, fun hs g' hg' => ?_⟩
  cases hst with
  | keep he hn => exact hi.host (hn.symm.trans hs) g' (he.symm.trans hg')
  | @receives g g₁ hg hg₁ hr hn =>
    obtain rfl := Option.some.inj (hg'.symm.trans hg₁)
    obtain ⟨hlt, hdown⟩ := hi.host (hn.symm.trans hs) g hg
    refine ⟨Nat.lt_of_lt_of_le hlt hr.connections, fun hconn => ?_⟩
    rcases hr.slots i with hm | ⟨_, ht⟩
    · rcases hm.rank with hd | ⟨hne, hle⟩
      · exact Or.inl (ENet.PeerState.rank_eq_zero.mpr hd)
      · rcases hdown (hm.connection.symm.trans hconn) with hz | hfour
        · exact absurd (ENet.PeerState.rank_eq_zero.mp hz) hne
        · exact Or.inr (Nat.le_trans hfour hle)
    · have hfresh := ht.fresh
      omega
  | @claim k args env g g₁ _ hg hg₁ hclaim hn =>
    obtain rfl := Option.some.inj (hg'.symm.trans hg₁)
    obtain ⟨hlt, hdown⟩ := hi.host (hn.symm.trans hs) g hg
    obtain ⟨hself, hothers, _, hcount⟩ := ENet.connectClaim_slot hclaim
    refine ⟨by omega, fun hconn => ?_⟩
    by_cases hk : i = k
    · rw [hk, hself] at hconn
      have hnext : g.connections = n := hconn
      omega
    · rw [hothers i hk] at hconn ⊢
      exact hdown hconn
  | create _ _ _ _ hn =>
    have := hi.started
    omega
  | destroy _ hnone _ =>
    rw [hg'] at hnone
    cases hnone

theorem disconnectLater_rank {h : ENet.Host} {data : UInt32} {allocates : Bool}
    {passes : List (Nat → ENet.SendChoice)} (hs : (h.peers i).state = .connected) :
    4 ≤ ((ENet.peerDisconnectLater h i data allocates passes).peers i).state.rank := by
  unfold ENet.peerDisconnectLater
  split
  · rw [ENet.Host.update_peers_self]
    exact Nat.le_refl 4
  · rw [ENet.peerDisconnect, hs]
    show 4 ≤ ((ENet.peerDisconnectConnected h i data allocates).peers i).state.rank
    rw [ENet.peerDisconnectConnected, ENet.Host.update_peers_self]
    exact Nat.le_refl 4

/-- `disconnect_later` takes the slot out of CONNECTED. -/
theorem later_down {q : PeerPtr} {data : Int} {env : Env} (hr : system.Reachable s)
    (hi : Up session n q.slot s) (hpc : s.game.pc = .inside (.disconnectLater data) q)
    (h : system.step s (.game (.go env)) = some t) (hf : t.world.fault = none) :
    Down session n q.slot t := by
  obtain ⟨g, hg, hn, hc⟩ := hi.host
  cases (step_cases h).2 with
  | go hs =>
    rw [hpc] at hs
    cases hs with
    | @inside _ _ g' hl =>
      obtain rfl := Option.some.inj (hg.symm.trans (World.live_eq hl).1)
      refine ⟨Nat.le_of_eq hi.session.symm, fun _ g₁ hg₁ => ?_⟩
      obtain rfl := Option.some.inj hg₁
      have hmoves : ENet.HostMoves .all g ((PeerMethod.disconnectLater data).run g q.slot env) :=
        method_moves trivial trivial
      refine ⟨?_, fun _ => Or.inr (disconnectLater_rank hc.state)⟩
      rw [hmoves.connections, ← hn]
      exact (host_ok hr hg).counted q.slot
    | fails hx => cases hf

/-! ## What the messages find -/

/-- A message for the slot that `enet_peer_send` takes on a channel of the peer, as
long as it is CONNECTED. -/
def Sendable (h : ENet.Host) (i : Nat) (m : Message) : Prop :=
  m.broadcast = false ∧ m.peerId = i ∧ 0 ≤ m.channelId ∧ m.channelId < (h.peers i).channelCount ∧
    m.packet.length ≤ h.maximumPacketSize

instance (h : ENet.Host) (i : Nat) (m : Message) : Decidable (Sendable h i m) :=
  inferInstanceAs (Decidable (_ ∧ _ ∧ _ ∧ _ ∧ _))

/-- The handover finds the connection `n` of the session CONNECTED in the slot. -/
def Handover.Finds (session n i : Nat) (x : Handover) : Prop :=
  x.session = session ∧ (x.host.slot i).connection = n ∧ (x.host.peers i).state = .connected

instance (session n i : Nat) (x : Handover) : Decidable (x.Finds session n i) :=
  inferInstanceAs (Decidable (_ ∧ _ ∧ _))

/-- The messages that find the connection CONNECTED. -/
def inTime (session n i : Nat) (xs : List Handover) : List QueuedMessage :=
  (xs.filter fun x => x.Finds session n i).map (·.message)

theorem handover_host {x : Handover} (h : x ∈ handovers s a) :
    s.enet = some x.host ∧ x.session = s.world.session := by
  unfold handovers at h
  split at h
  · split at h
    · next hh =>
      split at h
      · obtain rfl := List.mem_singleton.mp h
        exact ⟨hh, rfl⟩
      · cases h
    · cases h
  · cases h

/-- A message for one slot is refused unless it finds a CONNECTED peer there. -/
theorem handover_accepted {x : Handover} (h : x ∈ handovers s a)
    (hone : x.message.item.broadcast = false) (ha : x.accepted = true) :
    (x.host.peers x.message.item.slot).state = .connected := by
  unfold handovers at h
  split at h
  · split at h
    · split at h
      · obtain rfl := List.mem_singleton.mp h
        dsimp only at hone ha ⊢
        rw [sendAccepted, hone, Bool.false_or] at ha
        obtain ⟨p, hp⟩ := Option.isSome_iff_exists.mp ha
        exact (ENet.peerSend_accepts hp).1
      · cases h
    · cases h
  · cases h

theorem Up.finds (hi : Up session n i s) {x : Handover} (h : x ∈ handovers s a) :
    x.Finds session n i := by
  obtain ⟨g, hg, hn, hc⟩ := hi.host
  obtain ⟨hx, hs⟩ := handover_host h
  obtain rfl := Option.some.inj (hg.symm.trans hx)
  exact ⟨hs.trans hi.session, hn, hc.state⟩

theorem Down.misses (hi : Down session n i s) {x : Handover} (h : x ∈ handovers s a) :
    ¬x.Finds session n i := by
  rintro ⟨hs, hn, hc⟩
  obtain ⟨hx, hs'⟩ := handover_host h
  have hrank := (hi.host (hs'.symm.trans hs) x.host hx).2 hn
  rw [show (x.host.slot i).state = .connected from hc] at hrank
  simp [ENet.PeerState.rank] at hrank

theorem run_up {as : List Action} (hi : Up session n i s)
    (hu : system.Along (Undisturbed i) s as) (hr : system.run s as = some t) :
    Up session n i t ∧ ∀ x ∈ system.trace handovers s as, x.Finds session n i := by
  have hstep : ∀ u a v seen, Undisturbed i u a →
      (Up session n i u ∧ ∀ x ∈ seen, Handover.Finds session n i x) → system.step u a = some v →
      Up session n i v ∧ ∀ x ∈ seen ++ handovers u a, x.Finds session n i := by
    intro u a v seen hu hi hv
    refine ⟨step_up hi.1 hu (step_cases hv).2, fun x hx => ?_⟩
    rcases List.mem_append.mp hx with hx | hx
    · exact hi.2 x hx
    · exact hi.1.finds hx
  exact Machine.run_trace hstep hu ⟨hi, fun _ hx => absurd hx List.not_mem_nil⟩ hr

theorem run_down {as : List Action} (hi : Down session n i s) (hr : system.run s as = some t) :
    ∀ x ∈ system.trace handovers s as, ¬x.Finds session n i := by
  have hstep : ∀ u a v seen, True →
      (Down session n i u ∧ ∀ x ∈ seen, ¬Handover.Finds session n i x) →
      system.step u a = some v →
      Down session n i v ∧ ∀ x ∈ seen ++ handovers u a, ¬x.Finds session n i := by
    intro u a v seen _ hi hv
    refine ⟨step_down hi.1 (step_cases hv).2, fun x hx => ?_⟩
    rcases List.mem_append.mp hx with hx | hx
    · exact hi.2 x hx
    · exact hi.1.misses hx
  exact (Machine.run_trace hstep (Machine.along_true s as)
    ⟨hi, fun _ hx => absurd hx List.not_mem_nil⟩ hr).2

theorem inTime_all {xs : List Handover} (h : ∀ x ∈ xs, x.Finds session n i) :
    inTime session n i xs = xs.map (·.message) := by
  rw [inTime, List.filter_eq_self.mpr fun x hx => decide_eq_true (h x hx)]

theorem inTime_none {xs : List Handover} (h : ∀ x ∈ xs, ¬x.Finds session n i) :
    inTime session n i xs = [] := by
  rw [inTime, List.filter_eq_nil_iff.mpr fun x hx => by simpa using h x hx]
  rfl

theorem inTime_append (xs ys : List Handover) :
    inTime session n i (xs ++ ys) = inTime session n i xs ++ inTime session n i ys := by
  rw [inTime, List.filter_append, List.map_append]
  rfl

theorem run_handed (s : State) (as : List Action) :
    system.trace handedMessages s as = (system.trace handovers s as).map (·.message) :=
  Machine.trace_hom rfl (fun _ _ => List.map_append) s as

/-- Of the messages for a slot that is CONNECTED, those that were accepted before a
`disconnect_later` of it gets to ENet all find it CONNECTED exactly if none of them is
in the queue then. -/
theorem disconnect_later_sends {u v : State} {as bs : List Action} {q : PeerPtr} {data : Int}
    {env : Env} {h : ENet.Host} (hs : system.Reachable s) (hpc : s.game.pc = .idle)
    (hh : s.enet = some h) (hc : Connected h q.slot)
    (has : system.Along (Undisturbed q.slot) s as) (hr : system.run s as = some u)
    (hu : u.game.pc = .inside (.disconnectLater data) q)
    (hv : system.step u (.game (.go env)) = some v) (hbs : system.run v bs = some t) :
    (inTime s.world.session (h.slot q.slot).connection q.slot
        (system.trace handovers s (as ++ .game (.go env) :: bs))).filter
          (fun m => Sendable h q.slot m.item) =
      (s.carried ++ system.trace writtenMessages s as).filter
          (fun m => Sendable h q.slot m.item) ↔
    ∀ m ∈ u.world.host.messageQueue.pending, ¬Sendable h q.slot m.item := by
  let session := s.world.session
  let n := (h.slot q.slot).connection
  have hup : Up session n q.slot s := by
    refine ⟨by rw [hpc]; exact id, fun args e => ?_, rfl, h, hh, rfl, hc⟩
    rw [hpc] at e
    cases e
  obtain ⟨hup', hfinds⟩ := run_up hup has hr
  have hreach := hs.run hr
  -- What is handed over from `disconnect_later` on comes too late.
  have hlate : inTime session n q.slot (system.trace handovers v bs) = [] := by
    by_cases hf : v.world.fault = none
    · exact inTime_none (run_down (later_down hreach hup' hu hv hf) hbs)
    · cases bs with
      | nil => rfl
      | cons b bs =>
        obtain ⟨w, hw, _⟩ := Machine.run_cons.mp hbs
        exact absurd (step_cases hw).1 hf
  have hall : inTime session n q.slot
      (system.trace handovers s (as ++ .game (.go env) :: bs)) =
        system.trace handedMessages s as := by
    rw [Machine.trace_append _ hr, Machine.trace_cons _ hv, inTime_append, run_handed]
    show inTime session n q.slot _ ++ inTime session n q.slot (system.trace handovers v bs) = _
    rw [hlate, List.append_nil, inTime_all hfinds]
  have hcalm : system.Along (fun u a => ¬Clears u a ∧ a.creates) s as :=
    has.of_invariant (fun u a v hu hi hv => step_up hi hu (step_cases hv).2)
      (fun u a hu hi => ⟨not_clears hi.calm a, hu.creates⟩) hup
  have hcarried := run_carried hs hcalm hr
  -- The host thread has no message in its hands while the game thread is inside ENet.
  have hheld : u.world.held = [] := by
    unfold World.held
    split
    · next m hw => exact absurd (by rw [hu]; rfl) (critical_exclusive hreach hw rfl)
    · rfl
  rw [hcarried, State.carried, hheld, List.nil_append, hall, List.filter_append]
  constructor
  · intro he m hm hsend
    have hnil := List.self_eq_append_right.mp he
    exact absurd (decide_eq_true hsend) (List.filter_eq_nil_iff.mp hnil m hm)
  · intro hnone
    refine List.self_eq_append_right.mpr (List.filter_eq_nil_iff.mpr fun m hm => ?_)
    simpa using hnone m hm

/-! ## A message that is in time, and one that is not -/

/-- Nothing comes in and nothing times out in the step, and no call changes a peer. -/
def Uneventful (s : State) : Action → Bool
  | .worker input =>
    input.creates && input.service.send.timeouts.isEmpty &&
      match input.service.received with
      | .nothing => true
      | _ => false
  | .game (.call c env) => !(Action.game (.call c env)).unbinds
  | .game (.go _) =>
    match s.game.pc with
    | .inside _ _ => false
    | .unbindFlush => false
    | _ => true

theorem undisturbed (h : Uneventful s a = true) : Undisturbed i s a := by
  cases a with
  | worker input =>
    rw [Uneventful, Bool.and_eq_true, Bool.and_eq_true] at h
    obtain ⟨⟨hcreates, htimeouts⟩, hreceived⟩ := h
    refine ⟨?_, rfl, hcreates⟩
    rw [State.allow]
    split
    · next pc _ =>
      intro hc
      cases pc with
      | send again j =>
        have hm := hc.2
        rw [List.isEmpty_iff.mp htimeouts] at hm
        cases hm
      | receive packets =>
        obtain ⟨d, hd, _⟩ := hc
        rw [hd] at hreceived
        cases hreceived
      | _ => exact hc
    · exact id
    · exact id
  | game input =>
    cases input with
    | call c env => exact ⟨id, (Bool.not_eq_true' _).mp h, trivial⟩
    | go env =>
      refine ⟨?_, rfl, trivial⟩
      rw [Uneventful] at h
      rw [State.allow]
      split
      · next hpc =>
        rw [hpc] at h
        cases h
      · next hpc =>
        rw [hpc] at h
        cases h
      · exact id

/-- The game has a peer object for the first slot, which is connected. -/
def linkedRun : List Action := connectRun ++ [.game (.call (.getPeer 0) {})]

def State.linked : State := (system.run .fresh linkedRun).getD .fresh

theorem linked_run : system.run .fresh linkedRun = some .linked := by rfl

theorem linked_reachable : system.Reachable .linked :=
  (Machine.Reachable.start fresh_start).run linked_run

/-- A packet is sent to it. -/
def packetActions : List Action :=
  [.game (.call (.sendPacket ⟨1, 0⟩ [7] 0 2) {}), .game (.go {}), .game (.go {}), .game (.go {})]

/-- A call of `disconnect_later`, up to where it has the host to itself. -/
def laterActions : List Action :=
  [.game (.call (.locked (.disconnectLater 0) ⟨1, 0⟩) {}), .game (.go {}), .game (.go {}),
    .game (.go {})]

/-- The host thread makes a turn between the two. -/
def drainedRun : List Action := packetActions ++ List.replicate 20 (.worker {}) ++ laterActions

/-- It does not. -/
def overtakenRun : List Action := packetActions ++ laterActions

/-- The packet, as a message. -/
def packetMessage : Message := ⟨.reliable, false, 0, 0, [7]⟩

theorem linked_host : ∃ h, State.linked.enet = some h ∧ Connected h 0 ∧
    (h.slot 0).connection = 1 ∧ Sendable h 0 packetMessage := by
  have hmap : State.linked.enet.map (fun h => ((h.peers 0).state, (h.peers 0).acknowledgements,
      (h.slot 0).connection, (h.peers 0).channelCount, h.maximumPacketSize)) =
        some (.connected, [], 1, 1, 33554432) := by rfl
  obtain ⟨h, hh, he⟩ := Option.map_eq_some_iff.mp hmap
  simp only [Prod.mk.injEq] at he
  obtain ⟨hstate, hack, hconn, hcount, hsize⟩ := he
  refine ⟨h, hh, ⟨hstate, ?_⟩, hconn, rfl, rfl, Int.le_refl 0, ?_, ?_⟩
  · rw [hack]
    exact List.not_mem_nil
  · rw [hcount]
    decide
  · rw [hsize]
    decide

/-- The run leads to where `disconnect_later` gets to ENet. -/
theorem linked_undisturbed {as : List Action}
    (h : system.Along (fun s a => Uneventful s a = true) .linked as) :
    system.Along (Undisturbed 0) .linked as :=
  h.mono fun _ _ => undisturbed

theorem disconnect_later_sends_drained :
    ∃ h, State.linked.enet = some h ∧
      (inTime 1 1 0 (system.trace handovers .linked (drainedRun ++ [.game (.go {})]))).filter
          (fun m => Sendable h 0 m.item) =
        (State.linked.carried ++ system.trace writtenMessages .linked drainedRun).filter
          (fun m => Sendable h 0 m.item) := by
  obtain ⟨h, hh, hc, hconn, _⟩ := linked_host
  have hmap : (system.run .linked (drainedRun ++ [.game (.go {})])).isSome := by rfl
  obtain ⟨t, ht⟩ := Option.isSome_iff_exists.mp hmap
  obtain ⟨u, hu, hv⟩ := Machine.run_append.mp ht
  have hat : (system.run .linked drainedRun).map
      (fun u => (u.game.pc, u.world.host.messageQueue.pending.length)) =
        some (.inside (.disconnectLater 0) ⟨1, 0⟩, 0) := by rfl
  rw [hu] at hat
  obtain ⟨hpc, hlen⟩ := Prod.mk.inj (Option.some.inj hat)
  have hsession : State.linked.world.session = 1 := by rfl
  have hstill : system.run t [] = some t := rfl
  have hiff := disconnect_later_sends (q := ⟨1, 0⟩) linked_reachable (by rfl) hh hc
    (linked_undisturbed (by decide)) hu hpc (Machine.run_single.mp hv) hstill
  rw [hsession, hconn] at hiff
  refine ⟨h, hh, hiff.mpr ?_⟩
  rw [List.length_eq_zero_iff.mp hlen]
  exact fun m hm => absurd hm List.not_mem_nil

/-- A packet is accepted while its peer is CONNECTED, and the `disconnect_later` after
it gets to ENet first. -/
theorem disconnect_overtakes :
    ∃ (s : State) (q : PeerPtr) (h : ENet.Host) (as bs : List Action) (m : QueuedMessage),
      system.Reachable s ∧ s.game.pc = .idle ∧ s.enet = some h ∧ Connected h q.slot ∧
      system.Along (Undisturbed q.slot) s as ∧
      (system.run s as).map (·.game.pc) = some (.inside (.disconnectLater 0) q) ∧
      system.trace writtenMessages s as = [m] ∧ Sendable h q.slot m.item ∧
      (system.run s (as ++ bs)).isSome ∧
      (system.trace handovers s (as ++ bs)).map
        (fun x => (x.message, (x.host.peers q.slot).state, x.accepted)) =
          [(m, .disconnecting, false)] := by
  obtain ⟨h, hh, hc, _, hsend⟩ := linked_host
  have hwritten : ∃ m, system.trace writtenMessages .linked overtakenRun = [m] ∧
      m.item = packetMessage ∧
      (system.trace handovers .linked (overtakenRun ++ ([.game (.go {}), .game (.go {})] ++
        List.replicate 8 (.worker {})))).map
          (fun x => (x.message, (x.host.peers 0).state, x.accepted)) =
            [(m, .disconnecting, false)] := ⟨_, by rfl, by rfl, by rfl⟩
  obtain ⟨m, hm, hitem, hhanded⟩ := hwritten
  exact ⟨.linked, ⟨1, 0⟩, h, overtakenRun, _, m, linked_reachable, by rfl, hh, hc,
    linked_undisturbed (by decide), by rfl, hm, hitem ▸ hsend, by rfl, hhanded⟩

end GDNet
