import GDNet.Host.Backlog

/-!
# Messages that are handed to ENet

The host thread hands over what it pops, so at any time the messages that were
accepted are those handed over and those still on their way, in this order.
`unbind` stops the thread at the next test of its loop.  What is in the queue then
stays in it until `unbind` clears it.
-/

namespace GDNet

open Transition

variable {s t : State} {a : Action}

/-- A call of `enet_peer_send` or of `enet_host_broadcast`, the host it finds and what
it returns. -/
structure Handover where
  message : QueuedMessage
  session : Nat
  host : ENet.Host
  accepted : Bool

/-- `enet_peer_send` returns 0; `enet_host_broadcast` returns nothing. -/
def sendAccepted (h : ENet.Host) (m : Message) (input : WorkerInput) : Bool :=
  m.broadcast || (ENet.peerSend h (h.peers m.peerId.toNat) (UInt8.ofInt m.channelId)
    ⟨packetFlags m.type, m.packet⟩ (input.allocates m.peerId.toNat)).isSome

def handovers (s : State) : Action → List Handover
  | .worker input =>
    match s.world.worker, s.enet with
    | some (.handing m), some h =>
      if input.creates && (handOver h m.item input).isSome then
        [⟨m, s.world.session, h, sendAccepted h m.item input⟩]
      else []
    | _, _ => []
  | .game _ => []

def handedMessages (s : State) (a : Action) : List QueuedMessage :=
  (handovers s a).map (·.message)

/-- `enet_packet_create` does not fail. -/
def Action.creates : Action → Prop
  | .worker input => input.creates = true
  | .game _ => True

instance (a : Action) : Decidable a.creates :=
  match a with
  | .worker input => inferInstanceAs (Decidable (input.creates = true))
  | .game _ => .isTrue trivial

/-- The message between its `pop` and its `memdelete`. -/
def World.held (w : World) : List QueuedMessage :=
  match w.worker with
  | some (.handing m) => [m]
  | _ => []

/-- The messages on their way, in the order of their turns. -/
def State.carried (s : State) : List QueuedMessage :=
  s.world.held ++ s.world.host.messageQueue.pending

theorem held_congr {w w' : World} (h : w'.worker = w.worker) : w'.held = w.held := by
  rw [World.held, World.held, h]

theorem polled_held (w : World) (time : Int) (h : ENet.Host) (outcome : ENet.ServiceOutcome) :
    (w.polled time h outcome).held = [] := by
  unfold World.polled
  split <;> rfl

theorem worker_held {input : WorkerInput} {pc : WorkerPc} {w : World}
    (hpc : s.world.worker = some pc) (hs : WorkerStep s.world input pc w)
    (hc : input.creates = true) :
    s.world.held ++ poppedMessages s (.worker input) =
      handedMessages s (.worker input) ++ w.held := by
  have hnone : ∀ {x : World}, (∀ m, pc ≠ .handing m) → pc ≠ .popRead → x.held = [] →
      s.world.held ++ poppedMessages s (.worker input) =
        handedMessages s (.worker input) ++ x.held := by
    intro x hm hp hx
    rw [World.held, poppedMessages, handedMessages, handovers, hpc, hx]
    cases pc <;> first | rfl | exact absurd rfl (hm _) | exact absurd rfl hp
  cases hs with
  | popRead =>
    rw [World.held, poppedMessages, handedMessages, handovers, hpc]
    rfl
  | @handing m h h' hh ho =>
    have hh' : s.enet = some h := hh
    rw [World.held, poppedMessages, handedMessages, handovers, hpc, hh']
    simp only [hc, ho, Option.isSome_some, Bool.and_self, if_true]
    rfl
  | service hh => exact hnone (fun _ => by simp) (by simp) (polled_held _ _ _ _)
  | check hh => exact hnone (fun _ => by simp) (by simp) (polled_held _ _ _ _)
  | fails hf =>
    have hkeep : poppedMessages s (.worker input) = [] ∧
        handedMessages s (.worker input) = [] := by
      rw [poppedMessages, handedMessages, handovers, hpc]
      cases hf with
      | @badIndex m h hh ho =>
        have hh' : s.enet = some h := hh
        refine ⟨rfl, ?_⟩
        rw [hh']
        simp only [ho, Option.isSome_none, Bool.and_false, Bool.false_eq_true, if_false]
        rfl
      | @handing m hh =>
        have hh' : s.enet = none := hh
        rw [hh']
        exact ⟨rfl, rfl⟩
      | _ => exact ⟨rfl, rfl⟩
    rw [hkeep.1, hkeep.2, List.append_nil, List.nil_append]
    rfl
  | _ => exact hnone (fun _ => by simp) (by simp) rfl

theorem go_held {env : Env} {pc : GamePc} {w : World} {g : Game} (hl : Life s)
    (hpc : s.game.pc = pc) (hs : GoStep gameThread s.world s.game env pc w g) :
    w.held = s.world.held := by
  cases hs with
  | bindThread =>
    have hw := hl.worker_none (by rw [hpc]; rfl) rfl
    rw [World.held, World.held, hw]
    rfl
  | unbindWait hw =>
    rw [World.held, World.held, hw]
  | _ => rfl

/-- What the host thread pops it has in its hands until it hands it over. -/
theorem step_held (hl : Life s) (h : Step s a t) (hc : a.creates) :
    s.world.held ++ poppedMessages s a = handedMessages s a ++ t.world.held := by
  cases h with
  | worker hpc hs => exact worker_held hpc hs hc
  | call hpc hp hs =>
    show _ ++ [] = [] ++ _
    rw [held_congr (call_queues hs hpc).2.2.1, List.append_nil, List.nil_append]
  | go hs =>
    show _ ++ [] = [] ++ _
    rw [go_held hl rfl hs, List.append_nil, List.nil_append]

theorem step_carried (hr : system.Reachable s) (hc : ¬Clears s a) (hcreates : a.creates)
    (h : Step s a t) :
    s.carried ++ writtenMessages s a = handedMessages s a ++ t.carried := by
  have hpending := (messages_turn hc h).conserves (queues hr).messages
  have hheld := step_held (life hr) h hcreates
  rw [State.carried, State.carried, List.append_assoc, hpending, ← List.append_assoc, hheld,
    List.append_assoc]

/-- What is accepted is handed over, in order, or on its way. -/
theorem run_carried {as : List Action} (hs : system.Reachable s)
    (hc : system.Along (fun u a => ¬Clears u a ∧ a.creates) s as) (hr : system.run s as = some t) :
    s.carried ++ system.trace writtenMessages s as =
      system.trace handedMessages s as ++ t.carried :=
  Machine.run_conserves (fun _ _ _ hc hu hv =>
    ⟨hu.step hv, step_carried hu hc.1 hc.2 (step_cases hv).2⟩) hc hs hr

/-! ## The end of a session -/

/-- The host thread has left its loop, and what it left is not cleared yet. -/
def LoopLeft (s : State) : Prop :=
  s.world.worker = some .finished ∧ s.game.pc = .unbindWait ∨ s.game.pc.leavesMessages

/-- The step is the one in which the host thread leaves its loop. -/
def Leaves (s : State) : Action → Prop
  | .worker _ => s.world.worker = some .loopTest ∧ s.world.host.running = false
  | .game _ => False

theorem leaves_unwaited {pc : GamePc} (h : pc.leavesMessages) : ∃ x, pc.shape = some x ∧
    x.worker = false := by
  cases pc <;> first | exact ⟨_, rfl, rfl⟩ | exact h.elim

/-- The host thread leaves its loop in one step, and nothing moves from then on. -/
theorem step_left (hr : system.Reachable s) (hc : ¬Clears s a) (h : Step s a t) (ht : LoopLeft t) :
    t.carried = s.carried ∧ (LoopLeft s ∨ Leaves s a) := by
  have hl := life hr
  cases h with
  | @worker input pc w hpc hs =>
    rcases ht with ⟨hw, hwait⟩ | hleaves
    · change w.worker = some .finished at hw
      cases hs with
      | leave hrun =>
        refine ⟨?_, Or.inr ⟨hpc, hrun⟩⟩
        rw [State.carried, State.carried, World.held, World.held, hpc]
        rfl
      | fails hf =>
        obtain rfl := Option.some.inj (hpc.symm.trans hw)
        cases hf
      | service hh => unfold World.polled at hw; split at hw <;> cases hw
      | check hh => unfold World.polled at hw; split at hw <;> cases hw
      | _ => cases hw
    · obtain ⟨x, hx, hnone⟩ := leaves_unwaited hleaves
      rw [hl.worker_none hx hnone] at hpc
      cases hpc
  | @call c env w g hpc hp hs =>
    have hidle : ¬(s.game.pc = .unbindWait) ∧ ¬s.game.pc.leavesMessages := by
      rw [hpc]
      exact ⟨fun e => (by cases e), id⟩
    exfalso
    have hpc' : g.pc ≠ .unbindWait ∧ ¬g.pc.leavesMessages := by
      cases hs with
      | returns => exact hidle
      | setMaxPeers => exact hidle
      | setMaxChannels => exact hidle
      | getPeer hh hi => exact hidle
      | nullAddress => exact hidle
      | danglingPeer hc hl => exact hidle
      | _ => exact ⟨fun e => (by cases e), id⟩
    rcases ht with ⟨_, hw⟩ | hw
    · exact hpc'.1 hw
    · exact hpc'.2 hw
  | @go env w g hs =>
    generalize hpc : s.game.pc = pc at hs
    have hcarried : w.host.messageQueue = s.world.host.messageQueue →
        State.carried ⟨w, g⟩ = s.carried := by
      intro hq
      rw [State.carried, State.carried, go_held hl hpc hs, hq]
    have hon : s.game.pc.leavesMessages → LoopLeft s ∨ Leaves s (.game (.go env)) :=
      fun hx => Or.inl (Or.inr hx)
    cases hs with
    | unbindRunning =>
      rcases ht with ⟨hw, _⟩ | hw
      · have hrun := stopped hr hw
        unfold Life Fits at hl
        rw [hpc] at hl
        have hbound := congrArg Shape.running hl
        rw [World.shape, hrun] at hbound
        cases hbound
      · exact hw.elim
    | unbindWait hw => exact ⟨hcarried rfl, Or.inl (Or.inl ⟨hw, hpc⟩)⟩
    | unbindThread => exact ⟨hcarried rfl, hon (by rw [hpc]; trivial)⟩
    | unbindAccess => exact ⟨hcarried rfl, hon (by rw [hpc]; trivial)⟩
    | unbindHost => exact ⟨hcarried rfl, hon (by rw [hpc]; trivial)⟩
    | unbindFlush hh => exact ⟨hcarried rfl, hon (by rw [hpc]; trivial)⟩
    | unbindDestroy => exact ⟨hcarried rfl, hon (by rw [hpc]; trivial)⟩
    | unbindMessages => exact absurd (Or.inl hpc) hc
    | fails hf => exact ⟨hcarried rfl, Or.inl ht⟩
    | _ =>
      rcases ht with ⟨_, hw⟩ | hw
      · cases hw
      · exact hw.elim

/-- Before `unbind` flushes, the messages that were accepted in the session have been
handed over in order, up to those the host thread left in the queue at its last test.
None is left exactly if the queue was empty then. -/
theorem unbind_hands {as : List Action} (hs : system.Reachable s) (hb : s.game.pc = .bindRunning)
    (hc : system.Along (fun u a => ¬Clears u a ∧ a.creates) s as) (hr : system.run s as = some t)
    (ht : t.game.pc = .unbindFlush) :
    ∃ (bs : List Action) (input : WorkerInput) (cs : List Action) (u : State),
      as = bs ++ .worker input :: cs ∧ system.run s bs = some u ∧
      u.world.worker = some .loopTest ∧ u.world.host.running = false ∧
      system.trace writtenMessages s as =
        system.trace handedMessages s as ++ u.world.host.messageQueue.pending ∧
      (system.trace handedMessages s as = system.trace writtenMessages s as ↔
        u.world.host.messageQueue.isEmpty = true) := by
  have hleft : LoopLeft t := Or.inr (by rw [ht]; trivial)
  have hstep : ∀ u a v, (¬Clears u a ∧ a.creates) → system.Reachable u →
      system.step u a = some v →
      system.Reachable v ∧ (LoopLeft v → v.carried = u.carried ∧ (LoopLeft u ∨ Leaves u a)) :=
    fun u a v hc hu hv => ⟨hu.step hv, step_left hu hc.1 (step_cases hv).2⟩
  rcases Machine.run_enters hstep hc hs hr hleft with
    ⟨hstart, _⟩ | ⟨bs, a, cs, u, rfl, hu, hleaves, hcarried⟩
  · rcases hstart with ⟨_, hx⟩ | hx
    · rw [hb] at hx
      cases hx
    · rw [hb] at hx
      exact hx.elim
  · cases a with
    | game input => exact hleaves.elim
    | worker input =>
      obtain ⟨hpc, hrun⟩ := hleaves
      have hw := (life hs).worker_none (x := ⟨true, false, false, false, false, false⟩)
        (by rw [hb]; rfl) rfl
      have hnone : s.carried = [] := by
        rw [State.carried, World.held, hw]
        exact (cleared hs hw).1 (by rw [hb]; exact id)
      have hpending : u.carried = u.world.host.messageQueue.pending := by
        rw [State.carried, World.held, hpc]
        rfl
      have hall := run_carried hs hc hr
      rw [hnone, List.nil_append, hcarried, hpending] at hall
      refine ⟨bs, input, cs, u, rfl, hu, hpc, hrun, hall, ?_⟩
      rw [(queues (hs.run hu)).messages.valid.isEmpty_iff, hall]
      constructor
      · intro h
        have hlen := congrArg List.length h
        rw [List.length_append] at hlen
        exact List.length_eq_zero_iff.mp (by omega)
      · intro h
        rw [h, List.append_nil]

/-- A message is broadcast, and `unbind` is called before the host thread takes a step. -/
def unsentRun : List Action :=
  List.replicate 5 (.game (.go {})) ++
    [.game (.call (.broadcastPacket [7] 0 0) {}), .game (.go {}), .game (.go {}),
      .game (.call .unbind {}), .game (.go {}), .worker {}] ++ List.replicate 4 (.game (.go {}))

theorem unbind_hands_unsent :
    ∃ u : State, u.world.worker = some .loopTest ∧ u.world.host.running = false ∧
      system.trace writtenMessages .bound unsentRun =
        system.trace handedMessages .bound unsentRun ++ u.world.host.messageQueue.pending := by
  obtain ⟨t, ht⟩ := Option.isSome_iff_exists.mp
    (show (system.run .bound unsentRun).isSome by rfl)
  have hpc : (system.run .bound unsentRun).map (·.game.pc) = some .unbindFlush := by rfl
  rw [ht] at hpc
  obtain ⟨_, _, _, u, _, _, hw, hrun, hall, _⟩ := unbind_hands ⟨_, _, fresh_start, bound_run⟩ rfl
    (by decide) ht (Option.some.inj hpc)
  exact ⟨u, hw, hrun, hall⟩

/-- The thread of a session may not get to its first message. -/
theorem message_discarded :
    ∃ (s t : State) (as : List Action), system.Reachable s ∧ s.game.pc = .bindRunning ∧
      system.Along (fun u a => ¬Clears u a ∧ a.creates) s as ∧ system.run s as = some t ∧
      t.game.pc = .unbindFlush ∧ (system.trace writtenMessages s as).length = 1 ∧
      system.trace handedMessages s as = [] := by
  obtain ⟨t, ht⟩ := Option.isSome_iff_exists.mp
    (show (system.run .bound unsentRun).isSome by rfl)
  have hpc : (system.run .bound unsentRun).map (·.game.pc) = some .unbindFlush := by rfl
  rw [ht] at hpc
  exact ⟨.bound, t, unsentRun, ⟨_, _, fresh_start, bound_run⟩, rfl, by decide, ht,
    Option.some.inj hpc, by rfl, by rfl⟩

end GDNet
