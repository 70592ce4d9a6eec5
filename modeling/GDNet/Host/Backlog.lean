import GDNet.Host.Replies

/-!
# A backlog of events

How the event queue fills and empties, in runs without `unbind`: packets that wait
in ENet are pushed one after the other, a push finds room or not, and the game
takes what is in the queue.  Between two of these the host thread can make a turn
in which nothing happens.
-/

namespace GDNet

open Transition

variable {s t : State} {a : Action} {h : ENet.Host}

/-! ## Runs without `unbind` -/

def Action.unbinds : Action → Bool
  | .game (.call .unbind _) => true
  | _ => false

def GamePc.unbinding : GamePc → Prop
  | .unbindRunning => True
  | .unbindWait => True
  | .unbindThread => True
  | .unbindAccess => True
  | .unbindHost => True
  | .unbindFlush => True
  | .unbindDestroy => True
  | .unbindMessages => True
  | .unbindEvents => True
  | _ => False

theorem step_unbinding (h : Step s a t) (ha : a.unbinds = false) (hn : ¬s.game.pc.unbinding) :
    ¬t.game.pc.unbinding := by
  cases h with
  | worker hpc hs => exact hn
  | call hpc hp hs =>
    cases hs with
    | unbind hb => cases ha
    | _ => first | exact id | exact hn
  | go hs =>
    generalize hpc : s.game.pc = pc at hs hn
    cases hs with
    | fails hf =>
      rw [show State.game _ = _ from rfl, hpc]
      exact hn
    | _ => first | exact id | exact absurd trivial hn

theorem not_clears (hn : ¬s.game.pc.unbinding) (a : Action) : ¬Clears s a := by
  intro hc
  cases a with
  | worker input => exact hc
  | game input =>
    cases input with
    | call c env => exact hc
    | go env => rcases hc with e | e <;> exact hn (by rw [e]; trivial)

/-- The queues are cleared in an `unbind` only. -/
theorem along_unbinds {as : List Action} (ha : as.all (!·.unbinds) = true)
    (hn : ¬s.game.pc.unbinding) : system.Along (fun u a => ¬Clears u a) s as := by
  induction as generalizing s with
  | nil => trivial
  | cons a as ih =>
    rw [List.all_cons, Bool.and_eq_true, Bool.not_eq_true'] at ha
    exact ⟨not_clears hn a, fun t ht => ih ha.2 (step_unbinding (step_cases ht).2 ha.1 hn)⟩

/-- A run without `unbind`, and what `get_event` returns in it. -/
structure Returns (s : State) (as : List Action) (t : State) (events : List (Option Event)) :
    Prop where
  steps : system.run s as = some t
  returned : system.trace returnedEvents s as = events
  keeps : as.all (!·.unbinds) = true

theorem Returns.trans {u : State} {as bs : List Action} {xs ys : List (Option Event)}
    (h : Returns s as t xs) (h' : Returns t bs u ys) : Returns s (as ++ bs) u (xs ++ ys) where
  steps := Machine.run_append.mpr ⟨t, h.steps, h'.steps⟩
  returned := by rw [Machine.trace_append bs h.steps, h.returned, h'.returned]
  keeps := by rw [List.all_append, h.keeps, h'.keeps]; rfl

theorem Returns.worker {w : World} {pc : WorkerPc} {input : WorkerInput}
    (hf : s.world.fault = none) (hpc : s.world.worker = some pc)
    (hr : workerRun s.world input pc = some w) :
    Returns s [.worker input] { s with world := w } [] := by
  have hst := worker_step hf hpc hr
  exact ⟨Machine.run_single.mpr hst, Machine.trace_single hst, rfl⟩

theorem Returns.workers {inputs : List WorkerInput}
    (hr : system.run s (inputs.map .worker) = some t) : Returns s (inputs.map .worker) t [] := by
  refine ⟨hr, ?_, ?_⟩
  · clear hr
    induction inputs generalizing s with
    | nil => rfl
    | cons input inputs ih =>
      rw [List.map_cons, Machine.trace]
      cases system.step s (.worker input) with
      | none => rfl
      | some u => exact ih
  · rw [List.all_map]
    exact List.all_eq_true.mpr fun _ _ => rfl

/-! ## A full queue -/

/-- The host thread is about to look for another event, with these events in the queue. -/
def State.checking (s : State) (q : Queue QueuedEvent queueSize) (h : ENet.Host) : State :=
  { s with world := { s.world with
      host := { s.world.host with eventQueue := q, enetHost := some h }
      worker := some .check } }

/-- The first peer has these packets for the game. -/
def withPackets (h : ENet.Host) (commands : List ENet.IncomingCommand) : ENet.Host :=
  { h with
    dispatchQueue := [0]
    peers := Function.update h.peers 0
      { h.peers 0 with dispatchedCommands := commands, needsDispatch := true } }

theorem dispatch_packets {h : ENet.Host} (hs : (h.peers 0).state = .connected)
    (c c' : ENet.IncomingCommand) (cs : List ENet.IncomingCommand) :
    ∃ e, ENet.protocolDispatchIncomingCommands (withPackets h (c :: c' :: cs)) =
      (withPackets h (c' :: cs), some e) ∧ e.type = .receive ∧ e.peer = 0 := by
  refine ⟨{ h.event .receive 0 0 with channelID := c.channelID, packet := some c.packet }, ?_, rfl,
    rfl⟩
  simp [withPackets, ENet.protocolDispatchIncomingCommands, ENet.protocolDispatchLoop,
    ENet.setDispatch, ENet.Host.update, ENet.queueDispatch, ENet.Host.event, hs]

theorem checking_self {h : ENet.Host} (hpc : s.world.worker = some .check)
    (hh : s.enet = some h) : s.checking s.world.host.eventQueue h = s := by
  unfold State.checking
  rw [← hpc, ← hh]

theorem withPackets_self {h : ENet.Host} {cs : List ENet.IncomingCommand}
    (hq : h.dispatchQueue = [0]) (hc : (h.peers 0).dispatchedCommands = cs)
    (hn : (h.peers 0).needsDispatch = true) : withPackets h cs = h := by
  have hp : { h.peers 0 with dispatchedCommands := cs, needsDispatch := true } = h.peers 0 := by
    rw [← hc, ← hn]
  unfold withPackets
  rw [hp, ← hq, Function.update_eq_self]

/-- An event finds no room in the queue. -/
theorem push_refused {q : QueuedEvent} (hf : s.world.fault = none)
    (hpc : s.world.worker = some (.pushTest q)) (hq : s.world.host.eventQueue.isFull = true) :
    Returns s [.worker {}] ⟨s.world.goto .check, s.game⟩ [] := by
  refine .worker hf hpc ?_
  rw [workerRun, hq]
  rfl

/-- An event finds room in the queue. -/
theorem push_accepted {q : QueuedEvent} (hf : s.world.fault = none)
    (hpc : s.world.worker = some (.pushTest q)) (hq : s.world.host.eventQueue.isFull = false) :
    ∃ as, Returns s as
      ⟨(s.world.setEvents (s.world.host.eventQueue.write q)).goto .check, s.game⟩ [] := by
  have h₁ : Returns s [.worker {}] ⟨s.world.goto (.pushWrite q), s.game⟩ [] := by
    refine .worker hf hpc ?_
    rw [workerRun, hq]
    rfl
  have h₂ : Returns ⟨s.world.goto (.pushWrite q), s.game⟩ [.worker {}]
      ⟨(s.world.setEvents (s.world.host.eventQueue.write q)).goto .check, s.game⟩ [] :=
    .worker (s := ⟨s.world.goto (.pushWrite q), s.game⟩) hf rfl rfl
  exact ⟨_, h₁.trans h₂⟩

/-- The host thread gets an event from ENet. -/
theorem check_finds {q : Queue QueuedEvent queueSize} {h h' : ENet.Host} {e : ENet.Event}
    (hf : s.world.fault = none)
    (he : ENet.protocolDispatchIncomingCommands h = (h', some e)) :
    Returns (s.checking q h) [.worker {}]
      ⟨(s.checking q h').world.goto (.pushTest (s.world.queuedEvent 0 e)), s.game⟩ [] := by
  refine .worker hf rfl ?_
  show some ((s.checking q h).world.polled 0 (ENet.protocolDispatchIncomingCommands h).1
    (.done (ENet.protocolDispatchIncomingCommands h).2)) = _
  rw [he]
  rfl

/-- An event goes from ENet into the queue. -/
theorem check_pushes {q : Queue QueuedEvent queueSize} {h h' : ENet.Host} {e : ENet.Event}
    (hf : s.world.fault = none) (hq : q.isFull = false)
    (he : ENet.protocolDispatchIncomingCommands h = (h', some e)) :
    ∃ as, Returns (s.checking q h) as
      (s.checking (q.write (s.world.queuedEvent 0 e)) h') [] := by
  obtain ⟨as, h₂⟩ := push_accepted
    (s := ⟨(s.checking q h').world.goto (.pushTest (s.world.queuedEvent 0 e)), s.game⟩) hf rfl hq
  exact ⟨_, (check_finds hf he).trans h₂⟩

/-- An event of ENet is lost to a full queue. -/
theorem check_refuses {q : Queue QueuedEvent queueSize} {h h' : ENet.Host} {e : ENet.Event}
    (hf : s.world.fault = none) (hq : q.isFull = true)
    (he : ENet.protocolDispatchIncomingCommands h = (h', some e)) :
    ∃ as, Returns (s.checking q h) as (s.checking q h') [] :=
  ⟨_, (check_finds hf he).trans (push_refused
    (s := ⟨(s.checking q h').world.goto (.pushTest (s.world.queuedEvent 0 e)), s.game⟩) hf rfl hq)⟩

/-- The last packet of the first peer. -/
theorem dispatch_last {h : ENet.Host} (hs : (h.peers 0).state = .connected)
    (c : ENet.IncomingCommand) :
    ∃ h' e, ENet.protocolDispatchIncomingCommands (withPackets h [c]) = (h', some e) ∧
      h'.dispatchQueue = [] ∧ h'.peerCount = h.peerCount ∧ (h'.peers 0).state = .connected ∧
      ∀ i, i ≠ 0 → h'.peers i = h.peers i := by
  refine ⟨{ h with
      dispatchQueue := []
      peers := Function.update h.peers 0
        { h.peers 0 with dispatchedCommands := [], needsDispatch := false } },
    { h.event .receive 0 0 with channelID := c.channelID, packet := some c.packet }, ?_, rfl, rfl,
    ?_, fun i hi => ?_⟩
  · simp [withPackets, ENet.protocolDispatchIncomingCommands, ENet.protocolDispatchLoop,
      ENet.setDispatch, ENet.Host.update, ENet.Host.event, hs]
  · simp [hs]
  · simp [hi]

/-- One push after the other until a single packet is left. -/
theorem packets_pushed {h : ENet.Host} (hs : (h.peers 0).state = .connected)
    (hf : s.world.fault = none) : ∀ (cs : List ENet.IncomingCommand) (c : ENet.IncomingCommand)
    {q : Queue QueuedEvent queueSize}, q.Valid → q.pending.length + cs.length < queueSize →
    (∀ x ∈ q.pending, x.item.peerId = 0) →
    ∃ as q' c', Returns (s.checking q (withPackets h (c :: cs))) as
        (s.checking q' (withPackets h [c'])) [] ∧ q'.Valid ∧
      q'.pending.length = q.pending.length + cs.length ∧
      ∀ x ∈ q'.pending, x.item.peerId = 0 := by
  intro cs
  induction cs with
  | nil =>
    intro c q hv _ hx
    exact ⟨[], q, c, ⟨rfl, rfl, rfl⟩, hv, rfl, hx⟩
  | cons c' cs ih =>
    intro c q hv hlen hx
    rw [List.length_cons] at hlen
    have hroom : q.isFull = false := by
      rw [Bool.eq_false_iff, Ne, hv.isFull_iff]
      omega
    obtain ⟨e, he, ht, hp⟩ := dispatch_packets hs c c' cs
    obtain ⟨as, has⟩ := check_pushes hf hroom he
    have hpending := hv.pending_write (s.world.queuedEvent 0 e) hroom
    have hpeer : (s.world.queuedEvent 0 e).item.peerId = 0 :=
      (newEvent_peerId 0 e).trans (by rw [hp]; rfl)
    obtain ⟨bs, q', c'', hbs, hv', hlen', hx'⟩ := ih c'
      (hv.write_valid (s.world.queuedEvent 0 e))
      (by rw [hpending, List.length_append, List.length_singleton]; omega) (fun x hm => by
        rw [hpending] at hm
        rcases List.mem_append.mp hm with hm | hm
        · exact hx x hm
        · rw [List.mem_singleton.mp hm]
          exact hpeer)
    refine ⟨as ++ bs, q', c'', has.trans hbs, hv', ?_, hx'⟩
    rw [hlen', hpending, List.length_append, List.length_singleton, List.length_cons]
    omega

/-- `get_event` takes the oldest event. -/
theorem getEvent_returns (hf : s.world.fault = none) (hpc : s.game.pc = .idle)
    (he : s.world.host.eventQueue.isEmpty = false) :
    ∃ as g, g.pc = .idle ∧
      Returns s as ⟨s.world.setEvents s.world.host.eventQueue.read, g⟩
        [some s.world.host.eventQueue.front.item] := by
  let g : Game := { s.game with since := s.world.session }
  let s₁ : State := ⟨s.world, g.goto .popTest⟩
  let s₂ : State := ⟨s.world, g.goto .popRead⟩
  have h₁ : system.step s (.game (.call .getEvent {})) = some s₁ := call_step hf hpc rfl
  have h₂ : system.step s₁ (.game (.go {})) = some s₂ := by
    refine go_step hf (show s₁.game.pc = .popTest from rfl) ?_
    rw [goOn, show s₁.world.host.eventQueue.isEmpty = false from he]
    rfl
  have h₃ : system.step s₂ (.game (.go {})) =
      some ⟨s.world.setEvents s.world.host.eventQueue.read, g.goto .idle⟩ :=
    go_step hf (show s₂.game.pc = .popRead from rfl) rfl
  refine ⟨[.game (.call .getEvent {}), .game (.go {}), .game (.go {})], g.goto .idle, rfl, ?_, ?_,
    rfl⟩
  · exact Machine.run_cons.mpr ⟨_, h₁, Machine.run_cons.mpr ⟨_, h₂, Machine.run_single.mpr h₃⟩⟩
  · rw [Machine.trace_cons _ h₁, Machine.trace_cons _ h₂, Machine.trace_single h₃]
    show [] ++ ((if s.world.host.eventQueue.isEmpty then [none] else []) ++ _) = _
    rw [he]
    rfl

/-- As often as there are events, `get_event` takes them all. -/
theorem events_drained : ∀ (n : Nat) {s : State}, s.world.fault = none → s.game.pc = .idle →
    s.world.host.eventQueue.Valid → s.world.host.eventQueue.pending.length = n →
    ∃ as t, Returns s as t (s.world.host.eventQueue.pending.map fun q => some q.item) := by
  intro n
  induction n with
  | zero =>
    intro s _ _ _ hlen
    rw [List.length_eq_zero_iff.mp hlen]
    exact ⟨[], s, rfl, rfl, rfl⟩
  | succ n ih =>
    intro s hf hpc hv hlen
    have he : s.world.host.eventQueue.isEmpty = false := by
      rw [Bool.eq_false_iff, Ne, hv.isEmpty_iff]
      intro hp
      rw [hp] at hlen
      cases hlen
    have hread := hv.pending_read he
    rw [hread, List.length_cons] at hlen
    obtain ⟨as, g, hg, has⟩ := getEvent_returns hf hpc he
    obtain ⟨bs, t, hbs⟩ := ih (s := ⟨s.world.setEvents s.world.host.eventQueue.read, g⟩) hf hg
      hv.read_valid (Nat.succ.inj hlen)
    refine ⟨as ++ bs, t, ?_⟩
    rw [hread]
    exact has.trans hbs

/-! ## A turn in which nothing happens -/

theorem split_nothing (cs : List ENet.OutgoingCommand) : ENet.splitCommands cs [] = ([], cs) := by
  cases cs <;> rfl

theorem update_same {h : ENet.Host} {i : Nat} {f : ENet.Peer → ENet.Peer}
    (hf : f (h.peers i) = h.peers i) : h.update i f = h := by
  unfold ENet.Host.update
  rw [hf, Function.update_eq_self]

theorem sends_nothing {h : ENet.Host} {i : Nat} (hs : (h.peers i).state ≠ .disconnectLater) :
    ENet.protocolSendOutgoingCommands h i true true {} = ⟨h, none, false⟩ := by
  have hack : ENet.protocolSendAcknowledgements h i 0 = h := by
    show h.update i (fun p => { p with acknowledgements := p.acknowledgements.drop 0 }) = h
    exact update_same (f := fun p => { p with acknowledgements := p.acknowledgements.drop 0 }) rfl
  have hsend : h.update i (fun p => ENet.sendReliable p {}) = h := by
    refine update_same ?_
    simp [ENet.sendReliable, ENet.protocolSendReliableOutgoingCommands, split_nothing]
  unfold ENet.protocolSendOutgoingCommands
  split
  · rfl
  · simp only [hack, Bool.and_false, Bool.false_and, Bool.false_eq_true, if_false, hsend]
    split
    · rfl
    · have hun : h.update i (fun p =>
          { p with outgoingUnreliableCommands := p.outgoingUnreliableCommands.drop 0 }) = h :=
        update_same (f := fun p =>
          { p with outgoingUnreliableCommands := p.outgoingUnreliableCommands.drop 0 }) rfl
      simp only [ENet.protocolSendUnreliableOutgoingCommands, hun, hs, false_and, if_false]

/-- The host thread holds the host, and there is nothing to hand over or to deliver. -/
structure Idling (s : State) (h : ENet.Host) : Prop where
  fault : s.world.fault = none
  running : s.world.host.running = true
  access : s.world.host.accessMutex = some ⟨none⟩
  host : s.world.host.hostMutex = some ⟨some .host⟩
  messages : s.world.host.messageQueue.isEmpty = true
  enet : s.enet = some h
  queue : h.dispatchQueue = []
  sends : ∀ i < h.peerCount, (h.peers i).state ≠ .disconnectLater

/-- The state with the host thread elsewhere. -/
def State.moved (s : State) (pc : WorkerPc) : State := ⟨s.world.goto pc, s.game⟩

theorem Idling.move (hi : Idling s h) (pc : WorkerPc) : Idling (s.moved pc) h :=
  ⟨hi.fault, hi.running, hi.access, hi.host, hi.messages, hi.enet, hi.queue, hi.sends⟩

theorem Idling.setENet (hi : Idling s h) : s.world.setENet h = s.world := by
  unfold World.setENet
  rw [← show s.world.host.enetHost = some h from hi.enet]

theorem Idling.dispatch (hi : Idling s h) :
    ENet.protocolDispatchIncomingCommands h = (h, none) := by
  have hq := hi.queue
  obtain ⟨peers, peerCount, channelLimit, mtu, randomSeed, checksum, duplicatePeers,
    maximumPacketSize, dispatchQueue, connections⟩ := h
  obtain rfl : dispatchQueue = [] := hq
  rfl

/-- One step of the host thread that leaves everything but its place. -/
theorem Idling.step (hi : Idling s h) {pc pc' : WorkerPc} 
    (hr : workerRun (s.world.goto pc) {} pc = some (s.world.goto pc')) :
    Returns (s.moved pc) [.worker {}] (s.moved pc') [] :=
  .worker (s := s.moved pc) hi.fault rfl hr

theorem Idling.service (hi : Idling s h) {pc pc' : ENet.ServicePc}
    (hr : ENet.serviceStep h pc {} = (h, .next pc')) :
    Returns (s.moved (.service pc)) [.worker {}] (s.moved (.service pc')) [] := by
  refine hi.step ?_
  have henet : (s.world.goto (.service pc)).host.enetHost = some h := hi.enet
  rw [workerRun, henet]
  show some (World.polled _ _ (ENet.serviceStep h pc {}).1 (ENet.serviceStep h pc {}).2) = _
  rw [hr]
  show some (((s.world.goto (.service pc)).setENet h).goto (.service pc')) = _
  have := (hi.move (.service pc)).setENet
  rw [show (s.world.goto (.service pc)).setENet h = s.world.goto (.service pc) from this]
  rfl

theorem Idling.sending (hi : Idling s h) : ∀ (n i : Nat), i + n = h.peerCount →
    ∃ as, Returns (s.moved (.service (.send false i))) as (s.moved (.service (.receive 0))) [] := by
  intro n
  induction n with
  | zero =>
    intro i hin
    refine ⟨_, hi.service ?_⟩
    have hlt : ¬i < h.peerCount := by omega
    simp [ENet.serviceStep, hlt]
  | succ n ih =>
    intro i hin
    have hlt : i < h.peerCount := by omega
    have hstep : Returns (s.moved (.service (.send false i))) [.worker {}]
        (s.moved (.service (.send false (i + 1)))) [] := by
      refine hi.service ?_
      simp [ENet.serviceStep, hlt, sends_nothing (hi.sends i hlt), ENet.deliverOr]
    obtain ⟨as, hrest⟩ := ih (i + 1) (by omega)
    exact ⟨_, hstep.trans hrest⟩

theorem Idling.turn (hi : Idling s h) :
    ∃ as, Returns (s.moved .check) as (s.moved (.service (.receive 0))) [] := by
  have hcheck : Returns (s.moved .check) [.worker {}] (s.moved .unlockHost) [] := by
    refine hi.step ?_
    have henet : (s.world.goto .check).host.enetHost = some h := hi.enet
    rw [workerRun, henet]
    show some (World.polled _ _ (ENet.protocolDispatchIncomingCommands h).1
      (.done (ENet.protocolDispatchIncomingCommands h).2)) = _
    rw [hi.dispatch]
    show some (((s.world.goto .check).setENet h).goto .unlockHost) = _
    rw [show (s.world.goto .check).setENet h = s.world.goto .check from (hi.move .check).setENet]
    rfl
  have hmutex : ∃ as, Returns (s.moved .unlockHost) as (s.moved .isEmpty) [] := by
    let w₁ := ((s.world.goto .unlockHost).release .host).goto .loopTest
    let w₂ := w₁.goto .lockAccess
    let w₃ := (w₂.grant .host .access).goto .lockHost
    let w₄ := (w₃.grant .host .host).goto .unlockAccess
    have h₁ : Returns (s.moved .unlockHost) [.worker {}] ⟨w₁, s.game⟩ [] := by
      refine .worker (s := s.moved .unlockHost) hi.fault rfl ?_
      have hm : (s.world.goto .unlockHost).host.mutex .host = some ⟨some .host⟩ := hi.host
      rw [workerRun, State.moved, World.unlock, hm]
    have h₂ : Returns ⟨w₁, s.game⟩ [.worker {}] ⟨w₂, s.game⟩ [] := by
      refine .worker (s := ⟨w₁, s.game⟩) hi.fault rfl ?_
      rw [workerRun, show w₁.host.running = true from hi.running]
      rfl
    have h₃ : Returns ⟨w₂, s.game⟩ [.worker {}] ⟨w₃, s.game⟩ [] := by
      refine .worker (s := ⟨w₂, s.game⟩) hi.fault rfl ?_
      have hm : w₂.host.mutex .access = some ⟨none⟩ := hi.access
      rw [workerRun, World.lock, hm]
      rfl
    have h₄ : Returns ⟨w₃, s.game⟩ [.worker {}] ⟨w₄, s.game⟩ [] :=
      .worker (s := ⟨w₃, s.game⟩) hi.fault rfl rfl
    have h₅ : Returns ⟨w₄, s.game⟩ [.worker {}] (s.moved .isEmpty) [] := by
      refine .worker (s := ⟨w₄, s.game⟩) hi.fault rfl ?_
      have hback : (w₄.release .access).goto .isEmpty = s.world.goto .isEmpty := by
        show World.mk { s.world.host with
          hostMutex := some ⟨some .host⟩, accessMutex := some ⟨none⟩ } _ _ _ = _
        rw [← hi.access, ← hi.host]
        rfl
      rw [← hback]
      rfl
    exact ⟨_, h₁.trans (h₂.trans (h₃.trans (h₄.trans h₅)))⟩
  have hempty : Returns (s.moved .isEmpty) [.worker {}] (s.moved .poll) [] := by
    refine hi.step ?_
    show some ((s.world.goto .isEmpty).goto
      (if s.world.host.messageQueue.isEmpty then .poll else .popTest)) = _
    rw [hi.messages]
    rfl
  have hpoll : Returns (s.moved .poll) [.worker {}] (s.moved (.service .dispatch)) [] := hi.step rfl
  have hdispatch : Returns (s.moved (.service .dispatch)) [.worker {}]
      (s.moved (.service .throttle)) [] := by
    refine hi.service ?_
    rw [ENet.serviceStep, hi.dispatch]
    rfl
  have hthrottle : Returns (s.moved (.service .throttle)) [.worker {}]
      (s.moved (.service (.send false 0))) [] :=
    hi.service rfl
  obtain ⟨as, hsend⟩ := hi.sending h.peerCount 0 (by omega)
  obtain ⟨bs, hmutex⟩ := hmutex
  exact ⟨_, hcheck.trans (hmutex.trans (hempty.trans (hpoll.trans
    (hdispatch.trans (hthrottle.trans hsend)))))⟩

/-! ## A connection that comes up with a packet -/

/-- A connection comes up, and its packets come in with the datagram that says so. -/
def upDatagram (i : Nat) (address : ENet.Address)
    (source : address.host ≠ ENet.enetHostBroadcast) (packets : List ENet.Packet) :
    ENet.Datagram where
  address := address
  peerID := some i
  commands := [{ body := .acknowledge 1 true },
    { channelID := 0, body := .send .reliable (some packets) }]
  source := source

/-- The slot waits for the acknowledgement of its VERIFY_CONNECT. -/
structure Awaits (p : ENet.Peer) (address : ENet.Address) : Prop where
  state : p.state = .acknowledgingConnect
  address : p.address = address
  channels : 0 < p.channelCount
  dispatch : p.needsDispatch = false ∧ p.dispatchedCommands = []
  sent : ∃ c, p.sentReliableCommands = [c] ∧ c.command = .verifyConnect ∧
    c.reliableSequenceNumber = 1 ∧ c.channelID = 0xFF

theorem up_events {i : Nat} {address : ENet.Address}
    (source : address.host ≠ ENet.enetHostBroadcast) (ha : Awaits (h.peers i) address)
    (hi : i < h.peerCount) (hq : h.dispatchQueue = []) (packet : ENet.Packet) :
    ∃ e e', (ENet.protocolHandleIncomingCommands h (upDatagram i address source [packet])
        true).2 = some e ∧ e.type = .connect ∧ e.peer = i ∧
      (ENet.protocolDispatchIncomingCommands (ENet.protocolHandleIncomingCommands h
        (upDatagram i address source [packet]) true).1).2 = some e' ∧ e'.type = .receive ∧
      e'.peer = i := by
  obtain ⟨hs, haddr, hch, ⟨hn, hd⟩, c, hc, hcmd, hnum, hchan⟩ := ha
  have hr : ENet.protocolHandleIncomingCommands h (upDatagram i address source [packet]) true =
      ({ h with
        dispatchQueue := [i]
        peers := Function.update h.peers i { h.peers i with
          address := address
          sentReliableCommands := []
          state := .connected
          dispatchedCommands := [⟨0, packet⟩]
          needsDispatch := true } },
        some { h.event .connect i (h.peers i).eventData with address := address }) := by
    simp [ENet.protocolHandleIncomingCommands, upDatagram, hs, haddr, Nat.not_le.mpr hi,
      ENet.protocolHandleCommands, ENet.protocolHandleCommand, ENet.protocolHandleAcknowledge,
      ENet.protocolRemoveSentReliableCommand, hc, hcmd, hnum, hchan, ENet.protocolNotifyConnect,
      ENet.protocolChangeState, ENet.protocolHandleSend, Nat.ne_of_gt hch, ENet.queueDispatch, hn,
      hd, hq,
      ENet.Host.update, ENet.Host.event, ENet.setDispatch]
  rw [hr]
  refine ⟨_, { h.event .receive i 0 with address := address, packet := some packet },
    rfl, rfl, rfl, ?_, rfl, rfl⟩
  simp [ENet.protocolDispatchIncomingCommands, ENet.protocolDispatchLoop,
    ENet.setDispatch, ENet.Host.update, ENet.Host.event]
end GDNet
