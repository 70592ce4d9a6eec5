import GDNet.Host.Delivery

/-!
# Replies to events

`get_event` gives the game thread the index of a slot, and `get_peer` makes a
pointer to whoever holds the slot by then.  While that is still the connection
the event is from, `get_address` returns its address and what is sent to it goes
to it or to nobody.  Nothing in the code keeps the slot for it, and an event can
wait for so long that another connection answers.
-/

namespace GDNet

open Transition

variable {s t : State} {a : Action} {pc pc' : WorkerPc} {q : QueuedEvent}

/-! ## The host at any time -/

theorem step_ok (hi : ∀ h, s.enet = some h → h.Ok) (h : Step s a t) {h' : ENet.Host}
    (hh' : t.enet = some h') : h'.Ok := by
  cases step_host h with
  | keep he _ => exact hi h' (he.symm.trans hh')
  | receives hg hg' hr _ =>
    obtain rfl := Option.some.inj (hh'.symm.trans hg')
    exact hr.ok (hi _ hg)
  | claim _ hg hg' hc _ =>
    obtain rfl := Option.some.inj (hh'.symm.trans hg')
    exact ENet.connectClaim_ok (hi _ hg) hc
  | create _ _ hg' hok _ =>
    obtain rfl := Option.some.inj (hh'.symm.trans hg')
    exact hok
  | destroy _ hg' _ => rw [hh'] at hg'; cases hg'

theorem host_ok (hr : system.Reachable s) {h : ENet.Host} (hh : s.enet = some h) : h.Ok := by
  have h₀ : ∀ s, system.start s → ∀ h, s.enet = some h → h.Ok := by
    rintro s ⟨events, messages, rfl⟩ h hh
    cases hh
  exact hr.invariant h₀ (fun _ _ _ hi hs _ => step_ok hi (step_cases hs).2) h hh

/-! ## Events on their way -/

/-- The event waits in the queue or is about to be pushed. -/
def State.Reports (s : State) (q : QueuedEvent) : Prop :=
  q ∈ s.world.host.eventQueue.pending ∨ s.world.worker = some (.pushTest q) ∨
    s.world.worker = some (.pushWrite q)

/-- What stays true of an event, wherever it is. -/
structure Raised (s : State) (q : QueuedEvent) : Prop where
  session : q.stamp.session ≤ s.world.session
  item : ∃ time, q.item = newEvent time q.stamp.origin
  origin : ∀ h, s.enet = some h → q.stamp.session = s.world.session →
    q.stamp.origin.type ≠ .disconnect → ENet.Origin h q.stamp.origin

theorem Raised.step (hi : Raised s q) (h : Step s a t) : Raised t q := by
  have hst := step_host h
  refine ⟨Nat.le_trans hi.session hst.session_le, hi.item, fun h' hh' hs ht => ?_⟩
  cases hst with
  | keep he hn => exact hi.origin h' (he.symm.trans hh') (hs.trans hn) ht
  | receives hg hg' hr hn =>
    obtain rfl := Option.some.inj (hh'.symm.trans hg')
    exact (hi.origin _ hg (hs.trans hn) ht).receives hr
  | claim _ hg hg' hc hn =>
    obtain rfl := Option.some.inj (hh'.symm.trans hg')
    exact (hi.origin _ hg (hs.trans hn) ht).claim hc
  | create _ _ _ _ hn =>
    have := hi.session
    omega
  | destroy _ hg' _ => rw [hh'] at hg'; cases hg'

/-- The outcome of a part of an ENet call, with what is known of its event. -/
theorem polled_raised {w : World} {g : Game} {time : Int} {h : ENet.Host}
    {outcome : ENet.ServiceOutcome}
    (ho : ∀ e, outcome.event = some e → e.type ≠ .disconnect → ENet.Origin h e)
    (hw : (w.polled time h outcome).worker = some (.pushTest q)) :
    Raised ⟨w.polled time h outcome, g⟩ q := by
  obtain ⟨henet, hsession⟩ := polled_enet w time h outcome
  have hq : ∃ e, outcome.event = some e ∧ q = w.queuedEvent time e := by
    unfold World.polled at hw
    split at hw
    · cases hw
    · cases hw
    · cases hw
      exact ⟨_, rfl, rfl⟩
  obtain ⟨e, he, rfl⟩ := hq
  refine ⟨Nat.le_of_eq hsession.symm, ⟨time, rfl⟩, fun h' hh' _ ht => ?_⟩
  obtain rfl := Option.some.inj (hh'.symm.trans henet)
  exact ho e he ht

/-- An event in the hands of the host thread was there before, or is new. -/
theorem worker_pushing {w' : World} {input : WorkerInput} {pc : WorkerPc}
    (hr : system.Reachable s) (hpc : s.world.worker = some pc)
    (hs : WorkerStep s.world input pc w')
    (hw : w'.worker = some (.pushTest q) ∨ w'.worker = some (.pushWrite q)) :
    s.Reports q ∨ Raised { s with world := w' } q := by
  cases hs with
  | @service spc h hh =>
    have hpolled : (s.world.polled input.time (ENet.serviceStep h spc input.service).1
        (ENet.serviceStep h spc input.service).2).worker = some (.pushTest q) := by
      rcases hw with hw | hw
      · exact hw
      · unfold World.polled at hw
        split at hw <;> cases hw
    exact Or.inr (polled_raised (fun e he ht => ENet.serviceStep_origin (host_ok hr hh) he ht)
      hpolled)
  | @check h hh =>
    have hpolled : (s.world.polled input.time (ENet.protocolDispatchIncomingCommands h).1
        (.done (ENet.protocolDispatchIncomingCommands h).2)).worker = some (.pushTest q) := by
      rcases hw with hw | hw
      · exact hw
      · unfold World.polled at hw
        split at hw <;> cases hw
    exact Or.inr (polled_raised
      (fun e he ht => ENet.dispatchLoop_origin _ h (host_ok hr hh) he ht) hpolled)
  | pushTest hf =>
    left
    rcases hw with hw | hw
    · cases hw
    · cases hw
      exact Or.inr (Or.inl hpc)
  | fails hf => exact Or.inl (Or.inr hw)
  | _ => rcases hw with hw | hw <;> cases hw

theorem go_clears_events {w' : World} {g' : Game} {env : Env} {pc : GamePc} (hq : Queues s)
    (hpc : s.game.pc = pc) (hc : Clears s (.game (.go env)))
    (hs : GoStep gameThread s.world s.game env pc w' g') :
    ∀ q ∈ w'.host.eventQueue.pending, q ∈ s.world.host.eventQueue.pending := by
  rcases hc with e | e
  · obtain rfl := hpc.symm.trans e
    cases hs with
    | unbindMessages => exact fun q hmem => hmem
    | fails hf => cases hf
  · obtain rfl := hpc.symm.trans e
    cases hs with
    | unbindEvents =>
      intro q hmem
      change q ∈ s.world.host.eventQueue.clear.pending at hmem
      rw [hq.events.valid.clear_spec.1] at hmem
      cases hmem
    | fails hf => cases hf

theorem written_event (h : q ∈ writtenEvents s a) : s.world.worker = some (.pushWrite q) := by
  unfold writtenEvents at h
  split at h
  · split at h
    · next e hpc =>
      obtain rfl := List.mem_singleton.mp h
      exact hpc
    · cases h
  · cases h

theorem pending_event (hq : Queues s) (h : Step s a t)
    (hc : q ∈ t.world.host.eventQueue.pending) : s.Reports q := by
  by_cases hcl : Clears s a
  · left
    cases h with
    | worker hpc hs => exact hcl.elim
    | call hpc hp hs => exact hcl.elim
    | go hs => exact go_clears_events hq rfl hcl hs q hc
  · have hcons := (events_turn hcl h).conserves hq.events
    have hmem : q ∈ s.world.host.eventQueue.pending ++ writtenEvents s a := by
      rw [hcons]
      exact List.mem_append_right _ hc
    exact (List.mem_append.mp hmem).imp_right fun hw => Or.inr (written_event hw)

theorem step_reports (hr : system.Reachable s) (h : Step s a t) (hc : t.Reports q) :
    s.Reports q ∨ Raised t q := by
  rcases hc with hc | hc
  · exact Or.inl (pending_event (queues hr) h hc)
  · cases h with
    | worker hpc hs => exact worker_pushing hr hpc hs hc
    | call hpc hp hs =>
      rw [(call_queues hs hpc).2.2.1] at hc
      exact Or.inl (Or.inr hc)
    | go hs =>
      rcases go_worker hs with e | ⟨_, e⟩ | e
      · rw [show _ = s.world.worker from e] at hc
        exact Or.inl (Or.inr hc)
      · rw [show _ = some WorkerPc.loopTest from e] at hc
        rcases hc with hc | hc <;> cases hc
      · rw [show _ = none from e] at hc
        rcases hc with hc | hc <;> cases hc

theorem raised (hr : system.Reachable s) (hc : s.Reports q) : Raised s q := by
  have h₀ : ∀ s, system.start s → system.Reachable s ∧ ∀ q, s.Reports q → Raised s q := by
    rintro s ⟨events, messages, rfl⟩
    refine ⟨.start ⟨_, _, rfl⟩, fun q hc => ?_⟩
    rcases hc with hc | hc | hc
    · change q ∈ (Queue.create events).pending at hc
      rw [Queue.pending_create] at hc
      cases hc
    · cases hc
    · cases hc
  refine (hr.invariant h₀ fun s a t hi hst => ⟨hi.1.step hst, fun q hc => ?_⟩).2 q hc
  have h := (step_cases hst).2
  rcases step_reports hi.1 h hc with hc | hq
  · exact (hi.2 q hc).step h
  · exact hq

/-! ## Events the game thread has taken -/

/-- What `get_address` returns at the step. -/
def returnedAddress (s : State) : Action → Option ENet.Address
  | .game (.go _) =>
    match s.game.pc with
    | .addressHost p port =>
      (s.world.live p).map fun h => ⟨(h.peers p.slot).address.host, port⟩
    | _ => none
  | _ => none

theorem go_address {w w' : World} {g g' : Game} {env : Env} {pc : GamePc} (hg : g.pc = pc)
    (hs : GoStep gameThread w g env pc w' g') {p : PeerPtr} {port : UInt16}
    (hf : g'.pc = .addressHost p port) : pc = .addressHost p port := by
  cases hs with
  | fails hx => exact hg.symm.trans hf
  | _ => cases hf

theorem call_address {w w' : World} {g g' : Game} {env : Env} {c : Call}
    (hs : CallStep w g env c w' g') (hg : g.pc = .idle) {p : PeerPtr} {port : UInt16}
    (hf : g'.pc = .addressHost p port) :
    w' = w ∧ ∃ h, w.host.enetHost = some h ∧ port = (h.peers p.slot).address.port := by
  cases hs with
  | getAddress hl =>
    cases hf
    exact ⟨rfl, _, (World.live_eq hl).1, rfl⟩
  | returns => rw [hg] at hf; cases hf
  | setMaxPeers => rw [hg] at hf; cases hf
  | setMaxChannels => rw [hg] at hf; cases hf
  | getPeer hh hi => rw [Game.obtain_pc, hg] at hf; cases hf
  | nullAddress => rw [hg] at hf; cases hf
  | danglingPeer hc hl => rw [hg] at hf; cases hf
  | _ => cases hf

/-- `get_address` has read its port, or reads it in this step. -/
theorem step_address (h : Step s a t) {p : PeerPtr} {port : UInt16}
    (hf : t.game.pc = .addressHost p port) : s.game.pc = .addressHost p port ∨
      t.world = s.world ∧ ∃ h, s.enet = some h ∧ port = (h.peers p.slot).address.port := by
  cases h with
  | worker hpc hs => exact Or.inl hf
  | call hpc hp hs => exact Or.inr (call_address hs hpc hf)
  | go hs => exact Or.inl (go_address rfl hs hf)

/-- The game thread has taken the event.  If it is asking for the address of the
slot, and the connection of the event still holds it, the port is the right one. -/
structure Taken (s : State) (q : QueuedEvent) : Prop where
  raised : Raised s q
  port : ∀ p port h, s.game.pc = .addressHost p port → s.enet = some h →
    q.stamp.session = s.world.session → q.stamp.origin.type ≠ .disconnect →
    p.slot = q.stamp.origin.peer → (h.slot p.slot).connection = q.stamp.origin.connection →
    port = q.stamp.origin.address.port

theorem Taken.step (hi : Taken s q) (h : Step s a t) : Taken t q := by
  refine ⟨hi.raised.step h, fun p port h' hf hh' hs ht hp hconn => ?_⟩
  rcases step_address h hf with hf | ⟨hw, g, hg, rfl⟩
  · cases step_host h with
    | keep he hn => exact hi.port p port h' hf (he.symm.trans hh') (hs.trans hn) ht hp hconn
    | @receives g g' hg hg' hr hn =>
      obtain rfl := Option.some.inj (hh'.symm.trans hg')
      refine hi.port p port g hf hg (hs.trans hn) ht hp ?_
      rcases hr.slots p.slot with hm | ⟨_, htakes⟩
      · exact hm.connection.symm.trans hconn
      · -- The number of a connection that took the slot is a later one.
        have hfresh := htakes.fresh
        have hcount := (hi.raised.origin g hg (hs.trans hn) ht).counted
        omega
    | claim hx _ _ _ _ => rw [hf] at hx; cases hx
    | create hx _ _ _ _ => rw [hf] at hx; cases hx
    | destroy hx _ _ => rw [hf] at hx; cases hx
  · have hst : t.enet = s.enet := by rw [State.enet, hw]
    obtain rfl := Option.some.inj (hg.symm.trans (hst.symm.trans hh'))
    have ho := hi.raised.origin g hg (by rw [hs, hw]) ht
    rw [hp] at hconn ⊢
    exact congrArg ENet.Address.port (ho.holds hconn).1

theorem popped_event (h : q ∈ poppedEvents s a) :
    s.game.pc = .popRead ∧ q = s.world.host.eventQueue.front := by
  unfold poppedEvents at h
  split at h
  · cases h
  · cases h
  · split at h
    · next hpc => exact ⟨hpc, List.mem_singleton.mp h⟩
    · cases h

/-- An event that is taken waited in the queue. -/
theorem popped_reports (hq : Queues s) (h : q ∈ poppedEvents s a) : s.Reports q := by
  obtain ⟨hpc, rfl⟩ := popped_event h
  have he := hq.events.item (by rw [hpc]; trivial)
  left
  rw [hq.events.valid.pending_read he]
  exact List.mem_cons_self

theorem popped_taken (hr : system.Reachable s) (h : Step s a t) (hp : q ∈ poppedEvents s a) :
    Taken t q := by
  refine ⟨(raised hr (popped_reports (queues hr) hp)).step h, fun p port _ hf => ?_⟩
  obtain ⟨hpc, _⟩ := popped_event hp
  rcases step_address h hf with hf | ⟨hw, _⟩
  · rw [hpc] at hf
    cases hf
  · cases h with
    | worker hpc' hs => cases hp
    | call hc hx hs => cases hp
    | go hs =>
      have := go_address rfl hs hf
      rw [hpc] at this
      cases this

theorem run_taken {as : List Action} (hs : system.start s) (hr : system.run s as = some t)
    (hq : q ∈ system.trace poppedEvents s as) : Taken t q := by
  have hstep : ∀ u a v taken, True → system.Reachable u ∧ (∀ q ∈ taken, Taken u q) →
      system.step u a = some v →
      system.Reachable v ∧ ∀ q ∈ taken ++ poppedEvents u a, Taken v q := by
    intro u a v taken _ hi hv
    have h := (step_cases hv).2
    refine ⟨hi.1.step hv, fun q hq => ?_⟩
    rcases List.mem_append.mp hq with hq | hq
    · exact (hi.2 q hq).step h
    · exact popped_taken hi.1 h hq
  have hrun := Machine.run_trace (I := fun u taken => system.Reachable u ∧ ∀ q ∈ taken, Taken u q)
    hstep (Machine.along_true s as) ⟨.start hs, fun _ hx => absurd hx List.not_mem_nil⟩ hr
  exact hrun.2 q hq

theorem newEvent_type {time : Int} {e : ENet.Event}
    (h : (newEvent time e).type = .connect ∨ (newEvent time e).type = .receive) :
    e.type ≠ .disconnect := by
  intro he
  rw [newEvent, he] at h
  rcases h with h | h <;> cases h

theorem newEvent_peerId (time : Int) (e : ENet.Event) : (newEvent time e).peerId = e.peer := by
  unfold newEvent
  split <;> rfl

/-- The game thread has taken a CONNECT or RECEIVE event.  While the slot is the one
of the connection that raised it, `get_address` returns the address of that
connection; and a message that is written for the slot while the connection is not
DISCONNECTED is handed to that connection or refused. -/
theorem reply_reaches {as : List Action} {h : ENet.Host} (hs : system.start s)
    (hr : system.run s as = some t) (hq : q ∈ system.trace poppedEvents s as)
    (ht : q.item.type = .connect ∨ q.item.type = .receive)
    (hsession : q.stamp.session = t.world.session) (hh : t.enet = some h)
    (hheld : (h.slot q.item.peerId.toNat).connection = q.stamp.origin.connection) :
    (∀ env p port u, t.game.pc = .addressHost p port → p.session = t.world.session →
      p.slot = q.item.peerId.toNat → system.step t (.game (.go env)) = some u →
      u.world.fault = none → returnedAddress t (.game (.go env)) = some q.stamp.origin.address) ∧
    (∀ a u m x, system.step t a = some u → m ∈ writtenMessages t a →
      m.item.peerId = q.item.peerId → t.world.slotOf m.item = some x → x.state ≠ .disconnected →
      ∀ bs v g, system.run u bs = some v → v.world.worker = some (.handing m) →
        v.enet = some g → v.world.session = q.stamp.session ∧
        ((g.slot q.item.peerId.toNat).connection = q.stamp.origin.connection ∨
          ∀ channelID packet allocates, ENet.peerSend g (g.peers q.item.peerId.toNat) channelID
            packet allocates = none) ∧
        ∀ input w, system.step v (.worker input) = some w →
          HandedTo q.stamp.origin.connection m v w) := by
  have htaken := run_taken hs hr hq
  have hreach : system.Reachable t := Machine.Reachable.run (.start hs) hr
  obtain ⟨time, hitem⟩ := htaken.raised.item
  have htype : q.stamp.origin.type ≠ .disconnect := newEvent_type (hitem ▸ ht)
  have hpeer : q.item.peerId.toNat = q.stamp.origin.peer := by
    rw [hitem, newEvent_peerId]
    rfl
  have horigin := htaken.raised.origin h hh hsession htype
  rw [hpeer] at hheld
  obtain ⟨haddress, hstate⟩ := horigin.holds hheld
  refine ⟨fun env p port u hpc hps hp hst hfault => ?_,
    fun a u m x hst hm hid hx hd bs v g hrun hv hg => ?_⟩
  · rw [hpeer] at hp
    have hport := htaken.port p port h hpc hh hsession htype hp (hp ▸ hheld)
    rw [returnedAddress, hpc]
    show (t.world.live p).map _ = _
    cases hl : t.world.live p with
    | none =>
      -- The pointer would be into no array, and the step fail.
      exfalso
      have hgo : system.step t (.game (.go env)) = some u := hst
      obtain ⟨hf, hstep⟩ := step_cases hst
      cases hstep with
      | go hg =>
        rw [hpc] at hg
        cases hg with
        | addressHost hlive => rw [hl] at hlive; cases hlive
        | fails hx => cases hfault
    | some g =>
      obtain rfl := Option.some.inj (hh.symm.trans (World.live_eq hl).1)
      refine congrArg some ?_
      show (⟨(h.slot p.slot).address.host, port⟩ : ENet.Address) = _
      rw [hport, hp, haddress]
  · obtain ⟨g', hg', _, rfl⟩ := slotOf_eq hx
    obtain rfl := Option.some.inj (hh.symm.trans hg')
    have hslot : m.item.slot = q.stamp.origin.peer := by rw [Message.slot, hid, hpeer]
    have hrank : 3 ≤ (h.slot m.item.slot).state.rank := by
      rw [hslot] at hd ⊢
      exact hstate.resolve_left hd
    obtain ⟨hsame, hresult, hhanded⟩ := message_delivered hreach hst hm hx hrank hrun hv hg
    rw [hslot, hheld] at hresult hhanded
    rw [hpeer]
    exact ⟨hsame.trans hsession.symm, hresult, hhanded⟩

/-! ## Replies in time and too late -/

/-- The game thread takes an event and asks for a peer. -/
def takeRun : List Action :=
  [.game (.call .getEvent {}), .game (.go {}), .game (.go {}), .game (.call (.getPeer 0) {})]

/-- The address of the connection is asked for while it is there. -/
def replyRun : List Action := connectRun ++ takeRun ++ [.game (.call (.getAddress ⟨1, 0⟩) {})]

/-- The one event of a run, as the game thread sees it. -/
theorem taken_event {as : List Action} {peerId : Int} {n : Nat} {address : ENet.Address}
    (h : (system.trace poppedEvents .fresh as).map (fun q =>
      (q.item.type, q.item.peerId, q.stamp.session, q.stamp.origin.connection,
        q.stamp.origin.address)) = [(.connect, peerId, 1, n, address)]) :
    ∃ q ∈ system.trace poppedEvents .fresh as, q.item.type = .connect ∧ q.item.peerId = peerId ∧
      q.stamp.session = 1 ∧ q.stamp.origin.connection = n ∧ q.stamp.origin.address = address := by
  obtain ⟨q, hq, he⟩ := List.mem_map.mp (h ▸ List.mem_singleton_self _)
  simp only [Prod.mk.injEq] at he
  exact ⟨q, hq, he⟩

theorem reply_reaches_address :
    ∃ (t : State) (q : QueuedEvent), system.run .fresh replyRun = some t ∧
      q ∈ system.trace poppedEvents .fresh replyRun ∧ q.item.type = .connect ∧
      returnedAddress t (.game (.go {})) = some q.stamp.origin.address := by
  let t := (system.run .fresh replyRun).get (by rfl)
  have hr : system.run .fresh replyRun = some t := (Option.some_get _).symm
  obtain ⟨q, hq, htype, hid, hsession, hconn, _⟩ :=
    @taken_event replyRun 0 1 ⟨1, 1⟩ (by rfl)
  let u := (system.step t (.game (.go {}))).get (by rfl)
  have hst : system.step t (.game (.go {})) = some u := (Option.some_get _).symm
  have hheld : (t.slot 0).map ENet.Slot.connection = some 1 := by rfl
  obtain ⟨h, hh⟩ : ∃ h, t.enet = some h := Option.isSome_iff_exists.mp (by rfl)
  refine ⟨t, q, hr, hq, htype, ?_⟩
  refine (reply_reaches fresh_start hr hq (Or.inl htype) (hsession.trans (by rfl)) hh ?_).1
    {} ⟨1, 0⟩ 1 u (by rfl) (by rfl) (by rw [hid]; rfl) hst (by rfl)
  rw [State.slot, show t.world.host.enetHost = some h from hh] at hheld
  rw [hid, hconn]
  exact Option.some.inj hheld

/-- The connection goes away, as its datagram says. -/
def leaveRun (address : ENet.Address) (source : address.host ≠ ENet.enetHostBroadcast) :
    List Action :=
  List.replicate 10 (.worker {}) ++ [received (firstDatagram address source (.disconnect 0))] ++
    List.replicate 8 (.worker {})

theorem first_source : (⟨1, 1⟩ : ENet.Address).host ≠ ENet.enetHostBroadcast := by decide

theorem second_source : (⟨2, 1⟩ : ENet.Address).host ≠ ENet.enetHostBroadcast := by decide

/-- Another connection gets the slot before the game thread takes the first event. -/
def lateRun : List Action :=
  connectRun ++ leaveRun ⟨1, 1⟩ first_source ++ acceptRun ⟨2, 1⟩ second_source ++ takeRun

/-- A packet for the peer, up to where the host thread hands it over. -/
def answerRun : List Action :=
  .game (.call (.sendPacket ⟨1, 0⟩ [7] 0 2) {}) :: List.replicate 3 (.game (.go {})) ++
    List.replicate 7 (.worker {})

set_option maxRecDepth 4000 in
/-- The event is from the first connection, the address and the message go to the second. -/
theorem late_event :
    ∃ (t u v : State) (q : QueuedEvent) (m : QueuedMessage) (h : ENet.Host),
      system.run .fresh lateRun = some t ∧ q ∈ system.trace poppedEvents .fresh lateRun ∧
      q.item.type = .connect ∧ q.item.peerId = 0 ∧ q.stamp.session = t.world.session ∧
      q.stamp.origin.connection = 1 ∧ q.stamp.origin.address = ⟨1, 1⟩ ∧
      system.step t (.game (.call (.getAddress ⟨1, 0⟩) {})) = some u ∧
      returnedAddress u (.game (.go {})) = some ⟨2, 1⟩ ∧
      system.run t answerRun = some v ∧ v.world.worker = some (.handing m) ∧
      m.item.peerId = 0 ∧ v.enet = some h ∧ (h.slot 0).connection = 2 ∧
      (ENet.peerSend h (h.peers 0) (UInt8.ofInt m.item.channelId)
        ⟨packetFlags m.item.type, m.item.packet⟩ true).isSome := by
  let t := (system.run .fresh lateRun).get (by rfl)
  obtain ⟨q, hq, htype, hid, hsession, hconn, haddress⟩ := @taken_event lateRun 0 1 ⟨1, 1⟩ (by rfl)
  have ht : system.run .fresh lateRun = some t := (Option.some_get _).symm
  let u := (system.step t (.game (.call (.getAddress ⟨1, 0⟩) {}))).get (by rfl)
  have hu : system.step t (.game (.call (.getAddress ⟨1, 0⟩) {})) = some u :=
    (Option.some_get _).symm
  let v := (system.run t answerRun).get (by rfl)
  have hv : system.run t answerRun = some v := (Option.some_get _).symm
  exact ⟨t, u, v, q, _, _, ht, hq, htype, hid, hsession.trans (by rfl), hconn, haddress, hu,
    by rfl, hv, by rfl, by rfl, by rfl, by rfl,
    ENet.peerSend_whole (by rfl) (by decide) (by decide) (by decide)⟩

end GDNet
