import GDNet.Host.Queues

/-!
# What a step does to the peers, and to the messages on their way

Every claim about peers is about some step that changes the ENet host, or about
a message between the call that makes it and the turn of `send_messages` that
hands it over.  `step_host` lists the changes of the host, and says what a step
is entitled to do to the slots; `step_carries` lists where the messages of a
state come from.
-/

namespace GDNet

open Transition

variable {s t : State} {a : Action}

abbrev State.enet (s : State) : Option ENet.Host := s.world.host.enetHost

/-- What the step may do to the slots. -/
def State.allow (s : State) : Action → ENet.Allow
  | .worker input =>
    match s.world.worker with
    | some (.service pc) =>
      ⟨∃ h, s.enet = some h ∧ (ENet.serviceStep h pc input.service).2.event.isSome, True,
        fun i => input.service.closes i pc⟩
    | some .check =>
      ⟨∃ h, s.enet = some h ∧ (ENet.protocolDispatchIncomingCommands h).2.isSome, False,
        fun _ => False⟩
    | _ => ⟨False, False, fun _ => False⟩
  | .game (.call _ _) => ⟨False, False, fun _ => False⟩
  | .game (.go _) =>
    match s.game.pc with
    | .inside _ p => ⟨True, False, (· = p.slot)⟩
    | .unbindFlush => .all
    | _ => ⟨False, False, fun _ => False⟩

inductive HostStep (s : State) (a : Action) (t : State) : Prop
  | keep (hh : t.enet = s.enet) (hs : t.world.session = s.world.session)
  | receives {h h' : ENet.Host} (hh : s.enet = some h) (hh' : t.enet = some h')
      (hr : ENet.Receives (s.allow a) h h') (hs : t.world.session = s.world.session)
  | claim {i : Nat} {args : ConnectArgs} {env : Env} {h h' : ENet.Host}
      (hpc : s.game.pc = .found i args) (hh : s.enet = some h) (hh' : t.enet = some h')
      (hc : ENet.hostConnectClaim h i args.address (UInt64.ofInt s.world.host.maxChannels).toNat
        (UInt32.ofInt args.data) env.channels env.allocates = some h')
      (hs : t.world.session = s.world.session)
  | create {h : ENet.Host} (hpc : s.game.pc = .idle) (hh : s.enet = none) (hh' : t.enet = some h)
      (hok : h.Ok) (hs : t.world.session = s.world.session + 1)
  | destroy (hpc : s.game.pc = .unbindDestroy) (hh' : t.enet = none)
      (hs : t.world.session = s.world.session)

theorem handOver_moves {b : ENet.Allow} {h h' : ENet.Host} {m : Message} {input : WorkerInput}
    (ho : handOver h m input = some h') : ENet.HostMoves b h h' := by
  unfold handOver at ho
  simp only at ho
  split at ho
  · cases ho
    exact ENet.HostMoves.refl h
  · split at ho
    · cases ho
      exact ENet.broadcastLoop_moves _ h
    · split at ho
      · cases ho
        exact ENet.HostMoves.update_slot (ENet.peerSend_getD_slot _ _ _ _ _)
      · cases ho

theorem polled_enet (w : World) (time : Int) (h : ENet.Host) (outcome : ENet.ServiceOutcome) :
    (w.polled time h outcome).host.enetHost = some h ∧
      (w.polled time h outcome).session = w.session := by
  unfold World.polled
  split <;> exact ⟨rfl, rfl⟩

theorem worker_host {w' : World} {input : WorkerInput} {pc : WorkerPc}
    (hpc : s.world.worker = some pc) (hs : WorkerStep s.world input pc w') :
    HostStep s (.worker input) { s with world := w' } := by
  cases hs with
  | handing hh ho => exact .receives hh rfl (handOver_moves ho).receives rfl
  | @service spc h hh =>
    have hp := polled_enet s.world input.time (ENet.serviceStep h spc input.service).1
      (ENet.serviceStep h spc input.service).2
    refine .receives hh hp.1 (ENet.serviceStep_receives.mono ?_ ?_ ?_) hp.2
    · intro he
      rw [State.allow, hpc]
      exact ⟨h, hh, he⟩
    · intro _
      rw [State.allow, hpc]
      trivial
    · intro i hi
      rw [State.allow, hpc]
      exact hi
  | @check h hh =>
    have hp := polled_enet s.world input.time (ENet.protocolDispatchIncomingCommands h).1
      (.done (ENet.protocolDispatchIncomingCommands h).2)
    refine .receives hh hp.1 (ENet.dispatchLoop_moves _ h fun he => ?_).receives hp.2
    rw [State.allow, hpc]
    exact ⟨h, hh, he⟩
  | _ => exact .keep rfl rfl

theorem go_host {w' : World} {g' : Game} {env : Env} {pc : GamePc} (hpc : s.game.pc = pc)
    (hs : GoStep gameThread s.world s.game env pc w' g') :
    HostStep s (.game (.go env)) ⟨w', g'⟩ := by
  cases hs with
  | inside hl =>
    refine .receives (World.live_eq hl).1 rfl (method_moves ?_ ?_).receives rfl
    · rw [State.allow, hpc]
      trivial
    · rw [State.allow, hpc]
  | found hh hc => exact .claim hpc hh rfl hc rfl
  | unbindFlush hh => exact .receives hh rfl (ENet.flush_moves _ _).receives rfl
  | unbindDestroy => exact .destroy hpc rfl rfl
  | _ => exact .keep rfl rfl

theorem call_host {w w' : World} {g g' : Game} {env : Env} {c : Call}
    (hs : CallStep w g env c w' g') :
    (w'.host.enetHost = w.host.enetHost ∧ w'.session = w.session) ∨
      ∃ h, w.host.enetHost = none ∧ w'.host.enetHost = some h ∧ h.Ok ∧
        w'.session = w.session + 1 := by
  cases hs with
  | bind hn hc => exact Or.inr ⟨_, hn, rfl, ENet.hostCreate_ok hc, rfl⟩
  | _ => exact Or.inl ⟨rfl, rfl⟩

theorem step_host (h : Step s a t) : HostStep s a t := by
  cases h with
  | worker hpc hs => exact worker_host hpc hs
  | call hpc hp hs =>
    rcases call_host hs with ⟨hh, hn⟩ | ⟨h, hh, hh', hok, hn⟩
    · exact .keep hh hn
    · exact .create hpc hh hh' hok hn
  | go hs => exact go_host rfl hs

/-- The number of peers is fixed when a session starts. -/
theorem HostStep.peerCount {h h' : ENet.Host} (hst : HostStep s a t) (hh : s.enet = some h)
    (hh' : t.enet = some h') : h'.peerCount = h.peerCount ∧ t.world.session = s.world.session := by
  cases hst with
  | keep he hs =>
    obtain rfl := Option.some.inj (hh.symm.trans (he.symm.trans hh'))
    exact ⟨rfl, hs⟩
  | receives hg hg' hr hs =>
    obtain rfl := Option.some.inj (hh.symm.trans hg)
    obtain rfl := Option.some.inj (hh'.symm.trans hg')
    exact ⟨hr.peerCount, hs⟩
  | claim hpc hg hg' hc hs =>
    obtain rfl := Option.some.inj (hh.symm.trans hg)
    obtain rfl := Option.some.inj (hh'.symm.trans hg')
    exact ⟨(ENet.connectClaim_slot hc).2.2.1, hs⟩
  | create hpc hg hg' hok hs => rw [hh] at hg; cases hg
  | destroy hpc hg' hs => rw [hh'] at hg'; cases hg'

/-! ## Messages on their way -/

/-- The message waits in the queue or is in the hands of the host thread. -/
def State.Carries (s : State) (q : QueuedMessage) : Prop :=
  q ∈ s.world.host.messageQueue.pending ∨ s.world.worker = some (.handing q)

/-- The message the game thread is about to push. -/
def GamePc.message : GamePc → Option Message
  | .pushTest m => some m
  | .pushWrite m => some m
  | _ => none

theorem go_clears_messages {w' : World} {g' : Game} {env : Env} {pc : GamePc} (hq : Queues s)
    (hpc : s.game.pc = pc) (hc : Clears s (.game (.go env)))
    (hs : GoStep gameThread s.world s.game env pc w' g') :
    ∀ q ∈ w'.host.messageQueue.pending, q ∈ s.world.host.messageQueue.pending := by
  rcases hc with e | e
  · obtain rfl := hpc.symm.trans e
    cases hs with
    | unbindMessages =>
      intro q hmem
      change q ∈ s.world.host.messageQueue.clear.pending at hmem
      rw [hq.messages.valid.clear_spec.1] at hmem
      cases hmem
    | fails hf => cases hf
  · obtain rfl := hpc.symm.trans e
    cases hs with
    | unbindEvents => exact fun q hmem => hmem
    | fails hf => cases hf

theorem worker_handing {w w' : World} {input : WorkerInput} {pc : WorkerPc} {q : QueuedMessage}
    (hpc : w.worker = some pc) (hs : WorkerStep w input pc w')
    (hw : w'.worker = some (.handing q)) :
    w.worker = some (.handing q) ∨ pc = .popRead ∧ q = w.host.messageQueue.front := by
  cases hs with
  | popRead => cases hw; exact Or.inr ⟨rfl, rfl⟩
  | service hh => unfold World.polled at hw; split at hw <;> cases hw
  | check hh => unfold World.polled at hw; split at hw <;> cases hw
  | fails hf => exact Or.inl hw
  | _ => cases hw

theorem go_handing {w w' : World} {g g' : Game} {env : Env} {pc : GamePc} {q : QueuedMessage}
    (hs : GoStep gameThread w g env pc w' g') (hw : w'.worker = some (.handing q)) :
    w.worker = some (.handing q) := by
  cases hs with
  | bindThread => cases hw
  | unbindWait _ => cases hw
  | _ => exact hw

/-- A message of the state after a step was there before, or the step wrote it. -/
theorem step_carries {q : QueuedMessage} (hq : Queues s) (h : Step s a t) (hc : t.Carries q) :
    s.Carries q ∨ q ∈ writtenMessages s a := by
  rcases hc with hc | hc
  · by_cases hcl : Clears s a
    · left
      left
      cases h with
      | worker hpc hs => exact hcl.elim
      | call hpc hp hs => exact hcl.elim
      | go hs => exact go_clears_messages hq rfl hcl hs q hc
    · have hcons := (messages_turn hcl h).conserves hq.messages
      have hmem : q ∈ s.world.host.messageQueue.pending ++ writtenMessages s a := by
        rw [hcons]
        exact List.mem_append_right _ hc
      exact (List.mem_append.mp hmem).imp_left Or.inl
  · left
    cases h with
    | worker hpc hs =>
      rcases worker_handing hpc hs hc with hw | ⟨rfl, rfl⟩
      · exact Or.inr hw
      · left
        have he := hq.messages.item (by rw [World.popping, hpc]; trivial)
        rw [hq.messages.valid.pending_read he]
        exact List.mem_cons_self
    | call hpc hp hs => exact Or.inr ((call_queues hs hpc).2.2.1.symm.trans hc)
    | go hs => exact Or.inr (go_handing hs hc)

end GDNet
