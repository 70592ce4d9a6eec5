import GDNet.Host.Exclusion
import GDNet.Queue.Ledger

/-!
# Every message and event object

Two ledgers are kept beside a run: one for the `GDNetMessage` objects that the
calls of the game make, one for the `GDNetEvent` objects of `new_event`.  An
operation of a ledger stands where the source calls `memnew`, `push`, `pop`,
`memdelete` or `clear`, and where it returns with the only pointer to an object.

No object is ever at two places.  Every object is at one as long as no push finds
its queue full and no second `encode_variant` fails.
-/

namespace GDNet

open Transition

variable {s t : State} {a : Action} {l : Ledger queueSize}

/-! ## What a step does to the objects -/

/-- The message a call makes when it starts. -/
def callMessage (l : Ledger queueSize) : Call → Ledger queueSize
  | .broadcastPacket _ _ _ => l.make
  | .broadcastVar var _ _ =>
    match var.length, var.bytes with
    | none, _ => l
    | some 0, _ => l
    | some _, none => l.make.abandon
    | some _, some _ => l.make
  | .sendPacket _ _ _ _ => l.make
  | .sendVar _ var _ _ =>
    match var.length with
    | none => l
    | some 0 => l
    | some _ => l.make
  | _ => l

def messageStep (s : State) (l : Ledger queueSize) : Action → Ledger queueSize
  | .worker _ =>
    match s.world.worker with
    | some .popRead => l.read
    | some (.handing _) => l.delete
    | _ => l
  | .game (.call c _) => if s.world.host.enetHost.isSome then callMessage l c else l
  | .game (.go _) =>
    match s.game.pc with
    | .sending _ _ encodes => if encodes then l else l.abandon
    | .pushTest _ => if s.world.host.messageQueue.isFull then l.abandon else l
    | .pushWrite _ => l.write
    | .unbindMessages => l.clear
    | _ => l

/-- The event that the step to `t` makes is in its hands there. -/
def eventStep (s : State) (l : Ledger queueSize) (t : State) : Action → Ledger queueSize
  | .worker _ =>
    match s.world.worker with
    | some (.pushTest _) => if s.world.host.eventQueue.isFull then l.abandon else l
    | some (.pushWrite _) => l.write
    | _ =>
      match t.world.worker with
      | some (.pushTest _) => l.make
      | _ => l
  | .game (.call _ _) => l
  | .game (.go _) =>
    match s.game.pc with
    | .popRead => l.read.give
    | .unbindEvents => l.clear
    | _ => l

/-- The first `encode_variant` succeeds and the second one does not. -/
def Variant.failsLate (var : Variant) : Bool :=
  match var.length with
  | none => false
  | some 0 => false
  | some _ => var.bytes.isNone

def losesMessage (s : State) : Action → Bool
  | .game (.call (.broadcastVar var _ _) _) =>
    s.world.host.enetHost.isSome && var.failsLate
  | .game (.go _) =>
    match s.game.pc with
    | .sending _ _ encodes => !encodes
    | .pushTest _ => s.world.host.messageQueue.isFull
    | _ => false
  | _ => false

def losesEvent (s : State) : Action → Bool
  | .worker _ =>
    match s.world.worker with
    | some (.pushTest _) => s.world.host.eventQueue.isFull
    | _ => false
  | .game _ => false

/-- The game thread has a message in its hands. -/
def GamePc.carries : GamePc → Bool
  | .sending _ _ _ => true
  | .pushTest _ => true
  | .pushWrite _ => true
  | _ => false

/-- The host thread has popped a message that it has not deleted. -/
def WorkerPc.hands : WorkerPc → Bool
  | .handing _ => true
  | _ => false

/-- The host thread has made an event that it has not pushed. -/
def WorkerPc.raises : WorkerPc → Bool
  | .pushTest _ => true
  | .pushWrite _ => true
  | _ => false

theorem none_of_isSome {α : Type*} {o : Option α} (h : o.isSome = false) : o = none :=
  Option.not_isSome_iff_eq_none.mp (Bool.eq_false_iff.mp h)

/-! ## The ledger of messages -/

structure MessageBook (s : State) (l : Ledger queueSize) : Prop where
  aligned : l.queue.Aligned s.world.host.messageQueue
  hand : l.hand.isSome = s.game.pc.carries
  taken : l.taken.isSome = s.world.worker.any WorkerPc.hands
  returned : l.returned = []

theorem polled_hands (w : World) (time : Int) (h : ENet.Host) (outcome : ENet.ServiceOutcome) :
    (w.polled time h outcome).worker.any WorkerPc.hands = false := by
  unfold World.polled
  split <;> rfl

theorem worker_messageBook {input : WorkerInput} {pc : WorkerPc} {w : World} (hq : Queues s)
    (hpc : s.world.worker = some pc) (hs : WorkerStep s.world input pc w) (hb : MessageBook s l) :
    Ledger.Moves l (messageStep s l (.worker input)) 0 ∧
      (w.fault = none →
        MessageBook { s with world := w } (messageStep s l (.worker input))) := by
  have htaken : l.taken.isSome = pc.hands := by
    rw [hb.taken, hpc]
    rfl
  have hkeep : ∀ {x : World}, messageStep s l (.worker input) = l →
      x.host.messageQueue = s.world.host.messageQueue → x.worker.any WorkerPc.hands = pc.hands →
      Ledger.Moves l (messageStep s l (.worker input)) 0 ∧
        (x.fault = none →
          MessageBook { s with world := x } (messageStep s l (.worker input))) := by
    intro x hl hx hw
    rw [hl]
    refine ⟨.refl l, fun _ => ⟨?_, hb.hand, htaken.trans hw.symm, hb.returned⟩⟩
    show l.queue.Aligned x.host.messageQueue
    rw [hx]
    exact hb.aligned
  cases hs with
  | popRead =>
    have hnone : l.taken = none := none_of_isSome htaken
    have hitem : l.queue.isEmpty = false := by
      rw [hb.aligned.isEmpty]
      refine hq.messages.item ?_
      rw [World.popping, hpc]
      trivial
    have hl : messageStep s l (.worker input) = l.read := by rw [messageStep, hpc]
    rw [hl]
    exact ⟨Ledger.read_moves (hb.aligned.valid hq.messages.valid) hitem hnone,
      fun _ => ⟨hb.aligned.read, hb.hand, rfl, hb.returned⟩⟩
  | handing hh ho =>
    have hl : messageStep s l (.worker input) = l.delete := by rw [messageStep, hpc]
    rw [hl]
    exact ⟨Ledger.delete_moves l, fun _ => ⟨hb.aligned, hb.hand, rfl, hb.returned⟩⟩
  | service hh =>
    exact hkeep (by rw [messageStep, hpc]) (polled_queues _ _ _ _).1 (polled_hands _ _ _ _)
  | check hh =>
    exact hkeep (by rw [messageStep, hpc]) (polled_queues _ _ _ _).1 (polled_hands _ _ _ _)
  | fails hf =>
    refine ⟨?_, fun h => by cases h⟩
    rw [messageStep, hpc]
    cases hf with
    | badIndex hh ho => exact Ledger.delete_moves l
    | handing hh => exact Ledger.delete_moves l
    | _ => exact .refl l
  | _ => exact hkeep (by rw [messageStep, hpc]) rfl rfl

/-- A call carries a message exactly if it has made one that it keeps. -/
theorem callMessage_hand {w : World} {g : Game} {env : Env} (c : Call) (hg : g.pc = .idle)
    (hh : l.hand = none) :
    (if w.host.enetHost.isSome then callMessage l c else l).hand.isSome =
      (startCall w g env c).2.pc.carries := by
  have hidle : l.hand.isSome = g.pc.carries := by
    rw [hh, hg]
    rfl
  cases c with
  | broadcastPacket packet channelId type =>
    simp only [startCall, callMessage]
    split
    · rfl
    · exact hidle
  | broadcastVar var channelId type =>
    obtain ⟨length, bytes⟩ := var
    simp only [startCall, callMessage]
    split
    · rcases length with _ | _ | n
      · exact hidle
      · exact hidle
      · cases bytes with
        | none =>
          show none.isSome = g.pc.carries
          rw [hg]
          rfl
        | some packet => rfl
    · exact hidle
  | sendPacket peer packet channelId type =>
    simp only [startCall, callMessage]
    split
    · rfl
    · exact hidle
  | sendVar peer var channelId type =>
    obtain ⟨length, bytes⟩ := var
    simp only [startCall, callMessage]
    split
    · rcases length with _ | _ | n
      · exact hidle
      · exact hidle
      · rfl
    · exact hidle
  | _ =>
    simp only [startCall, callMessage, ite_self]
    repeat' split
    all_goals first | exact hidle | (rw [hh]; rfl)

theorem call_moves (c : Call) (env : Env) (hh : l.hand = none) :
    Ledger.Moves l (messageStep s l (.game (.call c env)))
      (losesMessage s (.game (.call c env))).toNat := by
  rw [messageStep]
  split
  · next hb =>
    cases c with
    | broadcastPacket packet channelId type => exact Ledger.make_moves hh
    | sendPacket peer packet channelId type => exact Ledger.make_moves hh
    | broadcastVar var channelId type =>
      obtain ⟨length, bytes⟩ := var
      rw [losesMessage, hb, Bool.true_and]
      rcases length with _ | _ | n
      · exact .refl l
      · exact .refl l
      · cases bytes with
        | none => exact (Ledger.make_moves hh).trans (Ledger.abandon_moves rfl)
        | some packet => exact Ledger.make_moves hh
    | sendVar peer var channelId type =>
      obtain ⟨length, bytes⟩ := var
      rcases length with _ | _ | n
      · exact .refl l
      · exact .refl l
      · exact Ledger.make_moves hh
    | _ => exact .refl l
  · next hb =>
    have hkept : losesMessage s (.game (.call c env)) = false := by
      unfold losesMessage
      split
      · rw [Bool.eq_false_iff.mpr hb, Bool.false_and]
      · next heq => cases heq
      · rfl
    rw [hkept]
    exact .refl l

theorem call_returned (c : Call) (env : Env) :
    (messageStep s l (.game (.call c env))).queue = l.queue ∧
      (messageStep s l (.game (.call c env))).taken = l.taken ∧
      (messageStep s l (.game (.call c env))).returned = l.returned := by
  rw [messageStep]
  split
  · unfold callMessage
    repeat' split
    all_goals exact ⟨rfl, rfl, rfl⟩
  · exact ⟨rfl, rfl, rfl⟩

theorem go_messageBook {env : Env} {pc : GamePc} {w : World} {g : Game} (hq : Queues s)
    (hl : Life s) (hpc : s.game.pc = pc) (hs : GoStep gameThread s.world s.game env pc w g)
    (hb : MessageBook s l) :
    Ledger.Moves l (messageStep s l (.game (.go env)))
        (losesMessage s (.game (.go env))).toNat ∧
      (w.fault = none → MessageBook ⟨w, g⟩ (messageStep s l (.game (.go env)))) := by
  have hhand : l.hand.isSome = pc.carries := by rw [hb.hand, hpc]
  have hkeep : ∀ {x : World} {y : Game}, messageStep s l (.game (.go env)) = l →
      losesMessage s (.game (.go env)) = false →
      x.host.messageQueue = s.world.host.messageQueue →
      x.worker.any WorkerPc.hands = s.world.worker.any WorkerPc.hands →
      y.pc.carries = pc.carries →
      Ledger.Moves l (messageStep s l (.game (.go env)))
          (losesMessage s (.game (.go env))).toNat ∧
        (x.fault = none → MessageBook ⟨x, y⟩ (messageStep s l (.game (.go env)))) := by
    intro x y hl hlost hx hw hy
    rw [hl, hlost]
    refine ⟨.refl l, fun _ => ⟨?_, hhand.trans hy.symm, hb.taken.trans hw.symm, hb.returned⟩⟩
    show l.queue.Aligned x.host.messageQueue
    rw [hx]
    exact hb.aligned
  cases hs with
  | notEncoded =>
    rw [messageStep, losesMessage, hpc]
    exact ⟨Ledger.abandon_moves hhand, fun _ => ⟨hb.aligned, rfl, hb.taken, hb.returned⟩⟩
  | sending =>
    exact hkeep (by rw [messageStep, hpc]; rfl) (by rw [losesMessage, hpc]; rfl) rfl rfl rfl
  | refused hf =>
    rw [messageStep, losesMessage, hpc]
    simp only [hf, if_true]
    exact ⟨Ledger.abandon_moves hhand, fun _ => ⟨hb.aligned, rfl, hb.taken, hb.returned⟩⟩
  | pushTest hf =>
    refine hkeep ?_ ?_ rfl rfl rfl
    · rw [messageStep, hpc]
      simp only [hf, Bool.false_eq_true, if_false]
    · rw [losesMessage, hpc]
      exact hf
  | pushWrite =>
    obtain ⟨i, hi⟩ := Option.isSome_iff_exists.mp hhand
    have hroom : l.queue.isFull = false := by
      rw [hb.aligned.isFull]
      refine hq.messages.room ?_
      rw [hpc]
      trivial
    rw [messageStep, losesMessage, hpc]
    refine ⟨Ledger.write_moves (hb.aligned.valid hq.messages.valid) hroom, fun _ => ?_⟩
    simp only [Ledger.write, hi]
    exact ⟨hb.aligned.write _ _, rfl, hb.taken, hb.returned⟩
  | unbindMessages =>
    rw [messageStep, losesMessage, hpc]
    exact ⟨Ledger.clear_moves (hb.aligned.valid hq.messages.valid),
      fun _ => ⟨hb.aligned.clear, hhand, hb.taken, hb.returned⟩⟩
  | bindThread =>
    have hnone := hl.worker_none (by rw [hpc]; rfl) rfl
    refine hkeep ?_ ?_ rfl ?_ rfl
    · rw [messageStep, hpc]
    · rw [losesMessage, hpc]
    · rw [hnone]
      rfl
  | unbindWait hw =>
    refine hkeep ?_ ?_ rfl ?_ rfl
    · rw [messageStep, hpc]
    · rw [losesMessage, hpc]
    · rw [hw]
      rfl
  | fails hf =>
    have hlost : losesMessage s (.game (.go env)) = false ∧
        messageStep s l (.game (.go env)) = l := by
      rw [losesMessage, messageStep, hpc]
      cases hf <;> exact ⟨rfl, rfl⟩
    rw [hlost.1, hlost.2]
    exact ⟨.refl l, fun h => by cases h⟩
  | _ => exact hkeep (by rw [messageStep, hpc]) (by rw [losesMessage, hpc]) rfl rfl rfl

theorem message_step (hr : system.Reachable s) (hb : MessageBook s l)
    (h : system.step s a = some t) :
    Ledger.Moves l (messageStep s l a) (losesMessage s a).toNat ∧
      (t.world.fault = none → MessageBook t (messageStep s l a)) := by
  obtain ⟨hf, hs⟩ := step_cases h
  cases hs with
  | worker hpc hs => exact worker_messageBook (queues hr) hpc hs hb
  | go hs => exact go_messageBook (queues hr) (life hr) rfl hs hb
  | @call c env w g hpc hp hs =>
    have hhand : l.hand = none := none_of_isSome (hb.hand.trans (by rw [hpc]; rfl))
    have hcall := Option.some.inj ((call_step hf hpc hp).symm.trans h)
    obtain ⟨hq, _, hw, _, _⟩ := call_queues hs hpc
    obtain ⟨hqueue, htaken, hreturned⟩ := call_returned (s := s) (l := l) c env
    refine ⟨call_moves c env hhand, fun _ => ⟨?_, ?_, ?_, ?_⟩⟩
    · rw [hqueue, hq]
      exact hb.aligned
    · rw [← hcall]
      exact callMessage_hand c hpc hhand
    · rw [htaken, hw]
      exact hb.taken
    · rw [hreturned]
      exact hb.returned

/-! ## The ledger of events -/

structure EventBook (s : State) (l : Ledger queueSize) : Prop where
  aligned : l.queue.Aligned s.world.host.eventQueue
  hand : l.hand.isSome = s.world.worker.any WorkerPc.raises
  taken : l.taken = none

theorem polled_raises (w : World) (time : Int) (h : ENet.Host) (outcome : ENet.ServiceOutcome) :
    (w.polled time h outcome).worker = some .unlockHost ∨
      (∃ pc, (w.polled time h outcome).worker = some (.service pc)) ∨
      ∃ q, (w.polled time h outcome).worker = some (.pushTest q) := by
  unfold World.polled
  split
  · exact Or.inr (Or.inl ⟨_, rfl⟩)
  · exact Or.inl rfl
  · exact Or.inr (Or.inr ⟨_, rfl⟩)

theorem worker_eventBook {input : WorkerInput} {pc : WorkerPc} {w : World} (hq : Queues s)
    (hpc : s.world.worker = some pc) (hs : WorkerStep s.world input pc w) (hb : EventBook s l) :
    Ledger.Moves l (eventStep s l { s with world := w } (.worker input))
        (losesEvent s (.worker input)).toNat ∧
      (w.fault = none →
        EventBook { s with world := w }
          (eventStep s l { s with world := w } (.worker input))) := by
  have hhand : l.hand.isSome = pc.raises := by
    rw [hb.hand, hpc]
    rfl
  have hkeep : ∀ {x : World}, eventStep s l { s with world := x } (.worker input) = l →
      losesEvent s (.worker input) = false →
      x.host.eventQueue = s.world.host.eventQueue → x.worker.any WorkerPc.raises = pc.raises →
      Ledger.Moves l (eventStep s l { s with world := x } (.worker input))
          (losesEvent s (.worker input)).toNat ∧
        (x.fault = none →
          EventBook { s with world := x }
            (eventStep s l { s with world := x } (.worker input))) := by
    intro x hl hlost hx hw
    rw [hl, hlost]
    refine ⟨.refl l, fun _ => ⟨?_, hhand.trans hw.symm, hb.taken⟩⟩
    show l.queue.Aligned x.host.eventQueue
    rw [hx]
    exact hb.aligned
  have hpoll : ∀ {h : ENet.Host} {outcome : ENet.ServiceOutcome},
      (∀ u, eventStep s l u (.worker input) =
        match u.world.worker with
        | some (.pushTest _) => l.make
        | _ => l) → losesEvent s (.worker input) = false → pc.raises = false →
      Ledger.Moves l
          (eventStep s l { s with world := s.world.polled input.time h outcome } (.worker input))
          (losesEvent s (.worker input)).toNat ∧
        ((s.world.polled input.time h outcome).fault = none →
          EventBook { s with world := s.world.polled input.time h outcome }
            (eventStep s l { s with world := s.world.polled input.time h outcome }
              (.worker input))) := by
    intro h outcome hstep hlost hraises
    have hnone : l.hand = none := none_of_isSome (hhand.trans hraises)
    rcases polled_raises s.world input.time h outcome with hw | ⟨pc', hw⟩ | ⟨q, hw⟩
    · refine hkeep ?_ hlost (polled_queues _ _ _ _).2.1 ?_
      · rw [hstep]
        simp only [hw]
      · rw [hw, hraises]
        rfl
    · refine hkeep ?_ hlost (polled_queues _ _ _ _).2.1 ?_
      · rw [hstep]
        simp only [hw]
      · rw [hw, hraises]
        rfl
    · rw [hstep, hlost]
      simp only [hw]
      refine ⟨Ledger.make_moves hnone, fun _ => ⟨?_, ?_, hb.taken⟩⟩
      · show l.queue.Aligned (s.world.polled input.time h outcome).host.eventQueue
        rw [(polled_queues _ _ _ _).2.1]
        exact hb.aligned
      · show _ = (s.world.polled input.time h outcome).worker.any WorkerPc.raises
        rw [hw]
        rfl
  cases hs with
  | service hh =>
    exact hpoll (fun u => by rw [eventStep, hpc]) (by rw [losesEvent, hpc]) rfl
  | check hh =>
    exact hpoll (fun u => by rw [eventStep, hpc]) (by rw [losesEvent, hpc]) rfl
  | refused hf =>
    rw [eventStep, losesEvent, hpc]
    simp only [hf, if_true]
    exact ⟨Ledger.abandon_moves hhand, fun _ => ⟨hb.aligned, rfl, hb.taken⟩⟩
  | pushTest hf =>
    refine hkeep ?_ ?_ rfl rfl
    · rw [eventStep, hpc]
      simp only [hf, Bool.false_eq_true, if_false]
    · rw [losesEvent, hpc]
      exact hf
  | pushWrite =>
    obtain ⟨i, hi⟩ := Option.isSome_iff_exists.mp hhand
    have hroom : l.queue.isFull = false := by
      rw [hb.aligned.isFull]
      refine hq.events.room ?_
      rw [World.pushing, hpc]
      trivial
    rw [eventStep, losesEvent, hpc]
    refine ⟨Ledger.write_moves (hb.aligned.valid hq.events.valid) hroom, fun _ => ?_⟩
    simp only [Ledger.write, hi]
    exact ⟨hb.aligned.write _ _, rfl, hb.taken⟩
  | fails hf =>
    have hlost : losesEvent s (.worker input) = false ∧
        ∀ f, eventStep s l { s with world := s.world.fail f } (.worker input) = l := by
      unfold losesEvent eventStep
      simp only [World.fail_worker, hpc]
      cases hf <;> exact ⟨rfl, fun _ => rfl⟩
    rw [hlost.1, hlost.2]
    exact ⟨.refl l, fun h => by cases h⟩
  | _ => exact hkeep (by rw [eventStep, hpc]; rfl) (by rw [losesEvent, hpc]) rfl rfl

theorem go_eventBook {env : Env} {pc : GamePc} {w : World} {g : Game} (hq : Queues s)
    (hl : Life s) (hpc : s.game.pc = pc) (hs : GoStep gameThread s.world s.game env pc w g)
    (hb : EventBook s l) :
    Ledger.Moves l (eventStep s l ⟨w, g⟩ (.game (.go env))) 0 ∧
      (w.fault = none → EventBook ⟨w, g⟩ (eventStep s l ⟨w, g⟩ (.game (.go env)))) := by
  have hkeep : ∀ {x : World} {y : Game}, eventStep s l ⟨x, y⟩ (.game (.go env)) = l →
      x.host.eventQueue = s.world.host.eventQueue →
      x.worker.any WorkerPc.raises = s.world.worker.any WorkerPc.raises →
      Ledger.Moves l (eventStep s l ⟨x, y⟩ (.game (.go env))) 0 ∧
        (x.fault = none → EventBook ⟨x, y⟩ (eventStep s l ⟨x, y⟩ (.game (.go env)))) := by
    intro x y hl hx hw
    rw [hl]
    refine ⟨.refl l, fun _ => ⟨?_, hb.hand.trans hw.symm, hb.taken⟩⟩
    show l.queue.Aligned x.host.eventQueue
    rw [hx]
    exact hb.aligned
  cases hs with
  | popRead =>
    have hitem : l.queue.isEmpty = false := by
      rw [hb.aligned.isEmpty]
      refine hq.events.item ?_
      rw [hpc]
      trivial
    rw [eventStep, hpc]
    refine ⟨?_, fun _ => ⟨hb.aligned.read, hb.hand, rfl⟩⟩
    exact (Ledger.read_moves (hb.aligned.valid hq.events.valid) hitem hb.taken).trans
      (Ledger.give_moves l.read)
  | unbindEvents =>
    rw [eventStep, hpc]
    exact ⟨Ledger.clear_moves (hb.aligned.valid hq.events.valid),
      fun _ => ⟨hb.aligned.clear, hb.hand, hb.taken⟩⟩
  | bindThread =>
    have hnone := hl.worker_none (by rw [hpc]; rfl) rfl
    refine hkeep (by rw [eventStep, hpc]) rfl ?_
    rw [hnone]
    rfl
  | unbindWait hw =>
    refine hkeep (by rw [eventStep, hpc]) rfl ?_
    rw [hw]
    rfl
  | fails hf =>
    refine ⟨?_, fun h => by cases h⟩
    rw [eventStep, hpc]
    cases hf <;> exact .refl l
  | _ => exact hkeep (by rw [eventStep, hpc]) rfl rfl

theorem event_step (hr : system.Reachable s) (hb : EventBook s l)
    (h : system.step s a = some t) :
    Ledger.Moves l (eventStep s l t a) (losesEvent s a).toNat ∧
      (t.world.fault = none → EventBook t (eventStep s l t a)) := by
  cases (step_cases h).2 with
  | worker hpc hs => exact worker_eventBook (queues hr) hpc hs hb
  | go hs => exact go_eventBook (queues hr) (life hr) rfl hs hb
  | call hpc hp hs =>
    obtain ⟨_, hq, hw, _, _⟩ := call_queues hs hpc
    refine ⟨.refl l, fun _ => ⟨?_, ?_, hb.taken⟩⟩
    · rw [hq]
      exact hb.aligned
    · rw [hw]
      exact hb.hand

/-! ## A host with its objects -/

structure Account where
  state : State
  messages : Ledger queueSize
  events : Ledger queueSize
  destroyed : Bool

inductive AccountAction where
  | act (a : Action)
  | destroy

namespace Account

/-- A host may be destroyed while it is unbound, and its queues go with it. -/
def step (c : Account) : AccountAction → Option Account
  | .act a =>
    if c.destroyed then none
    else (system.step c.state a).map fun t =>
      ⟨t, messageStep c.state c.messages a, eventStep c.state c.events t a, false⟩
  | .destroy =>
    if c.destroyed = false ∧ c.state.world.fault = none ∧ c.state.game.pc = .idle ∧
        c.state.world.host.enetHost = none then
      some ⟨c.state, c.messages.destroy, c.events.destroy, true⟩
    else none

def machine : Machine Account AccountAction where
  start c := system.start c.state ∧ (∃ memory, c.messages = .create memory) ∧
    (∃ memory, c.events = .create memory) ∧ c.destroyed = false
  step := step

/-- No push of the step finds its queue full, and no second `encode_variant` fails. -/
def Keeps (c : Account) : AccountAction → Prop
  | .act a => losesMessage c.state a = false ∧ losesEvent c.state a = false
  | .destroy => True

instance (c : Account) (b : AccountAction) : Decidable (c.Keeps b) :=
  match b with
  | .act a => inferInstanceAs (Decidable (losesMessage c.state a = false ∧
      losesEvent c.state a = false))
  | .destroy => .isTrue trivial

/-- No thread is in the middle of a call that has an object in its hands. -/
structure BetweenCalls (c : Account) : Prop where
  fault : c.state.world.fault = none
  game : c.state.game.pc = .idle
  worker : ∀ pc, c.state.world.worker = some pc → pc.hands = false ∧ pc.raises = false

structure Books (c : Account) : Prop where
  reachable : system.Reachable c.state
  messages : c.messages.InCustody
  events : c.events.InCustody
  messageBook : c.destroyed = false → c.state.world.fault = none →
    MessageBook c.state c.messages
  eventBook : c.destroyed = false → c.state.world.fault = none → EventBook c.state c.events
  closed : c.destroyed = true → (c.messages.hand = none ∧ c.messages.taken = none ∧
    c.messages.returned = []) ∧ c.events.hand = none ∧ c.events.taken = none

def missing (c : Account) : Nat := c.messages.missing + c.events.missing

theorem start_books {c : Account} (h : machine.start c) : Books c ∧ c.missing = 0 := by
  obtain ⟨hs, ⟨memory, hm⟩, ⟨memory', he⟩, hd⟩ := h
  obtain ⟨events, messages, hstate⟩ := hs
  refine ⟨⟨.start ⟨_, _, hstate⟩, ?_, ?_, fun _ _ => ?_, fun _ _ => ?_, fun h => ?_⟩, ?_⟩
  · rw [hm]
    exact Custody.zero
  · rw [he]
    exact Custody.zero
  · rw [hm, hstate]
    exact ⟨⟨rfl, rfl⟩, rfl, rfl, rfl⟩
  · rw [he, hstate]
    exact ⟨⟨rfl, rfl⟩, rfl, rfl⟩
  · rw [hd] at h
    cases h
  · rw [missing, hm, he]
    rfl

/-- Nothing is left of a host that is unbound. -/
theorem unbound_empty (hr : system.Reachable s) (hpc : s.game.pc = .idle) 
    (hh : s.world.host.enetHost = none) :
    s.world.worker = none ∧ s.world.host.messageQueue.pending = [] ∧
      s.world.host.eventQueue.pending = [] := by
  have hl := life hr
  unfold Life Fits at hl
  rw [hpc] at hl
  have hw : s.world.worker = none := by
    rcases hl with hx | hx
    · have hsome := congrArg Shape.enetHost hx
      rw [World.shape, hh] at hsome
      cases hsome
    · exact worker_none (by rw [hx]; rfl)
  obtain ⟨hm, he⟩ := cleared hr hw
  rw [hpc] at hm he
  exact ⟨hw, hm id, he id⟩

theorem destroy_books {c t : Account} (hb : Books c) (h : machine.step c .destroy = some t) :
    Books t ∧ t.missing = c.missing := by
  change c.step .destroy = some t at h
  rw [step] at h
  obtain ⟨⟨hd, hf, hpc, hh⟩, ht⟩ := Option.ite_none_right_eq_some.mp h
  obtain rfl := Option.some.inj ht
  obtain ⟨hw, hm, he⟩ := unbound_empty hb.reachable hpc hh
  have hbook := hb.messageBook hd hf
  have hbook' := hb.eventBook hd hf
  have hmoves := Ledger.destroy_moves (hbook.aligned.pending_nil hm)
  have hmoves' := Ledger.destroy_moves (hbook'.aligned.pending_nil he)
  refine ⟨⟨hb.reachable, hmoves.custody hb.messages, hmoves'.custody hb.events,
    fun h => (by cases h), fun h => (by cases h),
    fun _ => ⟨⟨?_, ?_, hbook.returned⟩, ?_, ?_⟩⟩, ?_⟩
  · exact none_of_isSome (hbook.hand.trans (by rw [hpc]; rfl))
  · exact none_of_isSome (hbook.taken.trans (by rw [hw]; rfl))
  · exact none_of_isSome (hbook'.hand.trans (by rw [hw]; rfl))
  · exact hbook'.taken
  · show c.messages.destroy.missing + c.events.destroy.missing = _
    rw [hmoves.missing hb.messages, hmoves'.missing hb.events]
    rfl

/-- A step misses an object more exactly if it loses one. -/
theorem act_books {c t : Account} (hb : Books c) (h : machine.step c (.act a) = some t) :
    Books t ∧ t.missing =
      c.missing + (losesMessage c.state a).toNat + (losesEvent c.state a).toNat := by
  change c.step (.act a) = some t at h
  rw [step] at h
  split at h
  · cases h
  · next hd =>
    obtain ⟨u, hu, rfl⟩ := Option.map_eq_some_iff.mp h
    have hd' := Bool.eq_false_iff.mpr hd
    have hf := (step_cases hu).1
    obtain ⟨hmoves, hbook⟩ := message_step hb.reachable (hb.messageBook hd' hf) hu
    obtain ⟨hmoves', hbook'⟩ := event_step hb.reachable (hb.eventBook hd' hf) hu
    refine ⟨⟨hb.reachable.step hu, hmoves.custody hb.messages, hmoves'.custody hb.events,
      fun _ => hbook, fun _ => hbook', fun h => (by cases h)⟩, ?_⟩
    show (messageStep _ _ _).missing + (eventStep _ _ _ _).missing = _
    rw [hmoves.missing hb.messages, hmoves'.missing hb.events, missing]
    omega

theorem step_books (c : Account) (b : AccountAction) (t : Account) (hb : Books c)
    (h : machine.step c b = some t) :
    Books t ∧ c.missing ≤ t.missing ∧ (t.missing = c.missing ↔ Keeps c b) := by
  cases b with
  | act a =>
    obtain ⟨hbt, hm⟩ := act_books hb h
    refine ⟨hbt, by omega, ?_⟩
    rw [hm, Keeps]
    cases losesMessage c.state a <;> cases losesEvent c.state a <;> simp
    omega
  | destroy =>
    obtain ⟨hbt, hm⟩ := destroy_books hb h
    exact ⟨hbt, Nat.le_of_eq hm.symm, iff_of_true hm trivial⟩

/-- Between calls the threads have no object in their hands. -/
theorem Books.hands {c : Account} (hb : Books c) (h : c.BetweenCalls) :
    (c.messages.hand = none ∧ c.messages.taken = none ∧ c.messages.returned = []) ∧
      c.events.hand = none ∧ c.events.taken = none := by
  cases hd : c.destroyed with
  | true => exact hb.closed hd
  | false =>
    have hbook := hb.messageBook hd h.fault
    have hbook' := hb.eventBook hd h.fault
    have hworker : c.state.world.worker.any WorkerPc.hands = false ∧
        c.state.world.worker.any WorkerPc.raises = false := by
      cases hw : c.state.world.worker with
      | none => exact ⟨rfl, rfl⟩
      | some pc => exact h.worker pc hw
    refine ⟨⟨none_of_isSome ?_, none_of_isSome ?_, hbook.returned⟩, none_of_isSome ?_,
      hbook'.taken⟩
    · rw [hbook.hand, h.game]
      rfl
    · rw [hbook.taken, hworker.1]
    · rw [hbook'.hand, hworker.2]

theorem accounted_iff {c t : Account} {as : List AccountAction} (hs : machine.start c)
    (hr : machine.run c as = some t) (hb : t.BetweenCalls) :
    t.messages.Accounted ∧ t.events.Accounted ↔ machine.Along Keeps c as := by
  obtain ⟨hbooks, hzero⟩ := start_books hs
  have ht : Books t := Machine.run_invariant (fun u b v hu hv => (step_books u b v hu hv).1) hbooks
    hr
  obtain ⟨_, hkeeps⟩ := Machine.run_measure step_books hbooks hr
  obtain ⟨⟨hhand, htaken, _⟩, hhand', htaken'⟩ := ht.hands hb
  rw [← hkeeps, ht.messages.accounted_iff hhand htaken, ht.events.accounted_iff hhand' htaken',
    hzero, missing]
  omega

/-- Between calls no object is pending, deleted or returned twice, and every object
is one of these exactly if no push has found its queue full and no second
`encode_variant` has failed. -/
theorem objects_accounted {c t : Account} {as : List AccountAction} (hs : machine.start c)
    (hr : machine.run c as = some t) (hb : t.BetweenCalls) :
    t.messages.settled.Nodup ∧ t.events.settled.Nodup ∧ t.messages.returned = [] ∧
      (t.messages.Accounted ∧ t.events.Accounted ↔ machine.Along Keeps c as) := by
  have ht : Books t := Machine.run_invariant (fun u b v hu hv => (step_books u b v hu hv).1)
    (start_books hs).1 hr
  obtain ⟨⟨hhand, htaken, hreturned⟩, hhand', htaken'⟩ := ht.hands hb
  have hnodup := Custody.nodup ht.messages
  have hnodup' := Custody.nodup ht.events
  rw [Ledger.places_settled hhand htaken] at hnodup
  rw [Ledger.places_settled hhand' htaken'] at hnodup'
  exact ⟨hnodup, hnodup', hreturned, accounted_iff hs hr hb⟩

def fresh : Account := ⟨.fresh, .create fun _ => 0, .create fun _ => 0, false⟩

theorem fresh_starts : machine.start fresh := ⟨fresh_start, ⟨_, rfl⟩, ⟨_, rfl⟩, rfl⟩

/-- A message is broadcast in a new session, and then the host thread hands it over. -/
def broadcastActions : List AccountAction :=
  (boundRun ++
    [Action.game (.call (.broadcastPacket [7] 0 0) {}), .game (.go {}), .game (.go {})] ++
    List.replicate 8 (Action.worker {})).map .act

theorem objects_accounted_broadcast :
    ∃ t, machine.run fresh broadcastActions = some t ∧ t.messages.made = 1 ∧
      t.messages.deleted = [0] ∧ t.messages.Accounted := by
  have hr : (machine.run fresh broadcastActions).isSome := by rfl
  obtain ⟨t, ht⟩ := Option.isSome_iff_exists.mp hr
  have hmap : (machine.run fresh broadcastActions).map (fun t => (t.messages.made,
      t.messages.deleted, t.state.world.fault, t.state.game.pc, t.state.world.worker)) =
        some (1, [0], none, .idle, some .isEmpty) := by rfl
  rw [ht, Option.map_some, Option.some.injEq, Prod.mk.injEq, Prod.mk.injEq, Prod.mk.injEq,
    Prod.mk.injEq] at hmap
  obtain ⟨hmade, hdeleted, hf, hpc, hw⟩ := hmap
  refine ⟨t, ht, hmade, hdeleted, ((objects_accounted fresh_starts ht ⟨hf, hpc, ?_⟩).2.2.2.mpr
    (by decide)).1⟩
  intro pc hpc'
  obtain rfl := Option.some.inj (hw.symm.trans hpc')
  exact ⟨rfl, rfl⟩

/-! ## A push that is refused -/

/-- A step of the system is a step of the account. -/
theorem act_run {c : Account} {as : List Action} {t : State} (hd : c.destroyed = false)
    (hr : system.run c.state as = some t) :
    ∃ d, machine.run c (as.map .act) = some d ∧ d.state = t ∧ d.destroyed = false := by
  induction as generalizing c with
  | nil =>
    obtain rfl : c.state = t := Option.some.inj hr
    exact ⟨c, rfl, rfl, hd⟩
  | cons a as ih =>
    obtain ⟨u, hu, hr⟩ := Machine.run_cons.mp hr
    let e : Account := ⟨u, messageStep c.state c.messages a, eventStep c.state c.events u a, false⟩
    have he : machine.step c (.act a) = some e := by
      show c.step (.act a) = some e
      rw [step, hd, hu]
      rfl
    obtain ⟨d, hrun, hstate, hd'⟩ := ih (c := e) rfl hr
    exact ⟨d, Machine.run_cons.mpr ⟨e, he, hrun⟩, hstate, hd'⟩

/-- The host thread is about to test whether it goes on, and the game thread to call. -/
structure Quiet (s : State) : Prop where
  fault : s.world.fault = none
  game : s.game.pc = .idle
  worker : s.world.worker = some .loopTest
  bound : s.world.host.enetHost.isSome
  valid : s.world.host.messageQueue.Valid

theorem Quiet.call (h : Quiet s) :
    ∃ g m, system.step s (.game (.call (.broadcastPacket [7] 0 0) {})) = some ⟨s.world, g⟩ ∧
      g.pc = .pushTest m := by
  have hcall : system.step s (.game (.call (.broadcastPacket [7] 0 0) {})) = _ :=
    call_step h.fault h.game rfl
  simp only [startCall, h.bound, if_true] at hcall
  exact ⟨_, _, hcall, rfl⟩

/-- A message that finds room is pushed. -/
theorem Quiet.push (h : Quiet s) (hf : s.world.host.messageQueue.isFull = false) :
    ∃ as t, system.run s as = some t ∧ Quiet t ∧
      t.world.host.messageQueue.pending.length = s.world.host.messageQueue.pending.length + 1 := by
  obtain ⟨g, m, hcall, hpc⟩ := h.call
  have h₂ : system.step ⟨s.world, g⟩ (.game (.go {})) = some ⟨s.world, g.goto (.pushWrite m)⟩ := by
    refine go_step h.fault hpc ?_
    show some (s.world, g.goto (if s.world.host.messageQueue.isFull then .idle else _)) = _
    rw [hf]
    rfl
  let q := s.world.host.messageQueue.write (s.world.queuedMessage g.since m)
  have h₃ : system.step ⟨s.world, g.goto (.pushWrite m)⟩ (.game (.go {})) =
      some ⟨s.world.setMessages q, g.goto .idle⟩ :=
    go_step h.fault rfl rfl
  refine ⟨[_, _, _], ⟨s.world.setMessages q, g.goto .idle⟩, Machine.run_cons.mpr ⟨_, hcall,
    Machine.run_cons.mpr ⟨_, h₂, Machine.run_single.mpr h₃⟩⟩,
    ⟨h.fault, rfl, h.worker, h.bound, h.valid.write_valid _⟩, ?_⟩
  show q.pending.length = _
  rw [h.valid.pending_write _ hf, List.length_append, List.length_singleton]

theorem Quiet.fill : ∀ (n : Nat) {s : State}, Quiet s →
    s.world.host.messageQueue.pending.length + n + 1 = queueSize →
    ∃ as t, system.run s as = some t ∧ Quiet t ∧ t.world.host.messageQueue.isFull = true := by
  intro n
  induction n with
  | zero => exact fun h hlen => ⟨[], _, rfl, h, h.valid.isFull_iff.mpr hlen⟩
  | succ n ih =>
    intro s h hlen
    have hroom : s.world.host.messageQueue.isFull = false := by
      rw [Bool.eq_false_iff, Ne, h.valid.isFull_iff]
      omega
    obtain ⟨as, t, has, ht, hlen'⟩ := h.push hroom
    obtain ⟨bs, u, hbs, hu⟩ := ih ht (by omega)
    exact ⟨as ++ bs, u, Machine.run_append.mpr ⟨t, has, hbs⟩, hu⟩

/-- A new session, before the first step of the host thread. -/
def ready : State := (system.run .fresh boundRun).getD .fresh

/-- With 1023 messages pending, one more is made and lost. -/
theorem refused_message :
    ∃ (c t : Account) (as : List AccountAction), machine.start c ∧ machine.run c as = some t ∧
      t.BetweenCalls ∧ ¬(t.messages.Accounted ∧ t.events.Accounted) := by
  have hquiet : Quiet ready := ⟨by rfl, by rfl, by rfl, by rfl, ⟨by decide, by decide⟩⟩
  obtain ⟨bs, s, hbs, hs, hfull⟩ := hquiet.fill 1023 (by rfl)
  obtain ⟨g, m, hcall, hpc⟩ := hs.call
  have hready : system.run .fresh boundRun = some ready := by rfl
  have hmade := Machine.run_append.mpr ⟨_, hready,
    Machine.run_append.mpr ⟨s, hbs, Machine.run_single.mpr hcall⟩⟩
  have hlost : system.step ⟨s.world, g⟩ (.game (.go {})) = some ⟨s.world, g.goto .idle⟩ := by
    refine go_step hs.fault hpc ?_
    show some (s.world, g.goto (if s.world.host.messageQueue.isFull then .idle else _)) = _
    rw [hfull]
    rfl
  obtain ⟨d, hd, hstate, hopen⟩ := act_run (c := fresh) rfl hmade
  rw [← hstate] at hlost
  obtain ⟨t, ht, htstate, _⟩ := act_run hopen (Machine.run_single.mpr hlost)
  have hrun := Machine.run_append.mpr ⟨d, hd, ht⟩
  have hbetween : t.BetweenCalls := by
    refine ⟨?_, ?_, fun pc hpc' => ?_⟩
    · rw [htstate]
      exact hs.fault
    · rw [htstate]
      rfl
    · rw [htstate] at hpc'
      obtain rfl := Option.some.inj (hs.worker.symm.trans hpc')
      exact ⟨rfl, rfl⟩
  refine ⟨fresh, t, _, fresh_starts, hrun, hbetween, ?_⟩
  rw [accounted_iff fresh_starts hrun hbetween, Machine.along_append hd]
  rintro ⟨_, hkeeps, _⟩
  have hkept : losesMessage d.state (.game (.go {})) = false := hkeeps.1
  rw [hstate, losesMessage] at hkept
  simp only [hpc, hfull] at hkept
  cases hkept

end Account
end GDNet
