import GDNet.Host.Game
import GDNet.Transition.Machine

/-!
# One game thread and the host thread

The machine every property of the wrapper is about, and its life cycle: which of
the fields of a host are set at each point of `bind` and `unbind`.  Between calls
a host is bound, with everything in place and its thread started, or unbound,
with nothing left.
-/

namespace GDNet

open Transition

structure State where
  world : World
  game : Game

inductive Action where
  | worker (input : WorkerInput)
  | game (input : GameInput)

/-- The constructor of `GDNetHost`; the cells of the queues hold what memory did. -/
def Host.create (events : Nat → QueuedEvent) (messages : Nat → QueuedMessage) : Host where
  enetHost := none
  running := false
  thread := false
  accessMutex := none
  hostMutex := none
  maxPeers := 32
  maxChannels := 1
  eventQueue := Queue.create events
  messageQueue := Queue.create messages

def State.initial (events : Nat → QueuedEvent) (messages : Nat → QueuedMessage) : State where
  world := { host := Host.create events messages, worker := none, session := 0, fault := none }
  game := { pc := .idle, handles := [], since := 0 }

/-- A new host in memory set to zero. -/
def State.fresh : State :=
  State.initial (fun _ => ⟨{}, ⟨0, ⟨.connect, 0, 0, 0, none, 0, ⟨0, 0⟩⟩⟩⟩)
    fun _ => ⟨⟨.unsequenced, false, 0, 0, []⟩, ⟨0, none⟩⟩

/-- The one game thread. -/
def gameThread : Thread := .game 0

def step (s : State) (a : Action) : Option State :=
  match s.world.fault, a with
  | some _, _ => none
  | none, .worker input => (workerStep s.world input).map fun w => { s with world := w }
  | none, .game input => (gameStep gameThread s.world s.game input).map fun r => ⟨r.1, r.2⟩

def system : Machine State Action where
  start s := ∃ events messages, s = State.initial events messages
  step := step

theorem fresh_start : system.start State.fresh := ⟨_, _, rfl⟩

/-- A step of the system by the thread that takes it. -/
inductive Step (s : State) : Action → State → Prop
  | worker {input : WorkerInput} {pc : WorkerPc} {w : World} (hpc : s.world.worker = some pc)
      (hs : WorkerStep s.world input pc w) : Step s (.worker input) { s with world := w }
  | call {c : Call} {env : Env} {w : World} {g : Game} (hpc : s.game.pc = .idle)
      (hp : c.peer.all (· ∈ s.game.handles))
      (hs : CallStep s.world { s.game with since := s.world.session } env c w g) :
      Step s (.game (.call c env)) ⟨w, g⟩
  | go {env : Env} {w : World} {g : Game}
      (hs : GoStep gameThread s.world s.game env s.game.pc w g) :
      Step s (.game (.go env)) ⟨w, g⟩

theorem step_cases {s t : State} {a : Action} (h : system.step s a = some t) :
    s.world.fault = none ∧ Step s a t := by
  change step s a = some t at h
  unfold step at h
  cases hf : s.world.fault with
  | some f => rw [hf] at h; cases h
  | none =>
    rw [hf] at h
    refine ⟨rfl, ?_⟩
    cases a with
    | worker input =>
      obtain ⟨w, hw, rfl⟩ := Option.map_eq_some_iff.mp h
      obtain ⟨pc, hpc, hs⟩ := workerStep_cases hw
      exact .worker hpc hs
    | game input =>
      obtain ⟨r, hr, rfl⟩ := Option.map_eq_some_iff.mp h
      rcases gameStep_cases hr with ⟨c, env, rfl, hpc, hp, hs⟩ | ⟨env, rfl, hs⟩
      · exact .call hpc hp hs
      · exact .go hs

/-! ## The life cycle -/

/-- Which of the fields of a host are set. -/
structure Shape where
  enetHost : Bool
  running : Bool
  thread : Bool
  accessMutex : Bool
  hostMutex : Bool
  worker : Bool
deriving DecidableEq

def World.shape (w : World) : Shape :=
  ⟨w.host.enetHost.isSome, w.host.running, w.host.thread, w.host.accessMutex.isSome,
    w.host.hostMutex.isSome, w.worker.isSome⟩

def Shape.bound : Shape := ⟨true, true, true, true, true, true⟩

def Shape.unbound : Shape := ⟨false, false, false, false, false, false⟩

/-- The shape that a point of a call leaves no choice about. -/
def GamePc.shape : GamePc → Option Shape
  | .idle => none
  | .addressHost _ _ => some .bound
  | .popTest => none
  | .popRead => none
  | .bindRunning => some ⟨true, false, false, false, false, false⟩
  | .bindAccess => some ⟨true, true, false, false, false, false⟩
  | .bindHost => some ⟨true, true, false, true, false, false⟩
  | .bindThread => some ⟨true, true, false, true, true, false⟩
  | .bindAssign => some ⟨true, true, false, true, true, true⟩
  | .unbindRunning => some .bound
  | .unbindWait => some ⟨true, false, true, true, true, true⟩
  | .unbindThread => some ⟨true, false, true, true, true, false⟩
  | .unbindAccess => some ⟨true, false, false, true, true, false⟩
  | .unbindHost => some ⟨true, false, false, false, true, false⟩
  | .unbindFlush => some ⟨true, false, false, false, false, false⟩
  | .unbindDestroy => some ⟨true, false, false, false, false, false⟩
  | .unbindMessages => some .unbound
  | .unbindEvents => some .unbound
  | _ => some .bound

/-- The shape is the one of the point the game thread is at. -/
def Fits (w : World) (pc : GamePc) : Prop :=
  match pc.shape with
  | some shape => w.shape = shape
  | none => w.shape = .bound ∨ w.shape = .unbound

def Life (s : State) : Prop := Fits s.world s.game.pc

theorem goto_shape {w : World} {pc pc' : WorkerPc} (h : w.worker = some pc) :
    (w.goto pc').shape = w.shape := by
  simp [World.shape, h]

@[simp] theorem fail_shape (w : World) (f : Fault) : (w.fail f).shape = w.shape := rfl

theorem setENet_shape {w : World} {h h' : ENet.Host} (hh : w.host.enetHost = some h) :
    (w.setENet h').shape = w.shape := by
  simp [World.shape, World.setENet, hh]

@[simp] theorem setMessages_shape (w : World) (q : Queue QueuedMessage queueSize) :
    (w.setMessages q).shape = w.shape := rfl

@[simp] theorem setEvents_shape (w : World) (q : Queue QueuedEvent queueSize) :
    (w.setEvents q).shape = w.shape := rfl

theorem grant_shape {w : World} {t : Thread} {which : Which} (h : w.host.mutex which ≠ none) :
    (w.grant t which).shape = w.shape := by
  cases which <;>
    simp_all [World.shape, World.grant, Host.setMutex, Host.mutex, Option.isSome_iff_ne_none]

theorem release_shape {w : World} {which : Which} (h : w.host.mutex which ≠ none) :
    (w.release which).shape = w.shape := by
  cases which <;>
    simp_all [World.shape, World.release, Host.setMutex, Host.mutex, Option.isSome_iff_ne_none]

theorem worker_shape {w w' : World} {input : WorkerInput} {pc : WorkerPc}
    (hpc : w.worker = some pc) (hs : WorkerStep w input pc w') : w'.shape = w.shape := by
  have hpolled : ∀ {h h' : ENet.Host} {outcome : ENet.ServiceOutcome},
      w.host.enetHost = some h → (w.polled input.time h' outcome).shape = w.shape := by
    intro h h' outcome hh
    have hw : (w.setENet h').worker = some pc := hpc
    unfold World.polled
    split <;> rw [goto_shape hw, setENet_shape hh]
  cases hs with
  | enter hr => exact goto_shape hpc
  | leave hr => exact goto_shape hpc
  | lockAccess hm =>
    refine (goto_shape (w := w.grant .host .access) hpc).trans (grant_shape ?_)
    simp [Host.mutex, hm]
  | lockHost hm =>
    refine (goto_shape (w := w.grant .host .host) hpc).trans (grant_shape ?_)
    simp [Host.mutex, hm]
  | unlockAccess hm =>
    exact (goto_shape (w := w.release .access) hpc).trans (release_shape hm)
  | drained he => exact goto_shape hpc
  | more he => exact goto_shape hpc
  | popTest he => exact goto_shape hpc
  | popRead => exact goto_shape (w := w.setMessages _) hpc
  | handing hh ho =>
    exact (goto_shape (w := w.setENet _) hpc).trans (setENet_shape hh)
  | poll => exact goto_shape hpc
  | service hh => exact hpolled hh
  | refused hf => exact goto_shape hpc
  | pushTest hf => exact goto_shape hpc
  | pushWrite => exact goto_shape (w := w.setEvents _) hpc
  | check hh => exact hpolled hh
  | unlockHost hm =>
    exact (goto_shape (w := w.release .host) hpc).trans (release_shape hm)
  | fails hf => rfl

/-- A point of a call that needs a bound host keeps it until the call returns. -/
theorem Fits.of_shape {w w' : World} {pc pc' : GamePc} (h : Fits w pc) (hw : w'.shape = w.shape)
    (hp : pc.shape = some .bound) (hp' : pc'.shape = some .bound ∨ pc'.shape = none) :
    Fits w' pc' := by
  have hb : w'.shape = .bound := by
    rw [hw]
    simpa [Fits, hp] using h
  rcases hp' with e | e
  · simpa [Fits, e] using hb
  · simpa [Fits, e] using Or.inl hb

/-- An assignment of `bind` or `unbind` leads from the shape of one point to that
of the next. -/
theorem Fits.assign {w w' : World} {pc pc' : GamePc} {x x' : Shape} (h : Fits w pc)
    (hp : pc.shape = some x) (hp' : pc'.shape = some x') (hw : w.shape = x → w'.shape = x') :
    Fits w' pc' := by
  have hx : w.shape = x := by simpa [Fits, hp] using h
  simpa [Fits, hp'] using hw hx

theorem go_life {me : Thread} {w w' : World} {g g' : Game} {env : Env} {pc : GamePc}
    (hg : g.pc = pc) (hl : Fits w pc) (hs : GoStep me w g env pc w' g') : Fits w' g'.pc := by
  cases hs with
  | lockAccess hm =>
    exact hl.of_shape (grant_shape (by simp [Host.mutex, hm])) rfl (Or.inl rfl)
  | lockHost hm => exact hl.of_shape (grant_shape (by simp [Host.mutex, hm])) rfl (Or.inl rfl)
  | unlockAccess hm => exact hl.of_shape (release_shape hm) rfl (Or.inl rfl)
  | inside hp => exact hl.of_shape (setENet_shape (World.live_eq hp).1) rfl (Or.inl rfl)
  | unlockHost hm => exact hl.of_shape (release_shape hm) rfl (Or.inr rfl)
  | addressHost hp => exact hl.of_shape rfl rfl (Or.inr rfl)
  | noSlot => exact hl.of_shape rfl rfl (Or.inr rfl)
  | searching hh hi => exact hl.of_shape rfl rfl (Or.inl rfl)
  | unclaimed => exact hl.of_shape rfl rfl (Or.inr rfl)
  | found hh hc => exact hl.of_shape (setENet_shape hh) rfl (Or.inr rfl)
  | notEncoded => exact hl.of_shape rfl rfl (Or.inr rfl)
  | sending => exact hl.of_shape rfl rfl (Or.inl rfl)
  | refused hf => exact hl.of_shape rfl rfl (Or.inr rfl)
  | pushTest hf => exact hl.of_shape rfl rfl (Or.inl rfl)
  | pushWrite => exact hl.of_shape rfl rfl (Or.inr rfl)
  | noEvent he => exact hl
  | popTest he => exact hl
  | popRead => exact hl
  | bindRunning => exact hl.assign rfl rfl fun h => by simp_all [World.shape]
  | bindAccess => exact hl.assign rfl rfl fun h => by simp_all [World.shape]
  | bindHost => exact hl.assign rfl rfl fun h => by simp_all [World.shape]
  | bindThread => exact hl.assign rfl rfl fun h => by simp_all [World.shape]
  | bindAssign =>
    have hx : w.shape = ⟨true, true, false, true, true, true⟩ := hl
    refine Or.inl ?_
    simp_all [World.shape, Shape.bound]
  | unbindRunning => exact hl.assign rfl rfl fun h => by simp_all [World.shape, Shape.bound]
  | unbindWait hw => exact hl.assign rfl rfl fun h => by simp_all [World.shape]
  | unbindThread => exact hl.assign rfl rfl fun h => by simp_all [World.shape]
  | unbindAccess => exact hl.assign rfl rfl fun h => by simp_all [World.shape]
  | unbindHost => exact hl.assign rfl rfl fun h => by simp_all [World.shape]
  | unbindFlush hh => exact hl.assign rfl rfl fun h => by rw [setENet_shape hh, h]
  | unbindDestroy => exact hl.assign rfl rfl fun h => by simp_all [World.shape, Shape.unbound]
  | unbindMessages => exact hl.assign rfl rfl id
  | unbindEvents => exact Or.inr hl
  | fails hf => rw [hg]; exact hl

theorem bound_of_host {w : World} (hl : w.shape = .bound ∨ w.shape = .unbound)
    (hb : w.host.enetHost.isSome) : w.shape = .bound := by
  rcases hl with h | h
  · exact h
  · have := congrArg Shape.enetHost h
    simp [World.shape, Shape.unbound] at this
    simp [this] at hb

theorem call_life {w w' : World} {g g' : Game} {env : Env} {c : Call} (hg : g.pc = .idle)
    (hl : w.shape = .bound ∨ w.shape = .unbound) (hs : CallStep w g env c w' g') :
    Fits w' g'.pc := by
  have hlive : ∀ {p : PeerPtr} {h : ENet.Host}, w.live p = some h → w.host.enetHost.isSome := by
    intro p h hp
    rw [(World.live_eq hp).1]
    rfl
  cases hs with
  | returns => rw [hg]; exact hl
  | bind hn hc =>
    have hx : w.shape = .unbound := by
      rcases hl with h | h
      · have := congrArg Shape.enetHost h
        simp [World.shape, Shape.bound, hn] at this
      · exact h
    show World.shape _ = _
    simp_all [World.shape, World.setENet, Shape.unbound]
  | unbind hb => exact bound_of_host hl hb
  | setMaxPeers => rw [hg]; exact hl
  | setMaxChannels => rw [hg]; exact hl
  | getPeer hh hi => rw [Game.obtain_pc, hg]; exact hl
  | connect hb hr => exact bound_of_host hl hb
  | nullAddress => rw [hg]; exact hl
  | broadcast hb hm hc => exact bound_of_host hl hb
  | getEvent => exact hl
  | getAddress hp => exact bound_of_host hl (hlive hp)
  | danglingPeer hc hp => rw [hg]; exact hl
  | locked hb => exact bound_of_host hl hb
  | send hb hp hm => exact bound_of_host hl hb

theorem step_life {s t : State} {a : Action} (hl : Life s) (h : Step s a t) : Life t := by
  cases h with
  | worker hpc hs =>
    have hw := worker_shape hpc hs
    unfold Life Fits at hl ⊢
    simp only [hw]
    exact hl
  | call hpc hp hs =>
    refine call_life ?_ ?_ hs
    · exact hpc
    unfold Life at hl
    rw [hpc] at hl
    exact hl
  | go hs => exact go_life rfl hl hs

theorem life {s : State} (h : system.Reachable s) : Life s := by
  have h₀ : ∀ s, system.start s → Life s := by
    rintro s ⟨events, messages, rfl⟩
    exact Or.inr rfl
  exact h.invariant h₀ fun _ _ _ hl hs => step_life hl (step_cases hs).2

end GDNet
