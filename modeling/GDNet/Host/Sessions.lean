import Mathlib.Logic.Function.Basic
import GDNet.Host.Queues

/-!
# Sessions of a host with any number of game threads

`Crowd.machine` interleaves the host thread with any number of game threads, of
which the thread 0 is the one that binds and unbinds.  A call to send or to
broadcast tests `_host`, builds its message and pushes it in separate steps, and
`unbind` can join the thread and clear the queues between any two of them.

A session keeps to itself what is pushed in the session its call started in,
before `unbind` clears the queue.  What is pushed later stays for the thread of
the next session.
-/

namespace GDNet

open Transition

structure Crowd where
  world : World
  /-- The peer objects, which the script hands from thread to thread. -/
  handles : List PeerPtr
  pcs : Nat → GamePc
  /-- The session in which the last call of a thread started. -/
  since : Nat → Nat

inductive CrowdAction where
  | worker (input : WorkerInput)
  | game (i : Nat) (input : GameInput)

def Call.binds : Call → Bool
  | .bind _ => true
  | .unbind => true
  | _ => false

def GameInput.binds : GameInput → Bool
  | .call c _ => c.binds
  | .go _ => false

/-- The points of `bind` and `unbind`. -/
def GamePc.binds : GamePc → Prop
  | .bindRunning => True
  | .bindAccess => True
  | .bindHost => True
  | .bindThread => True
  | .bindAssign => True
  | .unbindRunning => True
  | .unbindWait => True
  | .unbindEvents => True
  | pc => pc.leavesMessages

/-! ## What is in the queues is of the session -/

/-- What the host thread has in hand is of the session `n`. -/
def WorkerPc.Of (n : Nat) : WorkerPc → Prop
  | .handing m => m.stamp.session = n
  | .pushTest e => e.stamp.session = n
  | .pushWrite e => e.stamp.session = n
  | _ => True

structure World.Current (w : World) : Prop where
  messages : w.host.messageQueue.Gives (fun m => m.stamp.session = w.session)
    (w.worker = some .popRead)
  events : w.host.eventQueue.Gives (fun e => e.stamp.session = w.session) False
  hands : ∀ pc, w.worker = some pc → pc.Of w.session

section
variable {w w' : World} {g g' : Game} {env : Env}

theorem World.Current.keep (hi : w.Current) (hm : w'.host.messageQueue = w.host.messageQueue)
    (he : w'.host.eventQueue = w.host.eventQueue) (hs : w'.session = w.session)
    (hw : ∀ pc, w'.worker = some pc → pc.Of w.session ∧ pc ≠ .popRead) : w'.Current := by
  refine ⟨?_, ?_, fun pc hpc => hs ▸ (hw pc hpc).1⟩
  · rw [hm, hs]
    exact hi.messages.mono fun h => absurd rfl (hw _ h).2
  · rw [he, hs]
    exact hi.events

theorem World.Current.same (hi : w.Current) (hm : w'.host.messageQueue = w.host.messageQueue)
    (he : w'.host.eventQueue = w.host.eventQueue) (hs : w'.session = w.session)
    (hw : w'.worker = w.worker) : w'.Current := by
  refine ⟨?_, ?_, fun pc hpc => hs ▸ hi.hands pc (hw ▸ hpc)⟩
  · rw [hm, hs, hw]
    exact hi.messages
  · rw [he, hs]
    exact hi.events

theorem World.Current.goto (hi : w.Current) {pc : WorkerPc} (h : pc.Of w.session)
    (hne : pc ≠ .popRead) : (w.goto pc).Current := by
  refine hi.keep rfl rfl rfl fun pc' hpc' => ?_
  obtain rfl := Option.some.inj hpc'
  exact ⟨h, hne⟩

theorem current_polled (hi : w.Current) (time : Int) (h : ENet.Host)
    (outcome : ENet.ServiceOutcome) : (w.polled time h outcome).Current := by
  have he : (w.setENet h).Current := hi.same rfl rfl rfl rfl
  unfold World.polled
  split
  · exact he.goto trivial (fun e => by cases e)
  · exact he.goto trivial (fun e => by cases e)
  · exact he.goto rfl (fun e => by cases e)

theorem current_worker {input : WorkerInput} {pc : WorkerPc} (hi : w.Current)
    (hpc : w.worker = some pc) (hs : WorkerStep w input pc w') : w'.Current := by
  cases hs with
  | enter hr => exact hi.goto trivial (fun e => by cases e)
  | leave hr => exact hi.goto trivial (fun e => by cases e)
  | lockAccess hm =>
    have hsame : (w.grant .host .access).Current := hi.same rfl rfl rfl rfl
    exact hsame.goto trivial (fun e => by cases e)
  | lockHost hm =>
    have hsame : (w.grant .host .host).Current := hi.same rfl rfl rfl rfl
    exact hsame.goto trivial (fun e => by cases e)
  | unlockAccess hm =>
    have hsame : (w.release .access).Current := hi.same rfl rfl rfl rfl
    exact hsame.goto trivial (fun e => by cases e)
  | drained he => exact hi.goto trivial (fun e => by cases e)
  | more he => exact hi.goto trivial (fun e => by cases e)
  | popTest he =>
    refine ⟨hi.messages.tested he, hi.events, fun pc h => ?_⟩
    obtain rfl := Option.some.inj h
    trivial
  | popRead =>
    refine ⟨(hi.messages.read hpc).mono (fun e => by cases e), hi.events, fun pc h => ?_⟩
    obtain rfl := Option.some.inj h
    exact hi.messages.front hpc
  | handing hh ho =>
    have hsame : ∀ h, (w.setENet h).Current := fun _ => hi.same rfl rfl rfl rfl
    exact (hsame _).goto trivial (fun e => by cases e)
  | poll => exact hi.goto trivial (fun e => by cases e)
  | service hh => exact current_polled hi _ _ _
  | refused hf => exact hi.goto trivial (fun e => by cases e)
  | pushTest hf => exact hi.goto (hi.hands (.pushTest _) hpc) (fun e => by cases e)
  | pushWrite =>
    refine ⟨hi.messages.mono (fun e => by cases e), hi.events.write (hi.hands _ hpc), ?_⟩
    intro pc h
    obtain rfl := Option.some.inj h
    trivial
  | check hh => exact current_polled hi _ _ _
  | unlockHost hm =>
    have hsame : (w.release .host).Current := hi.same rfl rfl rfl rfl
    exact hsame.goto trivial (fun e => by cases e)
  | fails hf => exact hi.same rfl rfl rfl rfl

/-- What a step of a game thread needs to stay in its session. -/
structure Timely (w : World) (g : Game) (pc : GamePc) : Prop where
  pushing : pc.pushing → g.since = w.session
  popping : pc.popping → w.host.eventQueue.isEmpty = false
  clearing : pc = .unbindMessages → w.worker = none

theorem current_go {me : Thread} {pc : GamePc} (hi : w.Current) (ht : Timely w g pc)
    (hs : GoStep me w g env pc w' g') : w'.Current := by
  cases hs with
  | pushWrite =>
    exact ⟨hi.messages.write (ht.pushing trivial), hi.events, hi.hands⟩
  | popRead =>
    exact ⟨hi.messages, (hi.events.tested (ht.popping trivial)).read trivial, hi.hands⟩
  | bindThread => exact hi.goto trivial (fun e => by cases e)
  | unbindWait hw => exact hi.keep rfl rfl rfl (fun pc h => by cases h)
  | unbindMessages =>
    refine ⟨hi.messages.clear.mono fun e => ?_, hi.events, hi.hands⟩
    cases (ht.clearing rfl).symm.trans e
  | unbindEvents => exact ⟨hi.messages, hi.events.clear, hi.hands⟩
  | _ => exact hi.same rfl rfl rfl rfl

/-- A session starts with no thread and with empty queues. -/
theorem current_call {c : Call} (hi : w.Current)
    (hn : c.binds → w.host.enetHost = none → w.worker = none ∧
      w.host.messageQueue.pending = [] ∧ w.host.eventQueue.pending = [])
    (hs : CallStep w g env c w' g') : w'.Current := by
  cases hs with
  | bind hb hc =>
    obtain ⟨hw, hm, he⟩ := hn rfl hb
    refine ⟨(hi.messages.valid.gives hm).mono fun e => ?_, hi.events.valid.gives he, fun pc e => ?_⟩
    · cases hw.symm.trans e
    · cases hw.symm.trans e
  | _ => exact hi.same rfl rfl rfl rfl

/-- A step outside `bind` and `unbind` leads to no point of them, and does to the shared
fields of the host no more than to push or to pop. -/
theorem go_other {me : Thread} {pc : GamePc} (hb : ¬pc.binds) (hg : g.pc = pc)
    (hs : GoStep me w g env pc w' g') :
    ¬g'.pc.binds ∧ w'.shape = w.shape ∧ w'.worker = w.worker ∧
      (w'.host.messageQueue = w.host.messageQueue ∨ pc.pushing) ∧
      (w'.host.eventQueue = w.host.eventQueue ∨ pc.popping) := by
  cases hs with
  | lockAccess hm =>
    exact ⟨id, grant_shape (by simp [Host.mutex, hm]), rfl, Or.inl rfl, Or.inl rfl⟩
  | lockHost hm =>
    exact ⟨id, grant_shape (by simp [Host.mutex, hm]), rfl, Or.inl rfl, Or.inl rfl⟩
  | unlockAccess hm => exact ⟨id, release_shape hm, rfl, Or.inl rfl, Or.inl rfl⟩
  | inside hp =>
    exact ⟨id, setENet_shape (World.live_eq hp).1, rfl, Or.inl rfl, Or.inl rfl⟩
  | unlockHost hm => exact ⟨id, release_shape hm, rfl, Or.inl rfl, Or.inl rfl⟩
  | found hh hc => exact ⟨id, setENet_shape hh, rfl, Or.inl rfl, Or.inl rfl⟩
  | pushWrite => exact ⟨id, rfl, rfl, Or.inr trivial, Or.inl rfl⟩
  | popRead => exact ⟨id, rfl, rfl, Or.inl rfl, Or.inr trivial⟩
  | fails hf => exact ⟨hg ▸ hb, rfl, rfl, Or.inl rfl, Or.inl rfl⟩
  | bindRunning => exact absurd trivial hb
  | bindAccess => exact absurd trivial hb
  | bindHost => exact absurd trivial hb
  | bindThread => exact absurd trivial hb
  | bindAssign => exact absurd trivial hb
  | unbindRunning => exact absurd trivial hb
  | unbindWait hw => exact absurd trivial hb
  | unbindThread => exact absurd trivial hb
  | unbindAccess => exact absurd trivial hb
  | unbindHost => exact absurd trivial hb
  | unbindFlush hh => exact absurd trivial hb
  | unbindDestroy => exact absurd trivial hb
  | unbindMessages => exact absurd trivial hb
  | unbindEvents => exact absurd trivial hb
  | _ => exact ⟨id, rfl, rfl, Or.inl rfl, Or.inl rfl⟩

theorem call_other {c : Call} (hb : ¬c.binds) (hg : g.pc = .idle)
    (hs : CallStep w g env c w' g') :
    ¬g'.pc.binds ∧ w'.shape = w.shape ∧ w'.worker = w.worker ∧
      w'.host.messageQueue = w.host.messageQueue ∧ w'.host.eventQueue = w.host.eventQueue := by
  obtain ⟨hm, he, hw, _, _⟩ := call_queues hs hg
  have hidle : ¬g.pc.binds := by
    rw [hg]
    exact id
  cases hs with
  | bind hn hc => exact absurd rfl hb
  | unbind hh => exact absurd rfl hb
  | returns => exact ⟨hidle, rfl, hw, hm, he⟩
  | setMaxPeers => exact ⟨hidle, rfl, hw, hm, he⟩
  | setMaxChannels => exact ⟨hidle, rfl, hw, hm, he⟩
  | getPeer hh hi => exact ⟨hidle, rfl, hw, hm, he⟩
  | nullAddress => exact ⟨hidle, rfl, hw, hm, he⟩
  | danglingPeer hc hl => exact ⟨hidle, rfl, hw, hm, he⟩
  | _ => exact ⟨id, rfl, hw, hm, he⟩

end

namespace Crowd

variable {c d : Crowd} {a : CrowdAction} {i j : Nat}

def game (c : Crowd) (i : Nat) : Game := ⟨c.pcs i, c.handles, c.since i⟩

/-- The thread `i` has made a step. -/
def put (c : Crowd) (i : Nat) (r : World × Game) : Crowd where
  world := r.1
  handles := r.2.handles
  pcs := Function.update c.pcs i r.2.pc
  since := Function.update c.since i r.2.since

def step (c : Crowd) (a : CrowdAction) : Option Crowd :=
  match c.world.fault, a with
  | some _, _ => none
  | none, .worker input => (workerStep c.world input).map fun w => { c with world := w }
  | none, .game i input =>
    if input.binds ∧ i ≠ 0 then none
    else (gameStep (.game i) c.world (c.game i) input).map (c.put i)

def initial (events : Nat → QueuedEvent) (messages : Nat → QueuedMessage) : Crowd where
  world := (State.initial events messages).world
  handles := []
  pcs _ := .idle
  since _ := 0

def machine : Machine Crowd CrowdAction where
  start c := ∃ events messages, c = initial events messages
  step := step

/-- The thread that binds, alone with the host thread. -/
def binder (c : Crowd) : State := ⟨c.world, c.game 0⟩

/-! ## The machine with one game thread is part of this one -/

/-- The other threads never call. -/
def alone (s : State) : Crowd where
  world := s.world
  handles := s.game.handles
  pcs := Function.update (fun _ => .idle) 0 s.game.pc
  since := Function.update (fun _ => 0) 0 s.game.since

theorem alone_initial (events : Nat → QueuedEvent) (messages : Nat → QueuedMessage) :
    alone (State.initial events messages) = initial events messages := by
  simp [alone, initial, State.initial]

theorem alone_game (s : State) : (alone s).game 0 = s.game := by
  simp [alone, game]

theorem alone_put (s : State) (r : World × Game) : (alone s).put 0 r = alone ⟨r.1, r.2⟩ := by
  simp [alone, put]

theorem simulates : Machine.Simulation system machine alone where
  start := by
    rintro s ⟨events, messages, rfl⟩
    exact ⟨events, messages, alone_initial events messages⟩
  step := by
    intro s a t _ _ h
    right
    have hf := (step_cases h).1
    change GDNet.step s a = some t at h
    unfold GDNet.step at h
    rw [hf] at h
    cases a with
    | worker input =>
      obtain ⟨w, hw, rfl⟩ := Option.map_eq_some_iff.mp h
      refine ⟨.worker input, ?_⟩
      show step (alone s) _ = _
      unfold step
      rw [show (alone s).world.fault = none from hf]
      exact Option.map_eq_some_iff.mpr ⟨w, hw, rfl⟩
    | game input =>
      obtain ⟨r, hr, rfl⟩ := Option.map_eq_some_iff.mp h
      refine ⟨.game 0 input, ?_⟩
      show step (alone s) _ = _
      unfold step
      rw [show (alone s).world.fault = none from hf]
      simp only [ne_eq, not_true_eq_false, and_false, if_false, alone_game]
      exact Option.map_eq_some_iff.mpr ⟨r, hr, alone_put s r⟩

/-! ## The steps by name -/

inductive Step (c : Crowd) : CrowdAction → Crowd → Prop
  | worker {input : WorkerInput} {pc : WorkerPc} {w : World} (hpc : c.world.worker = some pc)
      (hs : WorkerStep c.world input pc w) : Step c (.worker input) { c with world := w }
  | call {i : Nat} {cl : Call} {env : Env} {w : World} {g : Game} (hb : cl.binds → i = 0)
      (hpc : c.pcs i = .idle) (hp : cl.peer.all (· ∈ c.handles))
      (hs : CallStep c.world { c.game i with since := c.world.session } env cl w g) :
      Step c (.game i (.call cl env)) (c.put i (w, g))
  | go {i : Nat} {env : Env} {w : World} {g : Game}
      (hs : GoStep (.game i) c.world (c.game i) env (c.pcs i) w g) :
      Step c (.game i (.go env)) (c.put i (w, g))

theorem step_cases (h : machine.step c a = some d) : Step c a d := by
  change step c a = some d at h
  unfold step at h
  cases hf : c.world.fault with
  | some f => rw [hf] at h; cases h
  | none =>
    rw [hf] at h
    cases a with
    | worker input =>
      obtain ⟨w, hw, rfl⟩ := Option.map_eq_some_iff.mp h
      obtain ⟨pc, hpc, hs⟩ := workerStep_cases hw
      exact .worker hpc hs
    | game i input =>
      simp only [Option.ite_none_left_eq_some, not_and, not_not] at h
      obtain ⟨hb, h⟩ := h
      obtain ⟨⟨w, g⟩, hr, rfl⟩ := Option.map_eq_some_iff.mp h
      rcases gameStep_cases hr with ⟨cl, env, rfl, hpc, hp, hs⟩ | ⟨env, rfl, hs⟩
      · exact .call hb hpc hp hs
      · exact .go hs

theorem put_binder (c : Crowd) (w : World) (g : Game) : (c.put 0 (w, g)).binder = ⟨w, g⟩ := by
  simp [binder, put, game]

theorem put_pcs_self (c : Crowd) (i : Nat) (w : World) (g : Game) :
    (c.put i (w, g)).pcs i = g.pc := Function.update_self ..

theorem put_pcs_of_ne (c : Crowd) (w : World) (g : Game) (h : j ≠ i) :
    (c.put i (w, g)).pcs j = c.pcs j := Function.update_of_ne h ..

/-! ## Steps in time -/

/-- A message is written in the session its call started in, while the host thread is
there or `unbind` has not cleared the queue yet, and an event is read where one is. -/
def InTime (c : Crowd) : CrowdAction → Prop
  | .worker _ => True
  | .game _ (.call _ _) => True
  | .game i (.go _) =>
    ((c.pcs i).pushing → c.since i = c.world.session ∧
      (c.world.worker.isSome ∨ (c.pcs 0).leavesMessages)) ∧
    ((c.pcs i).popping → c.world.host.eventQueue.isEmpty = false)

/-- What the host thread hands to ENet and what `get_event` returns is of the session, and
the thread of a session starts with both queues empty. -/
def Isolated (c : Crowd) : CrowdAction → Prop
  | .worker _ => ∀ m, c.world.worker = some (.handing m) → m.stamp.session = c.world.session
  | .game _ (.call _ _) => True
  | .game i (.go _) =>
    match c.pcs i with
    | .popRead => c.world.host.eventQueue.front.stamp.session = c.world.session
    | .bindThread =>
      c.world.host.messageQueue.pending = [] ∧ c.world.host.eventQueue.pending = []
    | _ => True

structure Separate (c : Crowd) : Prop where
  others : ∀ i, i ≠ 0 → ¬(c.pcs i).binds
  life : Life c.binder
  cleared : Cleared c.binder
  current : c.world.Current

theorem Separate.zero (hi : Separate c) (hb : (c.pcs i).binds) : i = 0 := by
  by_contra h
  exact hi.others i h hb

/-- Without a host thread neither mutexes nor a host are left once the queues are cleared. -/
theorem Separate.stopped (hi : Separate c) {x : Shape} (hp : (c.pcs i).shape = some x)
    (hb : (c.pcs i).binds) (hx : x.worker = false) : c.world.worker = none := by
  obtain rfl := hi.zero hb
  have hl : Fits c.world (c.pcs 0) := hi.life
  unfold Fits at hl
  rw [hp] at hl
  have := congrArg Shape.worker hl
  simpa [World.shape, hx] using this

theorem Separate.timely (hi : Separate c) {env : Env} (ht : InTime c (.game i (.go env))) :
    Timely c.world (c.game i) (c.pcs i) := by
  refine ⟨fun hpc => (ht.1 hpc).1, ht.2, fun hpc => ?_⟩
  refine hi.stopped (i := i) (x := .unbound) ?_ ?_ rfl
  · rw [hpc]
    rfl
  · rw [hpc]
    trivial

theorem Separate.others_put (hi : Separate c) {w : World} {g : Game} (h : i ≠ 0 → ¬g.pc.binds) :
    ∀ j, j ≠ 0 → ¬((c.put i (w, g)).pcs j).binds := by
  intro j hj
  by_cases hji : j = i
  · rw [hji, put_pcs_self]
    exact h (hji ▸ hj)
  · rw [put_pcs_of_ne c w g hji]
    exact hi.others j hj

theorem life_put_of_ne (hl : Life c.binder) {w : World} {g : Game} (h : i ≠ 0)
    (hw : w.shape = c.world.shape) : Life (c.put i (w, g)).binder := by
  show Fits w ((c.put i (w, g)).pcs 0)
  rw [put_pcs_of_ne c w g h.symm]
  unfold Fits
  rw [hw]
  exact hl

theorem cleared_put_of_ne (hi : Cleared c.binder) {w : World} {g : Game} (h : i ≠ 0)
    (hw : w.worker = c.world.worker)
    (hm : w.host.messageQueue = c.world.host.messageQueue ∨
      c.world.worker.isSome ∨ (c.pcs 0).leavesMessages)
    (he : w.host.eventQueue = c.world.host.eventQueue ∨
      c.world.host.eventQueue.pending ≠ []) : Cleared (c.put i (w, g)).binder := by
  intro hn
  have hnone : c.world.worker = none := hw.symm.trans hn
  obtain ⟨h₁, h₂⟩ := hi hnone
  have hpc : (c.put i (w, g)).binder.game.pc = c.pcs 0 := put_pcs_of_ne c w g h.symm
  rw [hpc]
  refine ⟨fun hl => ?_, fun hl => ?_⟩
  · rcases hm with hm | hs | hl'
    · exact (congrArg Queue.pending hm).trans (h₁ hl)
    · rw [hnone] at hs
      cases hs
    · exact absurd hl' hl
  · rcases he with he | hne
    · exact (congrArg Queue.pending he).trans (h₂ hl)
    · exact absurd (h₂ hl) hne

theorem call_separate {cl : Call} {env : Env} {w : World} {g : Game} (hi : Separate c)
    (hb : cl.binds → i = 0) (hpc : c.pcs i = .idle)
    (hs : CallStep c.world { c.game i with since := c.world.session } env cl w g) :
    Separate (c.put i (w, g)) := by
  by_cases h : i = 0
  · subst h
    have hbound := hi.life.idle hpc
    refine ⟨hi.others_put fun hne => absurd rfl hne, ?_, ?_, current_call hi.current ?_ hs⟩
    · rw [put_binder]
      exact call_life hpc hbound hs
    · rw [put_binder]
      exact call_cleared hi.cleared hpc hs
    · intro _ hn
      have hw : c.world.worker = none := by
        rcases hbound with e | e
        · have := congrArg Shape.enetHost e
          simp [World.shape, Shape.bound, binder, hn] at this
        · have := congrArg Shape.worker e
          simpa [World.shape, Shape.unbound, binder] using this
      obtain ⟨hm, he⟩ := hi.cleared hw
      rw [show c.binder.game.pc = .idle from hpc] at hm he
      exact ⟨hw, hm id, he id⟩
  · obtain ⟨hg, hshape, hw, hm, he⟩ := call_other (fun hcl => h (hb hcl)) hpc hs
    refine ⟨hi.others_put fun _ => hg, life_put_of_ne hi.life h hshape,
      cleared_put_of_ne hi.cleared h hw (Or.inl hm) (Or.inl he), ?_⟩
    exact current_call hi.current (fun hcl => absurd (hb hcl) h) hs

theorem go_separate {env : Env} {w : World} {g : Game} (hi : Separate c)
    (ht : InTime c (.game i (.go env)))
    (hs : GoStep (.game i) c.world (c.game i) env (c.pcs i) w g) : Separate (c.put i (w, g)) := by
  have hcurrent := current_go hi.current (hi.timely ht) hs
  by_cases h : i = 0
  · subst h
    refine ⟨hi.others_put fun hne => absurd rfl hne, ?_, ?_, hcurrent⟩
    · rw [put_binder]
      exact go_life rfl hi.life hs
    · rw [put_binder]
      exact go_cleared hi.cleared hi.current.messages.valid hi.current.events.valid
        (fun hpc => ht.2 (by rw [show c.pcs 0 = .popRead from hpc]; trivial)) hi.life rfl hs
  · obtain ⟨hg, hshape, hw, hm, he⟩ := go_other (hi.others i h) rfl hs
    refine ⟨hi.others_put fun _ => hg, life_put_of_ne hi.life h hshape,
      cleared_put_of_ne hi.cleared h hw (hm.imp_right ?_) (he.imp_right ?_), hcurrent⟩
    · exact fun hpc => (ht.1 hpc).2
    · exact fun hpc => hi.current.events.valid.pending_ne_nil (ht.2 hpc)

theorem step_separate (hi : Separate c) (ht : InTime c a) (h : Step c a d) : Separate d := by
  cases h with
  | worker hpc hs =>
    refine ⟨hi.others, ?_, worker_cleared (s := c.binder) hpc hs, current_worker hi.current hpc hs⟩
    exact step_life hi.life (.worker hpc hs)
  | call hb hpc hp hs => exact call_separate hi hb hpc hs
  | go hs => exact go_separate hi ht hs

theorem Separate.isolated (hi : Separate c) (ht : InTime c a) : Isolated c a := by
  cases a with
  | worker input => exact fun m hw => hi.current.hands _ hw
  | game i input =>
    cases input with
    | call cl env => trivial
    | go env =>
      show match c.pcs i with
        | .popRead => _
        | .bindThread => _
        | _ => True
      split
      · next hpc =>
        have he := ht.2 (by rw [hpc]; trivial)
        exact (hi.current.events.tested he).front trivial
      · next hpc =>
        obtain rfl := hi.zero (by rw [hpc]; trivial)
        have hw := hi.stopped (i := 0) (by rw [hpc]; rfl) (by rw [hpc]; trivial) rfl
        obtain ⟨hm, he⟩ := hi.cleared hw
        rw [show c.binder.game.pc = .bindThread from hpc] at hm he
        exact ⟨hm id, he id⟩
      · trivial

theorem initial_separate (events : Nat → QueuedEvent) (messages : Nat → QueuedMessage) :
    Separate (initial events messages) where
  others _ _ := id
  life := Or.inr rfl
  cleared _ := ⟨fun _ => Queue.pending_create messages, fun _ => Queue.pending_create events⟩
  current := by
    refine ⟨?_, ?_, fun pc h => by cases h⟩
    · exact ((Queue.create_valid (by decide) messages).gives (Queue.pending_create _)).mono
        fun h => by cases h
    · exact (Queue.create_valid (by decide) events).gives (Queue.pending_create _)

/-- In a run whose steps are all in time every step keeps to its session. -/
theorem sessions_isolated {as : List CrowdAction} (h : machine.start c)
    (hc : machine.Along InTime c as) : machine.Along Isolated c as := by
  obtain ⟨events, messages, rfl⟩ := h
  exact Machine.Along.of_invariant (I := Separate)
    (fun _ _ _ ht hi hs => step_separate hi ht (step_cases hs)) (fun _ _ ht hi => hi.isolated ht)
    hc (initial_separate events messages)

/-! ## Messages in time and too late -/

/-- A new host in memory set to zero. -/
def fresh : Crowd := alone .fresh

theorem fresh_start : machine.start fresh := simulates.start _ GDNet.fresh_start

/-- The one game thread of a run is the thread that binds. -/
def ofAction : Action → CrowdAction
  | .worker input => .worker input
  | .game input => .game 0 input

def broadcastBy (i : Nat) : CrowdAction := .game i (.call (.broadcastPacket [7] 0 0) {})

def goesOn (i n : Nat) : List CrowdAction := List.replicate n (.game i (.go {}))

def works (n : Nat) : List CrowdAction := List.replicate n (.worker {})

/-- Two threads broadcast in one session, and the first message is handed over. -/
def timelyRun : List CrowdAction :=
  boundRun.map ofAction ++ [broadcastBy 1, broadcastBy 2] ++ goesOn 2 2 ++ goesOn 1 2 ++ works 8

/-- `unbind` and `bind` between the start of a broadcast and its push. -/
def lateRun : List CrowdAction :=
  boundRun.map ofAction ++ [broadcastBy 1] ++ unbindRun.map ofAction ++ goesOn 1 2 ++
    boundRun.map ofAction

instance (pc : GamePc) : Decidable pc.pushing := by
  cases pc <;> first | exact .isTrue trivial | exact .isFalse id

instance (pc : GamePc) : Decidable pc.popping := by
  cases pc <;> first | exact .isTrue trivial | exact .isFalse id

instance (pc : GamePc) : Decidable pc.leavesMessages := by
  cases pc <;> first | exact .isTrue trivial | exact .isFalse id

instance (c : Crowd) (a : CrowdAction) : Decidable (InTime c a) :=
  match a with
  | .worker _ => .isTrue trivial
  | .game _ (.call _ _) => .isTrue trivial
  | .game i (.go _) =>
    inferInstanceAs (Decidable (((c.pcs i).pushing → c.since i = c.world.session ∧
      (c.world.worker.isSome ∨ (c.pcs 0).leavesMessages)) ∧
      ((c.pcs i).popping → c.world.host.eventQueue.isEmpty = false)))

theorem sessions_isolated_timely :
    (machine.run fresh timelyRun).isSome ∧ machine.Along Isolated fresh timelyRun :=
  ⟨by rfl, sessions_isolated fresh_start (by decide)⟩

/-- The message of the late broadcast. -/
def lateMessage : QueuedMessage := ⟨⟨.unsequenced, true, 0, 0, [7]⟩, ⟨1, none⟩⟩

/-- The thread of the second session starts with a message of the first in its queue, and
hands it to ENet. -/
theorem late_message :
    (∃ c, machine.run fresh (lateRun.take 24) = some c ∧
      (machine.step c (.game 0 (.go {}))).isSome ∧ ¬Isolated c (.game 0 (.go {}))) ∧
    ∃ c, machine.run fresh (lateRun ++ works 7) = some c ∧
      (machine.step c (.worker {})).isSome ∧ ¬Isolated c (.worker {}) ∧
      c.world.worker = some (.handing lateMessage) ∧ c.world.session = 2 := by
  have hbind : (machine.run fresh (lateRun.take 24)).map (fun c => (c.pcs 0,
      c.world.host.messageQueue.pending, (machine.step c (.game 0 (.go {}))).isSome)) =
      some (.bindThread, [lateMessage], true) := by rfl
  have hhand : (machine.run fresh (lateRun ++ works 7)).map (fun c => (c.world.worker,
      c.world.session, (machine.step c (.worker {})).isSome)) =
      some (some (.handing lateMessage), 2, true) := by rfl
  constructor
  · obtain ⟨c, hc, he⟩ := Option.map_eq_some_iff.mp hbind
    simp only [Prod.mk.injEq] at he
    refine ⟨c, hc, he.2.2, fun hi => ?_⟩
    simp only [Isolated, he.1, he.2.1] at hi
    cases hi.1
  · obtain ⟨c, hc, he⟩ := Option.map_eq_some_iff.mp hhand
    simp only [Prod.mk.injEq] at he
    refine ⟨c, hc, he.2.2, fun hi => ?_, he.1, he.2.1⟩
    have hsame : (1 : Nat) = c.world.session := hi lateMessage he.1
    omega

end Crowd
end GDNet
