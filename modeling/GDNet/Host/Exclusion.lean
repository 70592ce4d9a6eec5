import GDNet.Host.Queues
import GDNet.Lock.Turnstile

/-!
# Who is inside ENet

The two mutexes of a host, with the thread of its session and one game thread,
are a turnstile: every step is a step of the turnstile or leaves it alone.  So
the host thread and a method that takes the lock are never inside ENet together.

`connect` does not take the lock.  Whatever the host thread is doing when a
`connect` starts, it can go on until both are inside ENet.
-/

namespace GDNet

open Transition Turnstile

variable {s t : State} {a : Action} {pc : WorkerPc}

/-! ## The turnstile of a host -/

def WorkerPc.place : WorkerPc → Place
  | .loopTest => .outside
  | .lockAccess => .access
  | .lockHost => .host
  | .unlockAccess => .pass
  | .finished => .outside
  | _ => .critical

def GamePc.place : GamePc → Place
  | .lockAccess _ _ => .access
  | .lockHost _ _ => .host
  | .unlockAccess _ _ => .pass
  | .inside _ _ => .critical
  | .unlockHost => .critical
  | _ => .outside

def places (worker : Option WorkerPc) (game : GamePc) : Thread → Place
  | .host => (worker.map WorkerPc.place).getD .outside
  | .game 0 => game.place
  | .game (_ + 1) => .outside

def State.turnstile (s : State) : Turnstile.State Thread where
  accessMutex := s.world.host.accessMutex.bind Mutex.owner
  hostMutex := s.world.host.hostMutex.bind Mutex.owner
  place := places s.world.worker s.game.pc

theorem places_worker (worker : Option WorkerPc) (pc : WorkerPc) (game : GamePc) :
    places (some pc) game = Function.update (places worker game) .host pc.place := by
  funext th
  cases th with
  | host => simp [places]
  | game n => cases n <;> simp [places]

theorem places_game (worker : Option WorkerPc) (game pc : GamePc) :
    places worker pc = Function.update (places worker game) gameThread pc.place := by
  funext th
  cases th with
  | host => simp [places, gameThread]
  | game n => cases n <;> simp [places, gameThread]

theorem place_worker {pc : WorkerPc} (hpc : s.world.worker = some pc) :
    s.turnstile.place .host = pc.place := by
  show places s.world.worker s.game.pc .host = _
  rw [hpc]
  rfl

theorem place_game (s : State) : s.turnstile.place gameThread = s.game.pc.place := rfl

theorem places_congr {worker worker' : Option WorkerPc} {game game' : GamePc}
    (hw : (worker'.map WorkerPc.place).getD .outside = (worker.map WorkerPc.place).getD .outside)
    (hg : game'.place = game.place) : places worker' game' = places worker game := by
  funext th
  cases th with
  | host => exact hw
  | game n =>
    cases n with
    | zero => exact hg
    | succ n => rfl

/-- A step that moves nobody in the turnstile. -/
theorem turnstile_stay {w' : World} {g' : Game}
    (hw : (w'.worker.map WorkerPc.place).getD .outside =
      (s.world.worker.map WorkerPc.place).getD .outside)
    (hp : g'.pc.place = s.game.pc.place)
    (ha : w'.host.accessMutex.bind Mutex.owner = s.world.host.accessMutex.bind Mutex.owner)
    (hh : w'.host.hostMutex.bind Mutex.owner = s.world.host.hostMutex.bind Mutex.owner) :
    State.turnstile ⟨w', g'⟩ = s.turnstile := by
  show Turnstile.State.mk _ _ (places w'.worker g'.pc) = _
  rw [ha, hh, places_congr hw hp]
  rfl

theorem turnstile_worker_move (s : State) (w' : World) {pc' : WorkerPc}
    (hw : w'.worker = some pc') :
    Turnstile.State.move ⟨w'.host.accessMutex.bind Mutex.owner,
      w'.host.hostMutex.bind Mutex.owner, s.turnstile.place⟩ .host pc'.place =
      State.turnstile { s with world := w' } := by
  have hplaces : places w'.worker s.game.pc =
      Function.update (places s.world.worker s.game.pc) .host pc'.place := by
    rw [hw, places_worker s.world.worker]
  show Turnstile.State.mk _ _ _ = Turnstile.State.mk _ _ (places w'.worker s.game.pc)
  rw [hplaces]
  rfl

theorem turnstile_game_move (s : State) (w' : World) (pc' : GamePc)
    (hw : w'.worker = s.world.worker) :
    Turnstile.State.move ⟨w'.host.accessMutex.bind Mutex.owner,
      w'.host.hostMutex.bind Mutex.owner, s.turnstile.place⟩ gameThread pc'.place =
      State.turnstile ⟨w', s.game.goto pc'⟩ := by
  have hplaces : places w'.worker pc' =
      Function.update (places s.world.worker s.game.pc) gameThread pc'.place := by
    rw [hw, places_game s.world.worker s.game.pc]
  show Turnstile.State.mk _ _ _ = Turnstile.State.mk _ _ (places w'.worker pc')
  rw [hplaces]
  rfl

theorem polled_turnstile (hpc : s.world.worker = some pc) (hp : pc.place = .critical) (time : Int)
    (h : ENet.Host) (outcome : ENet.ServiceOutcome) :
    State.turnstile { s with world := s.world.polled time h outcome } = s.turnstile := by
  unfold World.polled
  split <;> exact turnstile_stay (by rw [hpc]; exact hp.symm) rfl rfl rfl

theorem worker_turnstile {w' : World} {input : WorkerInput} {pc : WorkerPc}
    (hpc : s.world.worker = some pc) (hs : WorkerStep s.world input pc w') :
    State.turnstile { s with world := w' } = s.turnstile ∨
      Turnstile.step s.turnstile .host = some (State.turnstile { s with world := w' }) := by
  have hplace := place_worker hpc
  cases hs with
  | enter hr =>
    right
    rw [Turnstile.step, hplace]
    exact congrArg some (turnstile_worker_move s (s.world.goto .lockAccess) rfl)
  | leave hr => exact Or.inl (turnstile_stay (by rw [hpc]; rfl) rfl rfl rfl)
  | lockAccess hm =>
    right
    have hfree : s.turnstile.accessMutex = none := by simp [State.turnstile, hm]
    rw [Turnstile.step, hplace]
    exact (if_pos hfree).trans (congrArg some
      (turnstile_worker_move s ((s.world.grant .host .access).goto .lockHost) rfl))
  | lockHost hm =>
    right
    have hfree : s.turnstile.hostMutex = none := by simp [State.turnstile, hm]
    rw [Turnstile.step, hplace]
    exact (if_pos hfree).trans (congrArg some
      (turnstile_worker_move s ((s.world.grant .host .host).goto .unlockAccess) rfl))
  | unlockAccess hm =>
    right
    rw [Turnstile.step, hplace]
    exact congrArg some (turnstile_worker_move s ((s.world.release .access).goto .isEmpty) rfl)
  | unlockHost hm =>
    right
    rw [Turnstile.step, hplace]
    exact congrArg some (turnstile_worker_move s ((s.world.release .host).goto .loopTest) rfl)
  | service hh => exact Or.inl (polled_turnstile hpc rfl _ _ _)
  | check hh => exact Or.inl (polled_turnstile hpc rfl _ _ _)
  | fails hf => exact Or.inl rfl
  | _ => exact Or.inl (turnstile_stay (by rw [hpc]; rfl) rfl rfl rfl)

theorem worker_none (h : s.world.shape.worker = false) : s.world.worker = none := by
  simpa [World.shape] using h

theorem Life.worker_none (hl : Life s) {x : Shape} (hp : s.game.pc.shape = some x)
    (hx : x.worker = false) : s.world.worker = none := by
  unfold Life Fits at hl
  rw [hp] at hl
  exact GDNet.worker_none (by rw [show s.world.shape = x from hl, hx])

/-- What holds of the places of both threads holds of all places. -/
theorem place_cases (P : Place → Prop)
    (hw : P ((s.world.worker.map WorkerPc.place).getD .outside))
    (hg : P s.game.pc.place) (ho : P .outside) (th : Thread) : P (s.turnstile.place th) := by
  cases th with
  | host => exact hw
  | game n =>
    cases n with
    | zero => exact hg
    | succ n => exact ho

/-- A mutex that a session ends with is free. -/
theorem turnstile_free (hi : Turnstile.Inv s.turnstile) (hw : s.world.worker = none)
    (hp : s.game.pc.place = .outside) :
    s.turnstile.accessMutex = none ∧ s.turnstile.hostMutex = none := by
  have hplace : ∀ th, s.turnstile.place th = .outside :=
    place_cases (· = .outside) (by rw [hw]; rfl) hp rfl
  exact ⟨hi.access_free fun th => by rw [hplace th]; simp,
    hi.host_free fun th => by rw [hplace th]; simp⟩

theorem go_turnstile {w' : World} {g' : Game} {env : Env} {pc : GamePc} (hl : Life s)
    (hi : Turnstile.Inv s.turnstile) (hpc : s.game.pc = pc)
    (hs : GoStep gameThread s.world s.game env pc w' g') :
    State.turnstile ⟨w', g'⟩ = s.turnstile ∨
      Turnstile.step s.turnstile gameThread = some (State.turnstile ⟨w', g'⟩) := by
  have hplace : s.turnstile.place gameThread = pc.place := by rw [place_game, hpc]
  have hshape : ∀ {x : Shape}, pc.shape = some x → s.world.shape = x := by
    intro x hx
    unfold Life Fits at hl
    rw [hpc, hx] at hl
    exact hl
  have hstay : ∀ {w' : World} {g' : Game}, w'.worker = s.world.worker → g'.pc.place = pc.place →
      w'.host.accessMutex = s.world.host.accessMutex →
      w'.host.hostMutex = s.world.host.hostMutex →
      State.turnstile ⟨w', g'⟩ = s.turnstile ∨
        Turnstile.step s.turnstile gameThread = some (State.turnstile ⟨w', g'⟩) := by
    intro w' g' hw hp ha hh
    exact Or.inl (turnstile_stay (by rw [hw]) (by rw [hp, hpc]) (by rw [ha]) (by rw [hh]))
  cases hs with
  | lockAccess hm =>
    right
    have hfree : s.turnstile.accessMutex = none := by simp [State.turnstile, hm]
    rw [Turnstile.step, hplace]
    exact (if_pos hfree).trans (congrArg some
      (turnstile_game_move s (s.world.grant gameThread .access) (.lockHost _ _) rfl))
  | lockHost hm =>
    right
    have hfree : s.turnstile.hostMutex = none := by simp [State.turnstile, hm]
    rw [Turnstile.step, hplace]
    exact (if_pos hfree).trans (congrArg some
      (turnstile_game_move s (s.world.grant gameThread .host) (.unlockAccess _ _) rfl))
  | unlockAccess hm =>
    right
    rw [Turnstile.step, hplace]
    exact congrArg some (turnstile_game_move s (s.world.release .access) (.inside _ _) rfl)
  | unlockHost hm =>
    right
    rw [Turnstile.step, hplace]
    exact congrArg some (turnstile_game_move s (s.world.release .host) .idle rfl)
  | bindAccess =>
    have hm : s.world.host.accessMutex = none := by
      have := congrArg Shape.accessMutex (hshape rfl)
      simpa [World.shape] using this
    exact Or.inl (turnstile_stay rfl (by rw [hpc]; rfl) (by rw [hm]; rfl) rfl)
  | bindHost =>
    have hm : s.world.host.hostMutex = none := by
      have := congrArg Shape.hostMutex (hshape rfl)
      simpa [World.shape] using this
    exact Or.inl (turnstile_stay rfl (by rw [hpc]; rfl) rfl (by rw [hm]; rfl))
  | bindThread =>
    have hw : s.world.worker = none := worker_none (by rw [hshape rfl])
    exact Or.inl (turnstile_stay (by rw [hw]; rfl) (by rw [hpc]; rfl) rfl rfl)
  | unbindWait hw => exact Or.inl (turnstile_stay (by rw [hw]; rfl) (by rw [hpc]; rfl) rfl rfl)
  | unbindAccess =>
    have hw : s.world.worker = none := worker_none (by rw [hshape rfl])
    obtain ⟨hfree, _⟩ := turnstile_free hi hw (by rw [hpc]; rfl)
    exact Or.inl (turnstile_stay rfl (by rw [hpc]; rfl) hfree.symm rfl)
  | unbindHost =>
    have hw : s.world.worker = none := worker_none (by rw [hshape rfl])
    obtain ⟨_, hfree⟩ := turnstile_free hi hw (by rw [hpc]; rfl)
    exact Or.inl (turnstile_stay rfl (by rw [hpc]; rfl) rfl hfree.symm)
  | fails hf => exact Or.inl rfl
  | _ => exact hstay rfl rfl rfl rfl

theorem call_turnstile {w' : World} {g' : Game} {env : Env} {c : Call} (hpc : s.game.pc = .idle)
    (hs : CallStep s.world { s.game with since := s.world.session } env c w' g') :
    State.turnstile ⟨w', g'⟩ = s.turnstile ∨
      Turnstile.step s.turnstile gameThread = some (State.turnstile ⟨w', g'⟩) := by
  cases hs with
  | locked hb =>
    right
    rw [Turnstile.step, place_game, hpc]
    exact congrArg some (turnstile_game_move s s.world (.lockAccess _ _) rfl)
  | returns => exact Or.inl rfl
  | setMaxPeers => exact Or.inl rfl
  | setMaxChannels => exact Or.inl rfl
  | getPeer hh hi => exact Or.inl rfl
  | nullAddress => exact Or.inl rfl
  | danglingPeer hc hl => exact Or.inl rfl
  | _ => exact Or.inl (turnstile_stay rfl (by rw [hpc]; rfl) rfl rfl)

/-- The two threads of a host pass its turnstile. -/
theorem turnstile_simulation : system.Simulation (Turnstile.machine Thread) State.turnstile where
  start := by
    rintro s ⟨events, messages, rfl⟩
    refine ⟨rfl, rfl, fun th => ?_⟩
    cases th with
    | host => rfl
    | game n => cases n <;> rfl
  step := by
    intro s a t hs hn hst
    cases (step_cases hst).2 with
    | worker hpc hw => exact (worker_turnstile hpc hw).imp_right fun h => ⟨.host, h⟩
    | call hpc hp hc => exact (call_turnstile hpc hc).imp_right fun h => ⟨gameThread, h⟩
    | go hg =>
      exact (go_turnstile (life hs) (reachable_inv hn) rfl hg).imp_right fun h => ⟨gameThread, h⟩

theorem exclusion (h : system.Reachable s) : Turnstile.Inv s.turnstile :=
  reachable_inv (turnstile_simulation.reachable h)

/-- Only one thread is between `acquireMutex` and `releaseMutex`. -/
theorem critical_exclusive (h : system.Reachable s) (hpc : s.world.worker = some pc)
    (hw : pc.place = .critical) : s.game.pc.place ≠ .critical := by
  intro hg
  have hp := (place_worker hpc).trans hw
  have := (exclusion h).critical_unique hp ((place_game s).trans hg)
  cases this

/-! ## Inside ENet -/

/-- The host thread is in an ENet function that modifies the host. -/
def WorkerPc.inENet : WorkerPc → Prop
  | .handing _ => True
  | .service _ => True
  | .check => True
  | _ => False

def GamePc.inENet : GamePc → Prop
  | .inside _ _ => True
  | .searching _ => True
  | .found _ _ => True
  | .unbindFlush => True
  | .unbindDestroy => True
  | _ => False

def Overlap (s : State) : Prop :=
  (∃ pc, s.world.worker = some pc ∧ pc.inENet) ∧ s.game.pc.inENet

/-- A `connect` to an address that resolves. -/
def Call.connects (env : Env) : Call → Bool
  | .connect addr _ => addr.isSome && env.resolves.isSome
  | _ => false

/-- The action is a `connect` that gets to `enet_host_connect`. -/
def Connects (s : State) : Action → Prop
  | .game (.call c env) => s.world.host.enetHost.isSome ∧ c.connects env
  | _ => False

instance (s : State) (a : Action) : Decidable (Connects s a) :=
  match a with
  | .worker _ => .isFalse id
  | .game (.go _) => .isFalse id
  | .game (.call c env) =>
    inferInstanceAs (Decidable (s.world.host.enetHost.isSome ∧ c.connects env))

/-- The game thread is in `enet_host_connect`. -/
def GamePc.connecting : GamePc → Prop
  | .searching _ => True
  | .found _ _ => True
  | _ => False

theorem go_connecting {w w' : World} {g g' : Game} {env : Env} {pc : GamePc} (hpc : g.pc = pc)
    (hn : ¬pc.connecting) (hs : GoStep gameThread w g env pc w' g') : ¬g'.pc.connecting := by
  cases hs with
  | searching hh hi => exact absurd trivial hn
  | fails hf => rw [hpc]; exact hn
  | _ => exact id

theorem GamePc.connecting.inENet {pc : GamePc} (h : pc.connecting) : pc.inENet := by
  cases pc <;> first | exact h.elim | trivial

/-- Only a `connect` brings the game thread into `enet_host_connect`. -/
theorem step_connecting (hc : ¬Connects s a) (hn : ¬s.game.pc.connecting) (h : Step s a t) :
    ¬t.game.pc.connecting := by
  cases h with
  | worker hpc hs => exact hn
  | call hpc hp hs =>
    cases hs with
    | connect hb hr => exact absurd ⟨hb, by rw [Call.connects, hr.1, hr.2]; rfl⟩ hc
    | returns => exact hn
    | setMaxPeers => exact hn
    | setMaxChannels => exact hn
    | getPeer hh hi => exact hn
    | nullAddress => exact hn
    | danglingPeer hc hl => exact hn
    | _ => exact id
  | go hs => exact go_connecting rfl hn hs

theorem not_overlap (h : system.Reachable s) (hn : ¬s.game.pc.connecting) : ¬Overlap s := by
  rintro ⟨⟨pc, hpc, hw⟩, hg⟩
  have hcrit : pc.place = .critical := by
    cases pc <;> first | exact hw.elim | rfl
  have hne := critical_exclusive h hpc hcrit
  have hnone : ∀ {x : Shape}, s.game.pc.shape = some x → x.worker = false → False := by
    intro x hx hf
    have := (life h).worker_none hx hf
    rw [hpc] at this
    cases this
  cases hp : s.game.pc with
  | inside method p => rw [hp] at hne; exact hne rfl
  | searching args => rw [hp] at hn; exact hn trivial
  | found i args => rw [hp] at hn; exact hn trivial
  | unbindFlush => exact hnone (by rw [hp]; rfl) rfl
  | unbindDestroy => exact hnone (by rw [hp]; rfl) rfl
  | _ => rw [hp] at hg; exact hg

/-! ## From a `connect` into an overlap -/

/-- A bound on the steps of the host thread into ENet. -/
def WorkerPc.distance : WorkerPc → Nat
  | .unlockHost => 8
  | .loopTest => 7
  | .lockAccess => 6
  | .lockHost => 5
  | .unlockAccess => 4
  | .isEmpty => 3
  | .popTest => 2
  | .popRead => 1
  | .poll => 1
  | .pushTest _ => 2
  | .pushWrite _ => 1
  | _ => 0

/-- A host thread that has left its loop was told to. -/
def Stopped (s : State) : Prop := s.world.worker = some .finished → s.world.host.running = false

theorem go_stopped {w' : World} {g' : Game} {env : Env} {pc : GamePc} (hl : Life s)
    (hi : Stopped s) (hpc : s.game.pc = pc)
    (hs : GoStep gameThread s.world s.game env pc w' g') : Stopped ⟨w', g'⟩ := by
  cases hs with
  | bindRunning =>
    have hw : s.world.worker = none := by
      unfold Life Fits at hl
      rw [hpc] at hl
      exact worker_none (by rw [show s.world.shape = _ from hl])
    exact fun e => by rw [show s.world.worker = _ from e] at hw; cases hw
  | bindThread => exact fun e => by cases e
  | unbindRunning => exact fun _ => rfl
  | unbindWait hw => exact fun e => by cases e
  | _ => exact hi

theorem step_stopped (hl : Life s) (hi : Stopped s) (h : Step s a t) : Stopped t := by
  cases h with
  | worker hpc hs =>
    cases hs with
    | leave hr => exact fun _ => hr
    | service hh => unfold World.polled; split <;> exact fun e => by cases e
    | check hh => unfold World.polled; split <;> exact fun e => by cases e
    | fails hf => exact hi
    | _ => exact fun e => by cases e
  | call hpc hp hs => cases hs <;> exact hi
  | go hs => exact go_stopped hl hi rfl hs

theorem stopped (h : system.Reachable s) : Stopped s := by
  have h₀ : ∀ s, system.start s → Life s ∧ Stopped s := by
    rintro s ⟨events, messages, rfl⟩
    exact ⟨Or.inr rfl, fun e => by cases e⟩
  exact (h.invariant h₀ fun _ _ _ hi hs =>
    ⟨step_life hi.1 (step_cases hs).2, step_stopped hi.1 hi.2 (step_cases hs).2⟩).2

theorem mutex_free {m : Option Mutex} (hs : m.isSome) (ho : m.bind Mutex.owner = none) :
    m = some ⟨none⟩ := by
  cases m with
  | none => cases hs
  | some m => exact congrArg (fun o => some (Mutex.mk o)) ho

theorem worker_step {w' : World} {input : WorkerInput} (hf : s.world.fault = none)
    (hpc : s.world.worker = some pc) (hr : workerRun s.world input pc = some w') :
    system.step s (.worker input) = some { s with world := w' } := by
  show step s (.worker input) = _
  unfold step
  rw [hf]
  show (workerStep s.world input).map _ = _
  rw [workerStep, hpc]
  show (workerRun s.world input pc).map _ = _
  rw [hr]
  rfl

/-- While the game thread is in `connect`, nothing stops the host thread on its
way into ENet. -/
theorem worker_advances (h : system.Reachable s) (hf : s.world.fault = none)
    (hg : s.game.pc.connecting) (hpc : s.world.worker = some pc) (hn : ¬pc.inENet) :
    ∃ w' pc', system.step s (.worker {}) = some { s with world := w' } ∧ w'.fault = none ∧
      w'.worker = some pc' ∧ pc'.distance < pc.distance := by
  have hgame : s.game.pc.shape = some .bound ∧ s.game.pc.place = .outside := by
    cases hp : s.game.pc <;> rw [hp] at hg <;> first | exact hg.elim | exact ⟨rfl, rfl⟩
  have hb : s.world.shape = .bound := (life h).bound hgame.1
  have hq := queues h
  have ha : s.world.host.accessMutex.isSome := congrArg Shape.accessMutex hb
  have hh : s.world.host.hostMutex.isSome := congrArg Shape.hostMutex hb
  have hrun : s.world.host.running = true := congrArg Shape.running hb
  have hgo : ∀ (x : World) (pc' : WorkerPc), workerRun s.world {} pc = some (x.goto pc') →
      x.fault = s.world.fault → pc'.distance < pc.distance →
      ∃ w' pc', system.step s (.worker {}) = some { s with world := w' } ∧ w'.fault = none ∧
        w'.worker = some pc' ∧ pc'.distance < pc.distance := by
    intro x pc' hx hxf hd
    exact ⟨x.goto pc', pc', worker_step hf hpc hx, hxf.trans hf, rfl, hd⟩
  cases pc with
  | loopTest =>
    refine hgo s.world .lockAccess ?_ rfl (by simp [WorkerPc.distance])
    rw [workerRun, hrun]
    rfl
  | lockAccess =>
    have hfree := (exclusion h).access_free
      (place_cases (fun p => ¬(p = .host ∨ p = .pass)) (by rw [hpc]; simp [WorkerPc.place])
        (by rw [hgame.2]; simp) (by simp))
    refine hgo (s.world.grant .host .access) .lockHost ?_ rfl (by simp [WorkerPc.distance])
    have hm : s.world.host.mutex .access = some ⟨none⟩ := mutex_free ha hfree
    rw [workerRun, World.lock, hm]
    rfl
  | lockHost =>
    have hfree := (exclusion h).host_free
      (place_cases (fun p => ¬(p = .pass ∨ p = .critical)) (by rw [hpc]; simp [WorkerPc.place])
        (by rw [hgame.2]; simp) (by simp))
    refine hgo (s.world.grant .host .host) .unlockAccess ?_ rfl (by simp [WorkerPc.distance])
    have hm : s.world.host.mutex .host = some ⟨none⟩ := mutex_free hh hfree
    rw [workerRun, World.lock, hm]
    rfl
  | unlockAccess =>
    refine hgo (s.world.release .access) .isEmpty ?_ rfl (by simp [WorkerPc.distance])
    rcases s.world.unlock_cases .access id (·.goto .isEmpty) with ⟨hm, _⟩ | ⟨_, e⟩
    · rw [show s.world.host.accessMutex = none from hm] at ha
      cases ha
    · rw [workerRun, e]
  | isEmpty =>
    refine hgo s.world (if s.world.host.messageQueue.isEmpty then .poll else .popTest) rfl rfl ?_
    split <;> simp [WorkerPc.distance]
  | popTest =>
    have he := hq.messages.item (by rw [World.popping, hpc]; trivial)
    refine hgo s.world .popRead ?_ rfl (by simp [WorkerPc.distance])
    rw [workerRun, he]
    rfl
  | popRead =>
    exact hgo (s.world.setMessages _) (.handing _) rfl rfl (by simp [WorkerPc.distance])
  | poll => exact hgo s.world (.service .dispatch) rfl rfl (by simp [WorkerPc.distance])
  | pushTest e =>
    refine hgo s.world (if s.world.host.eventQueue.isFull then .check else .pushWrite e) rfl rfl ?_
    split <;> simp [WorkerPc.distance]
  | pushWrite e =>
    exact hgo (s.world.setEvents _) .check rfl rfl (by simp [WorkerPc.distance])
  | unlockHost =>
    refine hgo (s.world.release .host) .loopTest ?_ rfl (by simp [WorkerPc.distance])
    rcases s.world.unlock_cases .host id (·.goto .loopTest) with ⟨hm, _⟩ | ⟨_, e⟩
    · rw [show s.world.host.hostMutex = none from hm] at hh
      cases hh
    · rw [workerRun, e]
  | finished =>
    rw [stopped h hpc] at hrun
    cases hrun
  | _ => exact absurd trivial hn

/-- A `connect` that has started can be overtaken. -/
theorem overlap_reached : ∀ (n : Nat) {s : State} {pc : WorkerPc}, system.Reachable s →
    s.world.fault = none → s.game.pc.connecting → s.world.worker = some pc → pc.distance ≤ n →
    ∃ as t, system.run s as = some t ∧ Overlap t := by
  intro n
  induction n with
  | zero =>
    intro s pc h hf hg hpc hd
    by_cases hin : pc.inENet
    · exact ⟨[], s, rfl, ⟨pc, hpc, hin⟩, hg.inENet⟩
    · obtain ⟨w', pc', _, _, _, hlt⟩ := worker_advances h hf hg hpc hin
      omega
  | succ n ih =>
    intro s pc h hf hg hpc hd
    by_cases hin : pc.inENet
    · exact ⟨[], s, rfl, ⟨pc, hpc, hin⟩, hg.inENet⟩
    · obtain ⟨w', pc', hst, hf', hpc', hlt⟩ := worker_advances h hf hg hpc hin
      obtain ⟨as, t, hr, ht⟩ := ih (h.step hst) hf' hg hpc' (by omega)
      exact ⟨.worker {} :: as, t, Machine.run_cons.mpr ⟨_, hst, hr⟩, ht⟩

theorem call_step {c : Call} {env : Env} (hf : s.world.fault = none) (hpc : s.game.pc = .idle)
    (hp : c.peer.all (· ∈ s.game.handles)) :
    let r := startCall s.world { s.game with since := s.world.session } env c
    system.step s (.game (.call c env)) = some ⟨r.1, r.2⟩ := by
  show step s (.game (.call c env)) = _
  unfold step
  rw [hf]
  show (gameStep gameThread s.world s.game (.call c env)).map _ = _
  unfold gameStep
  simp only [hpc]
  rw [if_pos hp]
  rfl

theorem go_step {w : World} {g : Game} {env : Env} {pc : GamePc} (hf : s.world.fault = none)
    (hpc : s.game.pc = pc) (hg : goOn gameThread s.world s.game env pc = some (w, g)) :
    system.step s (.game (.go env)) = some ⟨w, g⟩ := by
  show step s (.game (.go env)) = _
  unfold step
  rw [hf]
  show (goOn gameThread s.world s.game env s.game.pc).map _ = _
  rw [hpc, hg]
  rfl

theorem connect_starts (hc : Connects s a) (h : system.step s a = some t) :
    s.game.pc = .idle ∧ s.world.host.enetHost.isSome ∧ t.world = s.world ∧
      t.game.pc.connecting := by
  obtain ⟨hf, hst⟩ := step_cases h
  cases hst with
  | worker hpc hs => exact hc.elim
  | go hs => exact hc.elim
  | @call c env w g hpc hp hs =>
    cases c with
    | connect addr data =>
      obtain ⟨hb, hres⟩ := hc
      obtain ⟨ha, hr⟩ := Bool.and_eq_true_iff.mp hres
      obtain ⟨x, rfl⟩ := Option.isSome_iff_exists.mp ha
      obtain ⟨y, hy⟩ := Option.isSome_iff_exists.mp hr
      rw [call_step hf hpc hp] at h
      simp only [startCall, hb, if_true, hy, Option.some.injEq, State.mk.injEq] at h
      obtain ⟨rfl, rfl⟩ := h
      exact ⟨hpc, hb, rfl, trivial⟩
    | _ => cases hc.2

/-- Without a `connect` the two threads are never inside ENet together, and after
each `connect` they can be. -/
theorem enet_exclusive (s : State) :
    (∀ as t, system.start s → system.Along (fun u a => ¬Connects u a) s as →
      system.run s as = some t → ¬Overlap t) ∧
    (∀ a t, system.Reachable s → Connects s a → system.step s a = some t →
      ∃ as u, system.run t as = some u ∧ Overlap u) := by
  refine ⟨fun as t h₀ hc hr => ?_, fun a t hs hc hst => ?_⟩
  · have hn : ¬t.game.pc.connecting := by
      refine Machine.run_preserves (I := fun u => ¬u.game.pc.connecting) ?_ hc ?_ hr
      · exact fun u a v hc hn huv => step_connecting hc hn (step_cases huv).2
      · obtain ⟨events, messages, rfl⟩ := h₀
        exact id
    exact not_overlap (Machine.Reachable.run (.start h₀) hr) hn
  · obtain ⟨hpc, hb, hw, hg⟩ := connect_starts hc hst
    have hshape : t.world.shape = .bound := hw ▸ bound_of_host ((life hs).idle hpc) hb
    obtain ⟨pc, hpc'⟩ := Option.isSome_iff_exists.mp (congrArg Shape.worker hshape)
    have hf : t.world.fault = none := hw ▸ (step_cases hst).1
    exact overlap_reached pc.distance (hs.step hst) hf hg hpc' (Nat.le_refl _)

def connectAction : Action := .game (.call (.connect (some ⟨"host", 7⟩) 0) {})

theorem enet_exclusive_bound :
    ∃ s t, system.run .fresh boundRun = some s ∧ ¬Overlap s ∧
      system.step s connectAction = some t ∧ ∃ as u, system.run t as = some u ∧ Overlap u := by
  obtain ⟨s, hs⟩ := Option.isSome_iff_exists.mp
    (show (system.run .fresh boundRun).isSome by rfl)
  obtain ⟨t, ht⟩ := Option.isSome_iff_exists.mp
    (show ((system.run .fresh boundRun).bind (system.step · connectAction)).isSome by rfl)
  rw [hs] at ht
  have hc : system.Along (fun u a => ¬Connects u a) .fresh boundRun := by decide
  have hb : (system.run .fresh boundRun).map (·.world.host.enetHost.isSome) = some true := by rfl
  rw [hs] at hb
  exact ⟨s, t, hs, (enet_exclusive _).1 _ _ fresh_start hc hs, ht,
    (enet_exclusive s).2 connectAction t ⟨_, _, fresh_start, hs⟩
      ⟨Option.some.inj hb, rfl⟩ ht⟩

/-- One slot, the host thread about to receive, the game thread in `connect`. -/
def overlapRun : List Action :=
  .game (.call (.setMaxPeers 1) {}) :: boundRun ++ List.replicate 10 (.worker {}) ++
    [connectAction, .game (.go {})]

/-- A datagram with a CONNECT. -/
def connectDatagram (address : ENet.Address) (source : address.host ≠ ENet.enetHostBroadcast) :
    ENet.Datagram where
  address := address
  peerID := none
  commands := [{ acknowledge := true, body := .connect ⟨1, 5, 1400, 0, true, true⟩ }]
  source := source

def received (d : ENet.Datagram) : Action := .worker { service := { received := .datagram d } }

def State.slot (s : State) (i : Nat) : Option ENet.Slot := s.world.host.enetHost.map (·.slot i)

/-- Both threads have found the same slot free, and both give it away. -/
theorem connect_overlaps :
    ∃ s t u, system.run .fresh overlapRun = some s ∧ Overlap s ∧
      system.step s (received (connectDatagram ⟨1, 1⟩ (by decide))) = some t ∧
      system.step t (.game (.go {})) = some u ∧
      (t.slot 0).map (fun x => (x.state, x.connection)) = some (.acknowledgingConnect, 1) ∧
      (u.slot 0).map (fun x => (x.state, x.connection)) = some (.connecting, 2) := by
  have hr : (system.run .fresh overlapRun).isSome := by rfl
  refine ⟨_, _, _, (Option.some_get hr).symm, ⟨⟨.service (.receive 0), by rfl, trivial⟩, ?_⟩,
    (Option.some_get (by rfl)).symm, (Option.some_get (by rfl)).symm, by rfl, by rfl⟩
  have hpc : ((system.run .fresh overlapRun).get hr).game.pc = .found 0 ⟨⟨0, 7⟩, 0⟩ := by rfl
  rw [hpc]
  trivial

end GDNet
