import GDNet.Host.System

/-!
# Bind and unbind

Between two calls of the game thread a host has all of its session or nothing of
it.  A `bind` that fails and an `unbind` without a session leave the host alone,
neither thread locks or unlocks a mutex that is not there, and the thread of a
session makes no step after `unbind` has returned.
-/

namespace GDNet

open Transition

variable {s t : State} {a : Action}

/-- A host thread has the ENet host and both mutexes. -/
theorem Life.worker (hl : Life s) (hw : s.world.worker.isSome) :
    s.world.host.enetHost.isSome ∧ s.world.host.accessMutex.isSome ∧
      s.world.host.hostMutex.isSome := by
  have hshape : s.world.shape.worker = true := hw
  have hall : s.world.shape.enetHost = true ∧ s.world.shape.accessMutex = true ∧
      s.world.shape.hostMutex = true := by
    unfold Life Fits at hl
    cases hp : s.game.pc.shape with
    | some x =>
      simp only [hp] at hl
      rw [hl] at hshape ⊢
      cases hpc : s.game.pc <;> rw [hpc] at hp <;> cases hp <;>
        simp_all [Shape.bound, Shape.unbound]
    | none =>
      simp only [hp] at hl
      rcases hl with e | e
      · rw [e]; exact ⟨rfl, rfl, rfl⟩
      · rw [e] at hshape; cases hshape
  exact hall

/-- Between calls. -/
theorem Life.idle (hl : Life s) (hpc : s.game.pc = .idle) :
    s.world.shape = .bound ∨ s.world.shape = .unbound := by
  unfold Life at hl
  rw [hpc] at hl
  exact hl

theorem Life.bound (hl : Life s) (hpc : s.game.pc.shape = some .bound) :
    s.world.shape = .bound := by
  unfold Life Fits at hl
  rw [hpc] at hl
  exact hl

/-! ## No mutex is missing -/

theorem worker_nullMutex {w w' : World} {input : WorkerInput} {pc : WorkerPc}
    (hf : w.fault = none) (hs : WorkerStep w input pc w') (he : w'.fault = some .nullMutex) :
    w.host.accessMutex = none ∨ w.host.hostMutex = none := by
  cases hs with
  | fails hx =>
    obtain rfl := Option.some.inj he
    cases hx with
    | lockAccess hm => exact Or.inl hm
    | lockHost hm => exact Or.inr hm
    | unlockAccess hm => exact Or.inl hm
    | unlockHost hm => exact Or.inr hm
  | _ => simp [hf] at he

theorem go_nullMutex {w w' : World} {g g' : Game} {env : Env} {pc : GamePc}
    (hf : w.fault = none) (hs : GoStep gameThread w g env pc w' g')
    (he : w'.fault = some .nullMutex) :
    pc.shape = some .bound ∧ (w.host.accessMutex = none ∨ w.host.hostMutex = none) := by
  cases hs with
  | fails hx =>
    obtain rfl := Option.some.inj he
    cases hx with
    | lockAccess hm => exact ⟨rfl, Or.inl hm⟩
    | lockHost hm => exact ⟨rfl, Or.inr hm⟩
    | unlockAccess hm => exact ⟨rfl, Or.inl hm⟩
    | unlockHost hm => exact ⟨rfl, Or.inr hm⟩
  | _ => simp [hf] at he

theorem call_nullMutex {w w' : World} {g g' : Game} {env : Env} {c : Call}
    (hf : w.fault = none) (hs : CallStep w g env c w' g') : w'.fault ≠ some .nullMutex := by
  cases hs <;> simp [hf]

theorem step_nullMutex (hl : Life s) (hf : s.world.fault = none) (h : Step s a t) :
    t.world.fault ≠ some .nullMutex := by
  intro he
  cases h with
  | worker hpc hs =>
    obtain ⟨_, ha, hh⟩ := hl.worker (by rw [hpc]; rfl)
    rcases worker_nullMutex hf hs he with e | e
    · simp [e] at ha
    · simp [e] at hh
  | call hpc hp hs => exact call_nullMutex hf hs he
  | go hs =>
    obtain ⟨hb, hm⟩ := go_nullMutex hf hs he
    have hshape := hl.bound hb
    simp only [World.shape, Shape.bound, Shape.mk.injEq] at hshape
    rcases hm with e | e
    · simp [e] at hshape
    · simp [e] at hshape

/-! ## The thread of a session ends with it -/

/-- The sessions of the steps of a host thread. -/
def workerSessions (s : State) : Action → List Nat
  | .worker _ => [s.world.session]
  | .game _ => []

/-- Nothing is left of the session `n`. -/
def Over (n : Nat) (s : State) : Prop :=
  (s.world.host.enetHost = none ∧ s.world.worker = none ∧ s.world.session = n) ∨
    n < s.world.session

theorem worker_session {w w' : World} {input : WorkerInput} {pc : WorkerPc}
    (hs : WorkerStep w input pc w') : w'.session = w.session := by
  cases hs with
  | service hh => unfold World.polled; split <;> rfl
  | check hh => unfold World.polled; split <;> rfl
  | _ => rfl

theorem go_session {w w' : World} {g g' : Game} {env : Env} {pc : GamePc}
    (hs : GoStep gameThread w g env pc w' g') : w'.session = w.session := by
  cases hs <;> rfl

theorem call_session {w w' : World} {g g' : Game} {env : Env} {c : Call}
    (hs : CallStep w g env c w' g') :
    (w'.session = w.session ∧ w'.host.enetHost = w.host.enetHost ∧ w'.worker = w.worker) ∨
      w'.session = w.session + 1 := by
  cases hs with
  | bind hn hc => exact Or.inr rfl
  | _ => exact Or.inl ⟨rfl, rfl, rfl⟩

/-- Without an ENet host the game thread is at the end of `unbind` or reads events. -/
theorem go_unbound {w w' : World} {g g' : Game} {env : Env} {pc : GamePc} (hl : Fits w pc)
    (hh : w.host.enetHost = none) (hs : GoStep gameThread w g env pc w' g') :
    w'.host.enetHost = none ∧ w'.worker = w.worker := by
  have hshape : w.shape.enetHost = false := by simp [World.shape, hh]
  have hpc : pc.shape = none ∨ pc.shape = some .unbound := by
    unfold Fits at hl
    cases hp : pc.shape with
    | none => exact Or.inl rfl
    | some x =>
      right
      simp only [hp] at hl
      rw [hl] at hshape
      cases pc <;> cases hp <;> simp_all [Shape.bound]
  cases hs with
  | noEvent he => exact ⟨hh, rfl⟩
  | popTest he => exact ⟨hh, rfl⟩
  | popRead => exact ⟨hh, rfl⟩
  | unbindMessages => exact ⟨hh, rfl⟩
  | unbindEvents => exact ⟨hh, rfl⟩
  | fails hf => exact ⟨hh, rfl⟩
  | _ => simp [GamePc.shape, Shape.bound, Shape.unbound] at hpc

theorem step_over {n : Nat} (hl : Life s) (ho : Over n s) (h : Step s a t) : Over n t := by
  rcases ho with ⟨hh, hw, hn⟩ | hn
  · cases h with
    | worker hpc hs => rw [hw] at hpc; cases hpc
    | call hpc hp hs =>
      rcases call_session hs with ⟨h₁, h₂, h₃⟩ | h₁
      · exact Or.inl ⟨h₂.trans hh, h₃.trans hw, h₁.trans hn⟩
      · exact Or.inr (show n < _ by rw [h₁]; omega)
    | go hs =>
      obtain ⟨h₁, h₂⟩ := go_unbound hl hh hs
      exact Or.inl ⟨h₁, h₂.trans hw, (go_session hs).trans hn⟩
  · cases h with
    | worker hpc hs => exact Or.inr (show n < _ by rw [worker_session hs]; exact hn)
    | call hpc hp hs =>
      rcases call_session hs with ⟨h₁, _, _⟩ | h₁
      · exact Or.inr (show n < _ by rw [h₁]; exact hn)
      · exact Or.inr (show n < _ by rw [h₁]; omega)
    | go hs => exact Or.inr (show n < _ by rw [go_session hs]; exact hn)

/-- A call of `bind` that leaves the thread idle has failed. -/
theorem bind_failed {addr : Option NetAddress} {env : Env}
    (h : system.step s (.game (.call (.bind addr) env)) = some t) (ht : t.game.pc = .idle) :
    t.world = s.world ∧ t.game.handles = s.game.handles := by
  cases (step_cases h).2 with
  | call hpc hp hs =>
    cases hs with
    | returns => exact ⟨rfl, rfl⟩
    | bind hn hc => cases ht
    | broadcast hb hm hc => cases ht
    | danglingPeer hc hl => rcases hc with e | ⟨e, _⟩ <;> cases e
    | send hb hp hm => cases hp

theorem unbind_unbound {env : Env} (hn : s.world.host.enetHost = none)
    (h : system.step s (.game (.call .unbind env)) = some t) :
    t.world = s.world ∧ t.game.handles = s.game.handles ∧ t.game.pc = .idle := by
  cases (step_cases h).2 with
  | call hpc hp hs =>
    cases hs with
    | returns => exact ⟨rfl, rfl, hpc⟩
    | unbind hb => simp [hn] at hb
    | broadcast hb hm hc => simp [hn] at hb
    | danglingPeer hc hl => rcases hc with e | ⟨e, _⟩ <;> cases e
    | send hb hp hm => cases hp

theorem over_trace {as : List Action} {n : Nat} (hs : system.Reachable s)
    (ho : Over s.world.session s) (hr : system.run s as = some t)
    (hn : n ∈ system.trace workerSessions s as) : s.world.session < n := by
  obtain ⟨bs, a, cs, u, v, rfl, hu, hv, hmem⟩ := Machine.mem_trace hn
  have hkeep : ∀ x a y, system.Reachable x ∧ Over s.world.session x →
      system.step x a = some y → system.Reachable y ∧ Over s.world.session y := by
    rintro x a y ⟨hx, hox⟩ hxy
    exact ⟨hx.step hxy, step_over (life hx) hox (step_cases hxy).2⟩
  have hou : Over s.world.session u := (Machine.run_invariant hkeep ⟨hs, ho⟩ hu).2
  cases a with
  | game input => cases hmem
  | worker input =>
    obtain rfl := List.mem_singleton.mp hmem
    rcases hou with ⟨_, hw, _⟩ | h
    · cases (step_cases hv).2 with
      | worker hpc _ => rw [hw] at hpc; cases hpc
    · exact h

/-- The life cycle of a host, in every state that a game thread and the host thread
can reach together. -/
theorem bind_unbind (h : system.Reachable s) :
    (s.game.pc = .idle → s.world.shape = .bound ∨ s.world.shape = .unbound) ∧
    (∀ addr env t, system.step s (.game (.call (.bind addr) env)) = some t →
      t.game.pc = .idle → t.world = s.world ∧ t.game.handles = s.game.handles) ∧
    (∀ env t, s.world.host.enetHost = none →
      system.step s (.game (.call .unbind env)) = some t →
      t.world = s.world ∧ t.game.handles = s.game.handles ∧ t.game.pc = .idle) ∧
    s.world.fault ≠ some .nullMutex ∧
    (s.game.pc = .idle → s.world.host.enetHost = none → ∀ as t, system.run s as = some t →
      ∀ n ∈ system.trace workerSessions s as, s.world.session < n) := by
  have hl := life h
  refine ⟨hl.idle, fun _ _ _ => bind_failed, fun _ _ hn => unbind_unbound hn, ?_, ?_⟩
  · have h₀ : ∀ s, system.start s → system.Reachable s ∧ s.world.fault ≠ some .nullMutex := by
      rintro s ⟨events, messages, rfl⟩
      exact ⟨Machine.Reachable.start ⟨_, _, rfl⟩, fun e => by cases e⟩
    exact (h.invariant h₀ fun u a v hu hs =>
      ⟨hu.1.step hs, step_nullMutex (life hu.1) (step_cases hs).1 (step_cases hs).2⟩).2
  · intro hpc hn as t hr n hmem
    refine over_trace h (Or.inl ⟨hn, ?_, rfl⟩) hr hmem
    rcases hl.idle hpc with e | e
    · have := congrArg Shape.enetHost e
      simp [World.shape, Shape.bound, hn] at this
    · have := congrArg Shape.worker e
      simpa [World.shape, Shape.unbound] using this

/-- A `bind`, up to where the thread of the session is running. -/
def boundRun : List Action :=
  .game (.call (.bind (some ⟨"", 7000⟩)) {}) :: List.replicate 5 (.game (.go {}))

/-- An `unbind`, with the last step of the thread. -/
def unbindRun : List Action :=
  [.game (.call .unbind {}), .game (.go {}), .worker {}] ++ List.replicate 8 (.game (.go {}))

def sessionRun : List Action := boundRun ++ unbindRun

theorem bind_unbind_session :
    ∃ s, system.run .fresh sessionRun = some s ∧ s.world.shape = .unbound ∧
      ∀ as t, system.run s as = some t → ∀ n ∈ system.trace workerSessions s as, 1 < n := by
  have hr : (system.run .fresh sessionRun).map
      (fun s => (s.game.pc, s.world.shape, s.world.session)) = some (.idle, .unbound, 1) := by rfl
  obtain ⟨s, hs, he⟩ := Option.map_eq_some_iff.mp hr
  simp only [Prod.mk.injEq] at he
  have hn : s.world.host.enetHost = none := by
    have := congrArg Shape.enetHost he.2.1
    simpa [World.shape, Shape.unbound] using this
  refine ⟨s, hs, he.2.1, ?_⟩
  rw [← he.2.2]
  exact (bind_unbind ⟨_, _, fresh_start, hs⟩).2.2.2.2 he.1 hn

end GDNet
