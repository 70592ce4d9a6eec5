import GDNet.ENet.Polling
import GDNet.Host.Exclusion
import GDNet.Host.Slots

/-!
# The loop of `poll_events`

Behind the first event of a call to `enet_host_service`, the host thread pushes
events until `enet_host_check_events` has none.  It does so with the host locked,
so the loop has to end by itself.
-/

namespace GDNet

open Transition

variable {s t : State}

/-- The event whose push begins with the step. -/
def pushedEvents (s : State) : Action → List QueuedEvent
  | .worker _ =>
    match s.world.worker with
    | some (.pushTest e) => [e]
    | _ => []
  | .game _ => []

/-- The steps of the host thread alone, under the first of the inputs. -/
structure Runs (s : State) (inputs : List WorkerInput) (n pushes : Nat) (t : State)
    (rest : List WorkerInput) : Prop where
  steps : ∃ used, inputs = used ++ rest ∧ used.length ≤ n ∧
    system.run s (used.map .worker) = some t ∧
    (system.trace pushedEvents s (used.map .worker)).length = pushes
  fault : t.world.fault = none

theorem Runs.trans {s t u : State} {inputs inputs' rest : List WorkerInput} {n n' k k' : Nat}
    (h : Runs s inputs n k t inputs') (h' : Runs t inputs' n' k' u rest) :
    Runs s inputs (n + n') (k + k') u rest := by
  obtain ⟨used, rfl, hn, hr, hk⟩ := h.steps
  obtain ⟨used', rfl, hn', hr', hk'⟩ := h'.steps
  refine ⟨⟨used ++ used', (List.append_assoc _ _ _).symm, ?_, ?_, ?_⟩, h'.fault⟩
  · rw [List.length_append]
    omega
  · rw [List.map_append, Machine.run_append]
    exact ⟨t, hr, hr'⟩
  · rw [List.map_append, Machine.trace_append _ hr, List.length_append, hk, hk']

theorem Runs.step {pc : WorkerPc} {w : World} {input : WorkerInput} {rest : List WorkerInput}
    (hf : s.world.fault = none) (hpc : s.world.worker = some pc)
    (hr : workerRun s.world input pc = some w) (hw : w.fault = none) :
    Runs s (input :: rest) 1 (pushedEvents s (.worker input)).length { s with world := w }
      rest := by
  have hst := worker_step hf hpc hr
  refine ⟨⟨[input], rfl, Nat.le_refl 1, Machine.run_single.mpr hst, ?_⟩, hw⟩
  show (system.trace pushedEvents s [.worker input]).length = _
  rw [Machine.trace_single hst]

/-- The push of an event, accepted or refused, leads back to the check. -/
theorem push_returns (hf : s.world.fault = none) {e : QueuedEvent}
    (hpc : s.world.worker = some (.pushTest e)) {inputs : List WorkerInput}
    (hlen : 2 ≤ inputs.length) :
    ∃ t rest, Runs s inputs 2 1 t rest ∧ t.world.worker = some .check ∧ t.enet = s.enet := by
  have hview : ∀ input, (pushedEvents s (.worker input)).length = 1 := by
    intro input
    rw [pushedEvents, hpc]
    rfl
  match inputs, hlen with
  | input :: input' :: rest, _ =>
    cases hfull : s.world.host.eventQueue.isFull with
    | true =>
      have hst : workerRun s.world input (.pushTest e) = some (s.world.goto .check) := by
        rw [workerRun, hfull]
        rfl
      obtain ⟨used, hused, hn, hr, hk⟩ :=
        (@Runs.step _ _ _ input (input' :: rest) hf hpc hst hf).steps
      exact ⟨_, input' :: rest, ⟨⟨used, hused, by omega, hr, hk.trans (hview input)⟩, hf⟩,
        rfl, rfl⟩
    | false =>
      have hst : workerRun s.world input (.pushTest e) = some (s.world.goto (.pushWrite e)) := by
        rw [workerRun, hfull]
        rfl
      have hfirst := @Runs.step _ _ _ input (input' :: rest) hf hpc hst hf
      rw [hview input] at hfirst
      exact ⟨_, rest, hfirst.trans (Runs.step hf rfl rfl hf), rfl, rfl⟩

/-- A check without an event ends the loop, and one with an event leaves less to do. -/
theorem check_steps (hf : s.world.fault = none) (hpc : s.world.worker = some .check) {h : ENet.Host}
    (hh : s.enet = some h) (hm : h.Marked) (input : WorkerInput) (rest : List WorkerInput) :
    ∃ t h', Runs s (input :: rest) 1 0 t rest ∧ t.enet = some h' ∧ h'.Marked ∧
      ((t.world.worker = some .unlockHost ∧ h'.dispatchQueue = []) ∨
        (∃ e, t.world.worker = some (.pushTest e)) ∧ h'.backlog < h.backlog) := by
  have hchecked := ENet.dispatch_checked hm
  have hst : workerRun s.world input .check = some (s.world.polled input.time
      (ENet.protocolDispatchIncomingCommands h).1
      (.done (ENet.protocolDispatchIncomingCommands h).2)) := by
    rw [workerRun, show s.world.host.enetHost = some h from hh]
  have hview : (pushedEvents s (.worker input)).length = 0 := by
    rw [pushedEvents, hpc]
    rfl
  have hstep := @Runs.step _ _ _ input rest hf hpc hst (by rw [World.polled_fault]; exact hf)
  rw [hview] at hstep
  refine ⟨_, _, hstep, (polled_enet _ _ _ _).1, hchecked.marked, ?_⟩
  cases he : (ENet.protocolDispatchIncomingCommands h).2 with
  | none => exact Or.inl ⟨rfl, hchecked.done he⟩
  | some e => exact Or.inr ⟨⟨_, rfl⟩, hchecked.less (by rw [he]; rfl)⟩

/-- With nobody else on the host, the loop pushes at most one event for each place in
the dispatch queue and each packet of the peers in it, and leaves the queue empty. -/
theorem poll_terminates {h : ENet.Host} (hf : s.world.fault = none)
    (hpc : s.world.worker = some .check) (hh : s.enet = some h) (hm : h.Marked)
    (inputs : List WorkerInput) (hlen : 3 * h.backlog + 1 ≤ inputs.length) :
    ∃ used rest t h', inputs = used ++ rest ∧ used.length ≤ 3 * h.backlog + 1 ∧
      system.run s (used.map .worker) = some t ∧ t.world.worker = some .unlockHost ∧
      t.enet = some h' ∧ h'.dispatchQueue = [] ∧
      (system.trace pushedEvents s (used.map .worker)).length ≤ h.backlog := by
  have hloop : ∀ (n : Nat) {s : State} {h : ENet.Host} {inputs : List WorkerInput},
      s.world.fault = none → s.world.worker = some .check → s.enet = some h → h.Marked →
      h.backlog ≤ n → 3 * n + 1 ≤ inputs.length →
      ∃ k t rest h', Runs s inputs (3 * n + 1) k t rest ∧ k ≤ n ∧
        t.world.worker = some .unlockHost ∧ t.enet = some h' ∧ h'.dispatchQueue = [] := by
    intro n
    induction n with
    | zero =>
      intro s h inputs hf hpc hh hm hb hlen
      match inputs, hlen with
      | input :: rest, _ =>
        obtain ⟨t, h', hrun, hh', _, ⟨hpc', hq⟩ | ⟨_, hlt⟩⟩ := check_steps hf hpc hh hm input rest
        · exact ⟨0, t, rest, h', hrun, Nat.le_refl 0, hpc', hh', hq⟩
        · omega
    | succ n ih =>
      intro s h inputs hf hpc hh hm hb hlen
      match inputs, hlen with
      | input :: rest, hlen =>
        rw [List.length_cons] at hlen
        obtain ⟨t, h', hrun, hh', hm', ⟨hpc', hq⟩ | ⟨⟨e, hpc'⟩, hlt⟩⟩ :=
          check_steps hf hpc hh hm input rest
        · obtain ⟨used, hused, hn, hr, hk⟩ := hrun.steps
          exact ⟨0, t, rest, h', ⟨⟨used, hused, by omega, hr, hk⟩, hrun.fault⟩, Nat.zero_le _, hpc',
            hh', hq⟩
        · obtain ⟨u, rest', hpush, hpcu, hhu⟩ := @push_returns t hrun.fault e hpc' rest
            (by omega)
          have hlen' : 3 * n + 1 ≤ rest'.length := by
            obtain ⟨used, hused, hn, _⟩ := hpush.steps
            have := congrArg List.length hused
            rw [List.length_append] at this
            omega
          obtain ⟨k, v, rest'', g, hrest, hk, hpcv, hhv, hqv⟩ :=
            ih hpush.fault hpcu (hhu.trans hh') hm' (by omega) hlen'
          obtain ⟨used, hused, hn, hr, hcount⟩ := ((hrun.trans hpush).trans hrest).steps
          exact ⟨0 + 1 + k, v, rest'', g,
            ⟨⟨used, hused, by omega, hr, hcount⟩, hrest.fault⟩, by omega,
            hpcv, hhv, hqv⟩
  obtain ⟨k, t, rest, h', hrun, hk, hpc', hh', hq⟩ :=
    hloop h.backlog hf hpc hh hm (Nat.le_refl _) hlen
  obtain ⟨used, hused, hn, hr, hcount⟩ := hrun.steps
  exact ⟨used, rest, t, h', hused, hn, hr, hpc', hh', hq, hcount ▸ hk⟩

/-- The first peer has two packets and the second timed out. -/
def waitingHost : ENet.Host :=
  let h := (ENet.hostCreate none 2 1 0 true).get rfl
  let h := h.update 0 fun p =>
    { p with state := .connected, dispatchedCommands := [⟨0, ⟨1, [7]⟩⟩, ⟨0, ⟨1, [8]⟩⟩] }
  ENet.protocolDispatchState (ENet.queueDispatch h 0) 1 .zombie

def State.polling : State where
  world :=
    { State.fresh.world with
      host := { State.fresh.world.host with enetHost := some waitingHost }
      worker := some .check }
  game := State.fresh.game

/-- The first peer is put back into the queue behind the second. -/
theorem poll_terminates_waiting :
    waitingHost.dispatchQueue = [0, 1] ∧ waitingHost.backlog = 4 ∧
      ∃ used rest t h', List.replicate 13 ({} : WorkerInput) = used ++ rest ∧
        used.length ≤ 13 ∧ system.run .polling (used.map .worker) = some t ∧
        t.world.worker = some .unlockHost ∧ t.enet = some h' ∧ h'.dispatchQueue = [] ∧
        (system.trace pushedEvents .polling (used.map .worker)).length ≤ 4 := by
  have hm : waitingHost.Marked := by
    refine ⟨by decide, fun i hi => ?_⟩
    have hi : i = 0 ∨ i = 1 := by
      simpa using (show i ∈ [0, 1] from hi)
    rcases hi with rfl | rfl <;> rfl
  exact ⟨rfl, rfl, poll_terminates (s := .polling) rfl rfl rfl hm (List.replicate 13 {})
    (by decide)⟩

end GDNet
