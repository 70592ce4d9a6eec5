import GDNet.Host.Lifecycle
import GDNet.Queue.Turns

/-!
# The two queues of a session

The game thread is the only writer of `_message_queue` and the only reader of
`_event_queue`, the host thread the other side of each.  A session starts with
both queues empty, and until `unbind` clears them every step is a turn of a queue
with one writer and one reader.
-/

namespace GDNet

open Transition

variable {s t : State} {a : Action}

/-! ## What a step writes and what it reads -/

def writtenMessages (s : State) : Action → List QueuedMessage
  | .worker _ => []
  | .game (.call _ _) => []
  | .game (.go _) =>
    match s.game.pc with
    | .pushWrite m => [s.world.queuedMessage s.game.since m]
    | _ => []

def poppedMessages (s : State) : Action → List QueuedMessage
  | .worker _ =>
    match s.world.worker with
    | some .popRead => [s.world.host.messageQueue.front]
    | _ => []
  | .game _ => []

def writtenEvents (s : State) : Action → List QueuedEvent
  | .worker _ =>
    match s.world.worker with
    | some (.pushWrite e) => [e]
    | _ => []
  | .game _ => []

def poppedEvents (s : State) : Action → List QueuedEvent
  | .worker _ => []
  | .game (.call _ _) => []
  | .game (.go _) =>
    match s.game.pc with
    | .popRead => [s.world.host.eventQueue.front]
    | _ => []

/-- What `get_event` returns at the step; `none` is `NULL`. -/
def returnedEvents (s : State) : Action → List (Option Event)
  | .worker _ => []
  | .game (.call _ _) => []
  | .game (.go _) =>
    match s.game.pc with
    | .popTest => if s.world.host.eventQueue.isEmpty then [none] else []
    | .popRead => [some s.world.host.eventQueue.front.item]
    | _ => []

/-- The step is one of the two that clear a queue in `unbind`. -/
def Clears (s : State) : Action → Prop
  | .game (.go _) => s.game.pc = .unbindMessages ∨ s.game.pc = .unbindEvents
  | _ => False

instance (s : State) (a : Action) : Decidable (Clears s a) :=
  match a with
  | .worker _ => .isFalse id
  | .game (.call _ _) => .isFalse id
  | .game (.go _) =>
    inferInstanceAs (Decidable (s.game.pc = .unbindMessages ∨ s.game.pc = .unbindEvents))

/-- The host thread has seen a message that it has not read. -/
def World.popping (w : World) : Prop :=
  match w.worker with
  | some .popTest => True
  | some .popRead => True
  | _ => False

/-- The host thread has seen a free cell that it has not written. -/
def World.pushing (w : World) : Prop :=
  match w.worker with
  | some (.pushWrite _) => True
  | _ => False

def GamePc.pushing : GamePc → Prop
  | .pushWrite _ => True
  | _ => False

def GamePc.popping : GamePc → Prop
  | .popRead => True
  | _ => False

/-! ## Every step is a turn -/

abbrev MessageTurn (w : World) (pc : GamePc) (w' : World) (pc' : GamePc) :
    List QueuedMessage → List QueuedMessage → Prop :=
  Queue.Turn w.host.messageQueue pc.pushing w.popping w'.host.messageQueue pc'.pushing w'.popping

abbrev EventTurn (w : World) (pc : GamePc) (w' : World) (pc' : GamePc) :
    List QueuedEvent → List QueuedEvent → Prop :=
  Queue.Turn w.host.eventQueue w.pushing pc.popping w'.host.eventQueue w'.pushing pc'.popping

/-- A step that leaves a queue alone and brings neither side past its test. -/
theorem MessageTurn.stay {w w' : World} {pc pc' : GamePc}
    (hq : w'.host.messageQueue = w.host.messageQueue) (hw : pc'.pushing → pc.pushing)
    (hr : w'.popping → w.popping) : MessageTurn w pc w' pc' [] [] := by
  unfold MessageTurn
  rw [hq]
  exact .keep (fun h => Or.inl (hw h)) fun h => Or.inl (hr h)

theorem EventTurn.stay {w w' : World} {pc pc' : GamePc}
    (hq : w'.host.eventQueue = w.host.eventQueue) (hw : w'.pushing → w.pushing)
    (hr : pc'.popping → pc.popping) : EventTurn w pc w' pc' [] [] := by
  unfold EventTurn
  rw [hq]
  exact .keep (fun h => Or.inl (hw h)) fun h => Or.inl (hr h)

theorem polled_queues (w : World) (time : Int) (h : ENet.Host) (outcome : ENet.ServiceOutcome) :
    (w.polled time h outcome).host.messageQueue = w.host.messageQueue ∧
    (w.polled time h outcome).host.eventQueue = w.host.eventQueue ∧
    ¬(w.polled time h outcome).popping ∧ ¬(w.polled time h outcome).pushing := by
  unfold World.polled
  split <;> exact ⟨rfl, rfl, id, id⟩

theorem worker_messages {w' : World} {input : WorkerInput} {pc : WorkerPc}
    (hpc : s.world.worker = some pc) (hs : WorkerStep s.world input pc w') :
    MessageTurn s.world s.game.pc w' s.game.pc [] (poppedMessages s (.worker input)) := by
  have hstay : ∀ {x : World}, x.host.messageQueue = s.world.host.messageQueue → ¬x.popping →
      MessageTurn s.world s.game.pc x s.game.pc [] [] :=
    fun hq hx => .stay hq id fun hp => absurd hp hx
  rw [poppedMessages, hpc]
  cases hs with
  | more he => exact .keep Or.inl fun _ => Or.inr he
  | popTest he => exact .keep Or.inl fun _ => Or.inr he
  | popRead =>
    refine .read ?_ id id
    rw [World.popping, hpc]
    trivial
  | service hh => exact hstay (polled_queues _ _ _ _).1 (polled_queues _ _ _ _).2.2.1
  | check hh => exact hstay (polled_queues _ _ _ _).1 (polled_queues _ _ _ _).2.2.1
  | fails hf => cases hf <;> exact .stay rfl id id
  | _ => exact hstay rfl id

theorem worker_events {w' : World} {input : WorkerInput} {pc : WorkerPc}
    (hpc : s.world.worker = some pc) (hs : WorkerStep s.world input pc w') :
    EventTurn s.world s.game.pc w' s.game.pc (writtenEvents s (.worker input)) [] := by
  have hstay : ∀ {x : World}, x.host.eventQueue = s.world.host.eventQueue → ¬x.pushing →
      EventTurn s.world s.game.pc x s.game.pc [] [] :=
    fun hq hx => .stay hq (fun hp => absurd hp hx) id
  rw [writtenEvents, hpc]
  cases hs with
  | pushTest hf => exact .keep (fun _ => Or.inr hf) Or.inl
  | pushWrite =>
    refine .write ?_ id id
    rw [World.pushing, hpc]
    trivial
  | service hh => exact hstay (polled_queues _ _ _ _).2.1 (polled_queues _ _ _ _).2.2.2
  | check hh => exact hstay (polled_queues _ _ _ _).2.1 (polled_queues _ _ _ _).2.2.2
  | fails hf => cases hf <;> exact .stay rfl id id
  | _ => exact hstay rfl id

theorem go_messages {w' : World} {g' : Game} {env : Env} {pc : GamePc} (hpc : s.game.pc = pc)
    (hs : GoStep gameThread s.world s.game env pc w' g') (hc : ¬Clears s (.game (.go env))) :
    MessageTurn s.world pc w' g'.pc (writtenMessages s (.game (.go env))) [] := by
  rw [writtenMessages, hpc]
  cases hs with
  | pushTest hf => exact .keep (fun _ => Or.inr hf) Or.inl
  | pushWrite => exact .write trivial id id
  | bindThread => exact .stay rfl False.elim False.elim
  | unbindWait hw => exact .stay rfl False.elim False.elim
  | unbindMessages => exact absurd (Or.inl hpc) hc
  | fails hf => cases hf <;> exact .stay rfl (by rw [hpc]; exact id) id
  | _ => exact .stay rfl False.elim id

theorem go_events {w' : World} {g' : Game} {env : Env} {pc : GamePc} (hpc : s.game.pc = pc)
    (hs : GoStep gameThread s.world s.game env pc w' g') (hc : ¬Clears s (.game (.go env))) :
    EventTurn s.world pc w' g'.pc [] (poppedEvents s (.game (.go env))) := by
  rw [poppedEvents, hpc]
  cases hs with
  | popTest he => exact .keep Or.inl fun _ => Or.inr he
  | popRead => exact .read trivial id id
  | bindThread => exact .stay rfl False.elim False.elim
  | unbindWait hw => exact .stay rfl False.elim False.elim
  | unbindEvents => exact absurd (Or.inr hpc) hc
  | fails hf => cases hf <;> exact .stay rfl id (by rw [hpc]; exact id)
  | _ => exact .stay rfl id False.elim

/-- A call that starts is past none of the tests. -/
theorem call_queues {w w' : World} {g g' : Game} {env : Env} {c : Call}
    (hs : CallStep w g env c w' g') (hg : g.pc = .idle) :
    w'.host.messageQueue = w.host.messageQueue ∧ w'.host.eventQueue = w.host.eventQueue ∧
      w'.worker = w.worker ∧ ¬g'.pc.pushing ∧ ¬g'.pc.popping := by
  have hidle : ¬g.pc.pushing ∧ ¬g.pc.popping := by
    rw [hg]
    exact ⟨id, id⟩
  cases hs with
  | returns => exact ⟨rfl, rfl, rfl, hidle⟩
  | setMaxPeers => exact ⟨rfl, rfl, rfl, hidle⟩
  | setMaxChannels => exact ⟨rfl, rfl, rfl, hidle⟩
  | getPeer hh hi => exact ⟨rfl, rfl, rfl, hidle⟩
  | nullAddress => exact ⟨rfl, rfl, rfl, hidle⟩
  | danglingPeer hc hl => exact ⟨rfl, rfl, rfl, hidle⟩
  | _ => exact ⟨rfl, rfl, rfl, id, id⟩

theorem popping_congr {w w' : World} (h : w'.worker = w.worker) : w'.popping ↔ w.popping := by
  rw [World.popping, World.popping, h]

theorem pushing_congr {w w' : World} (h : w'.worker = w.worker) : w'.pushing ↔ w.pushing := by
  rw [World.pushing, World.pushing, h]

theorem messages_turn (hc : ¬Clears s a) (h : Step s a t) :
    MessageTurn s.world s.game.pc t.world t.game.pc (writtenMessages s a) (poppedMessages s a) := by
  cases h with
  | worker hpc hs => exact worker_messages hpc hs
  | call hpc hp hs =>
    obtain ⟨hq, _, hw, hn, _⟩ := call_queues hs hpc
    exact .stay hq (fun hx => absurd hx hn) (popping_congr hw).mp
  | go hs => exact go_messages rfl hs hc

theorem events_turn (hc : ¬Clears s a) (h : Step s a t) :
    EventTurn s.world s.game.pc t.world t.game.pc (writtenEvents s a) (poppedEvents s a) := by
  cases h with
  | worker hpc hs => exact worker_events hpc hs
  | call hpc hp hs =>
    obtain ⟨_, hq, hw, _, hn⟩ := call_queues hs hpc
    exact .stay hq (pushing_congr hw).mp fun hx => absurd hx hn
  | go hs => exact go_events rfl hs hc

/-! ## Both sides find what they tested for -/

structure Queues (s : State) : Prop where
  messages : s.world.host.messageQueue.Ready s.game.pc.pushing s.world.popping
  events : s.world.host.eventQueue.Ready s.world.pushing s.game.pc.popping

/-- Nothing is left to do for the host thread when `unbind` clears the queues. -/
theorem go_clears {w' : World} {g' : Game} {env : Env} {pc : GamePc} (hq : Queues s)
    (hl : Life s) (hpc : s.game.pc = pc) (hc : Clears s (.game (.go env)))
    (hs : GoStep gameThread s.world s.game env pc w' g') : Queues ⟨w', g'⟩ := by
  have hw : s.world.worker = none := by
    have hshape : s.game.pc.shape = some .unbound := by
      rcases hc with e | e <;> rw [e] <;> rfl
    unfold Life Fits at hl
    rw [hshape] at hl
    have := congrArg Shape.worker hl
    simpa [World.shape, Shape.unbound] using this
  have hnone : ¬s.world.popping ∧ ¬s.world.pushing := by
    rw [World.popping, World.pushing, hw]
    exact ⟨id, id⟩
  rcases hc with e | e
  · obtain rfl := hpc.symm.trans e
    cases hs with
    | unbindMessages =>
      refine ⟨⟨hq.messages.valid.clear_spec.2, False.elim, ?_⟩, ⟨hq.events.valid, ?_, False.elim⟩⟩
      · exact fun hx => absurd hx hnone.1
      · exact fun hx => absurd hx hnone.2
    | fails hf => cases hf
  · obtain rfl := hpc.symm.trans e
    cases hs with
    | unbindEvents =>
      refine ⟨⟨hq.messages.valid, False.elim, ?_⟩, ⟨hq.events.valid.clear_spec.2, ?_, False.elim⟩⟩
      · exact fun hx => absurd hx hnone.1
      · exact fun hx => absurd hx hnone.2
    | fails hf => cases hf

theorem step_queues (hq : Queues s) (hl : Life s) (h : Step s a t) : Queues t := by
  by_cases hc : Clears s a
  · cases h with
    | worker hpc hs => exact hc.elim
    | call hpc hp hs => exact hc.elim
    | go hs => exact go_clears hq hl rfl hc hs
  · exact ⟨(messages_turn hc h).ready hq.messages, (events_turn hc h).ready hq.events⟩

theorem queues (h : system.Reachable s) : Queues s := by
  have h₀ : ∀ s, system.start s → Life s ∧ Queues s := by
    rintro s ⟨events, messages, rfl⟩
    refine ⟨Or.inr rfl, ⟨?_, False.elim, False.elim⟩, ⟨?_, False.elim, False.elim⟩⟩
    · exact Queue.create_valid (by decide) messages
    · exact Queue.create_valid (by decide) events
  exact (h.invariant h₀ fun _ _ _ hi hs =>
    ⟨step_life hi.1 (step_cases hs).2, step_queues hi.2 hi.1 (step_cases hs).2⟩).2

/-! ## A session starts with both queues empty -/

/-- The points at which `_message_queue` can hold items although no thread runs. -/
def GamePc.leavesMessages : GamePc → Prop
  | .unbindThread => True
  | .unbindAccess => True
  | .unbindHost => True
  | .unbindFlush => True
  | .unbindDestroy => True
  | .unbindMessages => True
  | _ => False

def GamePc.leavesEvents : GamePc → Prop
  | .unbindEvents => True
  | pc => pc.leavesMessages

theorem GamePc.leavesMessages.leavesEvents {pc : GamePc} (h : pc.leavesMessages) :
    pc.leavesEvents := by
  cases pc <;> first | exact h | trivial

/-- Without a host thread, and after the clears of `unbind`, both queues are empty. -/
def Cleared (s : State) : Prop :=
  s.world.worker = none →
    (¬s.game.pc.leavesMessages → s.world.host.messageQueue.pending = []) ∧
    (¬s.game.pc.leavesEvents → s.world.host.eventQueue.pending = [])

theorem Life.started (hl : Life s) {x : Shape} (hp : s.game.pc.shape = some x)
    (hx : x.worker = true) : s.world.worker ≠ none := by
  unfold Life Fits at hl
  rw [hp] at hl
  intro hw
  have := congrArg Shape.worker hl
  simp [World.shape, hw, hx] at this

theorem go_cleared {w' : World} {g' : Game} {env : Env} {pc : GamePc} (hi : Cleared s)
    (hm : s.world.host.messageQueue.Valid) (he : s.world.host.eventQueue.Valid)
    (hr : pc = .popRead → s.world.host.eventQueue.isEmpty = false) (hl : Life s)
    (hpc : s.game.pc = pc) (hs : GoStep gameThread s.world s.game env pc w' g') :
    Cleared ⟨w', g'⟩ := by
  have hrun : ∀ {x : Shape}, pc.shape = some x → x.worker = true → s.world.worker = none → False :=
    fun hx hw hn => hl.started (by rw [hpc]; exact hx) hw hn
  have hkeep : ¬pc.leavesEvents → w'.host.messageQueue = s.world.host.messageQueue →
      w'.host.eventQueue = s.world.host.eventQueue → w'.worker = s.world.worker →
      Cleared ⟨w', g'⟩ := by
    intro hn hm he hw hw'
    obtain ⟨h₁, h₂⟩ := hi (hw.symm.trans hw')
    rw [hpc] at h₁ h₂
    exact ⟨fun _ => hm ▸ h₁ fun hx => hn hx.leavesEvents, fun _ => he ▸ h₂ hn⟩
  have hleave : g'.pc.leavesMessages → Cleared ⟨w', g'⟩ :=
    fun hx _ => ⟨fun hn => absurd hx hn, fun hn => absurd hx.leavesEvents hn⟩
  cases hs with
  | noEvent he => exact hkeep id rfl rfl rfl
  | popTest he => exact hkeep id rfl rfl rfl
  | popRead =>
    intro hw
    obtain ⟨_, h₂⟩ := hi hw
    have hp := h₂ (by rw [hpc]; exact id)
    exact absurd hp (he.pending_ne_nil (hr rfl))
  | bindRunning => exact hkeep id rfl rfl rfl
  | bindAccess => exact hkeep id rfl rfl rfl
  | bindHost => exact hkeep id rfl rfl rfl
  | bindThread => exact fun hw => absurd hw (Option.some_ne_none _)
  | unbindWait hw => exact hleave trivial
  | unbindThread => exact hleave trivial
  | unbindAccess => exact hleave trivial
  | unbindHost => exact hleave trivial
  | unbindFlush hh => exact hleave trivial
  | unbindDestroy => exact hleave trivial
  | unbindMessages =>
    intro _
    exact ⟨fun _ => hm.clear_spec.1, fun hn => absurd trivial hn⟩
  | unbindEvents =>
    intro hw
    refine ⟨fun _ => (hi hw).1 ?_, fun _ => he.clear_spec.1⟩
    rw [hpc]
    exact id
  | fails hf => exact hi
  | _ => exact fun hw => (hrun rfl rfl hw).elim

theorem worker_cleared {w : World} {input : WorkerInput} {pc : WorkerPc}
    (hpc : s.world.worker = some pc) (hs : WorkerStep s.world input pc w) :
    Cleared { s with world := w } := by
  intro hw
  have := congrArg Shape.worker (worker_shape hpc hs)
  rw [World.shape, World.shape, hpc, show w.worker = none from hw] at this
  cases this

theorem call_cleared {c : Call} {env : Env} {w : World} {g : Game} (hi : Cleared s)
    (hpc : s.game.pc = .idle)
    (hs : CallStep s.world { s.game with since := s.world.session } env c w g) :
    Cleared ⟨w, g⟩ := by
  obtain ⟨hm, he, hk, _, _⟩ := call_queues hs hpc
  intro hw
  obtain ⟨h₁, h₂⟩ := hi (hk.symm.trans hw)
  rw [hpc] at h₁ h₂
  exact ⟨fun _ => hm ▸ h₁ id, fun _ => he ▸ h₂ id⟩

theorem step_cleared (hi : Cleared s) (hq : Queues s) (hl : Life s) (h : Step s a t) :
    Cleared t := by
  cases h with
  | worker hpc hs => exact worker_cleared hpc hs
  | call hpc hp hs => exact call_cleared hi hpc hs
  | go hs =>
    refine go_cleared hi hq.messages.valid hq.events.valid (fun hx => hq.events.item ?_) hl rfl hs
    rw [hx]
    trivial

theorem cleared (h : system.Reachable s) : Cleared s := by
  have h₀ : ∀ s, system.start s → system.Reachable s ∧ Cleared s := by
    rintro s ⟨events, messages, rfl⟩
    refine ⟨Machine.Reachable.start ⟨_, _, rfl⟩, fun _ => ⟨fun _ => ?_, fun _ => ?_⟩⟩
    · exact Queue.pending_create messages
    · exact Queue.pending_create events
  exact (h.invariant h₀ fun _ _ _ hi hs => ⟨hi.1.step hs,
    step_cleared hi.2 (queues hi.1) (life hi.1) (step_cases hs).2⟩).2

/-! ## Runs of a session -/

theorem returned_popped (hq : Queues s) (a : Action) :
    returnedEvents s a = (poppedEvents s a).map (fun e => some e.item) ∨
      (returnedEvents s a = [none] ∧ s.world.host.eventQueue.pending = []) := by
  cases a with
  | worker input => exact Or.inl rfl
  | game input =>
    cases input with
    | call c env => exact Or.inl rfl
    | go env =>
      rw [returnedEvents, poppedEvents]
      split
      · next hpc =>
        rw [hpc]
        by_cases he : s.world.host.eventQueue.isEmpty = true
        · exact Or.inr ⟨if_pos he, hq.events.valid.isEmpty_iff.mp he⟩
        · exact Or.inl (if_neg he)
      · next hpc => rw [hpc]; exact Or.inl rfl
      · next hne hne' =>
        left
        split
        · next hpc => exact absurd hpc hne'
        · rfl

/-- What the game thread has counted is still there until it has read as much. -/
def Counted (n : Nat) (s : State) (returned : List (Option Event)) : Prop :=
  n ≤ returned.length + s.world.host.eventQueue.pending.length ∧ ∀ r ∈ returned.take n, r ≠ none

theorem step_counted {n : Nat} {returned : List (Option Event)} (hq : Queues s)
    (hc : ¬Clears s a) (h : Step s a t) (hn : Counted n s returned) :
    Counted n t (returned ++ returnedEvents s a) := by
  obtain ⟨hlen, hsome⟩ := hn
  have hcons := congrArg List.length ((events_turn hc h).conserves hq.events)
  rw [List.length_append, List.length_append] at hcons
  rcases returned_popped hq a with hr | ⟨hr, hp⟩
  · rw [hr]
    refine ⟨?_, fun r hmem => ?_⟩
    · rw [List.length_append, List.length_map]
      omega
    · rw [List.take_append, List.mem_append] at hmem
      rcases hmem with hmem | hmem
      · exact hsome r hmem
      · obtain ⟨e, _, rfl⟩ := List.mem_map.mp (List.mem_of_mem_take hmem)
        exact Option.some_ne_none _
  · rw [hp, List.length_nil] at hlen
    rw [hr]
    refine ⟨?_, fun r hmem => ?_⟩
    · rw [List.length_append]
      omega
    · rw [List.take_append_of_le_length hlen] at hmem
      exact hsome r hmem

theorem run_counted {n : Nat} {as : List Action} (hs : system.Reachable s)
    (hc : system.Along (fun u a => ¬Clears u a) s as) (hr : system.run s as = some t)
    (hn : n ≤ s.world.host.eventQueue.pending.length) :
    ∀ r ∈ (system.trace returnedEvents s as).take n, r ≠ none := by
  have h₀ : system.Reachable s ∧ Counted n s [] :=
    ⟨hs, by simpa using hn, by simp⟩
  have hrun := Machine.run_trace (I := fun s returned => system.Reachable s ∧ Counted n s returned)
    (fun u a v returned hc hi hv => ⟨hi.1.step hv,
      step_counted (queues hi.1) hc (step_cases hv).2 hi.2⟩) hc h₀ hr
  rw [List.nil_append] at hrun
  exact hrun.2.2

theorem run_messages {as : List Action} (hs : system.Reachable s)
    (hc : system.Along (fun u a => ¬Clears u a) s as) (hr : system.run s as = some t) :
    s.world.host.messageQueue.pending ++ system.trace writtenMessages s as =
      system.trace poppedMessages s as ++ t.world.host.messageQueue.pending :=
  Machine.run_conserves (fun _ _ _ hc hu hv => ⟨hu.step hv,
    (messages_turn hc (step_cases hv).2).conserves (queues hu).messages⟩) hc hs hr

theorem run_events {as : List Action} (hs : system.Reachable s)
    (hc : system.Along (fun u a => ¬Clears u a) s as) (hr : system.run s as = some t) :
    s.world.host.eventQueue.pending ++ system.trace writtenEvents s as =
      system.trace poppedEvents s as ++ t.world.host.eventQueue.pending :=
  Machine.run_conserves (fun _ _ _ hc hu hv => ⟨hu.step hv,
    (events_turn hc (step_cases hv).2).conserves (queues hu).events⟩) hc hs hr

/-- A push of the game thread that does not get to its second block met a full queue. -/
theorem message_refused {m : Message} {env : Env} (hq : Queues s) (hpc : s.game.pc = .pushTest m)
    (h : system.step s (.game (.go env)) = some t) (ht : t.game.pc ≠ .pushWrite m) :
    s.world.host.messageQueue.pending.length = 1023 := by
  cases (step_cases h).2 with
  | go hs =>
    rw [hpc] at hs
    cases hs with
    | refused hf =>
      have : _ = 1024 := hq.messages.valid.isFull_iff.mp hf
      omega
    | pushTest hf => exact absurd rfl ht
    | fails hf => cases hf

theorem event_refused {e : QueuedEvent} {input : WorkerInput} (hq : Queues s)
    (hpc : s.world.worker = some (.pushTest e)) (h : system.step s (.worker input) = some t)
    (ht : t.world.worker ≠ some (.pushWrite e)) :
    s.world.host.eventQueue.pending.length = 1023 := by
  cases (step_cases h).2 with
  | worker hpc' hs =>
    obtain rfl := Option.some.inj (hpc.symm.trans hpc')
    cases hs with
    | refused hf =>
      have : _ = 1024 := hq.events.valid.isFull_iff.mp hf
      omega
    | pushTest hf => exact absurd rfl ht
    | fails hf => cases hf

/-- In a session each queue gives out what was written into it, in order and once.
A push is refused by 1023 pending items only, and as many events as the game thread
has counted it gets. -/
theorem session_queues {as : List Action} (hs : system.Reachable s)
    (hb : s.game.pc = .bindRunning) (hc : system.Along (fun u a => ¬Clears u a) s as)
    (hr : system.run s as = some t) :
    system.trace poppedMessages s as ++ t.world.host.messageQueue.pending =
      system.trace writtenMessages s as ∧
    system.trace poppedEvents s as ++ t.world.host.eventQueue.pending =
      system.trace writtenEvents s as ∧
    (∀ m env u, t.game.pc = .pushTest m → system.step t (.game (.go env)) = some u →
      u.game.pc ≠ .pushWrite m → t.world.host.messageQueue.pending.length = 1023) ∧
    (∀ e input u, t.world.worker = some (.pushTest e) →
      system.step t (.worker input) = some u → u.world.worker ≠ some (.pushWrite e) →
      t.world.host.eventQueue.pending.length = 1023) ∧
    (∀ env u bs v, system.step t (.game (.call .getEventCount env)) = some u →
      system.Along (fun u a => ¬Clears u a) u bs → system.run u bs = some v →
      ∀ r ∈ (system.trace returnedEvents u bs).take t.world.getEventCount, r ≠ none) := by
  have ht := hs.run hr
  have hw : s.world.worker = none := by
    have hl := life hs
    unfold Life at hl
    rw [hb] at hl
    have := congrArg Shape.worker (show s.world.shape = _ from hl)
    simpa [World.shape] using this
  obtain ⟨hm, he⟩ := cleared hs hw
  rw [hb] at hm he
  have hmessages := run_messages hs hc hr
  have hevents := run_events hs hc hr
  rw [hm id, List.nil_append] at hmessages
  rw [he id, List.nil_append] at hevents
  refine ⟨hmessages.symm, hevents.symm, fun _ _ _ => message_refused (queues ht),
    fun _ _ _ => event_refused (queues ht), ?_⟩
  intro env u bs v hu hcu hv
  refine run_counted (ht.step hu) hcu hv ?_
  rw [World.getEventCount, (queues ht).events.valid.size_eq]
  cases (step_cases hu).2 with
  | call hpc hp hs => exact Nat.le_of_eq (by rw [(call_queues hs hpc).2.1])

/-- The host after a first `bind`, before its thread is started. -/
def State.bound : State :=
  (system.run .fresh [.game (.call (.bind (some ⟨"", 7000⟩)) {})]).getD .fresh

theorem bound_run :
    system.run .fresh [.game (.call (.bind (some ⟨"", 7000⟩)) {})] = some .bound := by rfl

/-- The thread is started, and a message is broadcast and read by the host thread. -/
def broadcastRun : List Action :=
  List.replicate 5 (.game (.go {})) ++
    [.game (.call (.broadcastPacket [7] 0 0) {}), .game (.go {}), .game (.go {})] ++
    List.replicate 7 (.worker {})

theorem session_queues_broadcast :
    ∃ t, system.run .bound broadcastRun = some t ∧
      system.trace poppedMessages .bound broadcastRun ++ t.world.host.messageQueue.pending =
        system.trace writtenMessages .bound broadcastRun ∧
      (system.trace writtenMessages .bound broadcastRun).length = 1 := by
  have hr : (system.run .bound broadcastRun).isSome := by rfl
  obtain ⟨t, ht⟩ := Option.isSome_iff_exists.mp hr
  have hc : system.Along (fun u a => ¬Clears u a) .bound broadcastRun := by decide
  exact ⟨t, ht, (session_queues ⟨_, _, fresh_start, bound_run⟩ rfl hc ht).1, by rfl⟩

end GDNet
