import GDNet.Host.Backlog
import GDNet.Host.Rises
import GDNet.Transition.Brackets

/-!
# The order of events

ENet says CONNECT when it brings a slot up, RECEIVE only of a slot that is up, and
DISCONNECT when the slot is not up any more.  So what `poll_events` pushes is
bracketed, slot by slot.  What the game gets is the part of it that found room in
the event queue, and a RECEIVE in it lacks its CONNECT only if that was refused.
-/

namespace GDNet

open Transition

variable {s t : State} {a : Action} {p : Int}

/-! ## What is pushed, and what of it the queue takes -/

def Event.Opens (p : Int) (e : Event) : Prop := e.type = .connect ∧ e.peerId = p

def Event.Closes (p : Int) (e : Event) : Prop := e.type = .disconnect ∧ e.peerId = p

def Event.Uses (p : Int) (e : Event) : Prop := e.type = .receive ∧ e.peerId = p

/-- There is a CONNECT of the peer with no DISCONNECT of it after. -/
def Opened (p : Int) (events : List Event) : Prop :=
  Inside (Event.Opens p) (Event.Closes p) events

/-- An event that `poll_events` pushes, and whether the queue has room for it. -/
structure Offer where
  event : QueuedEvent
  accepted : Bool

def offeredEvents (s : State) : Action → List Offer
  | .worker _ =>
    match s.world.worker with
    | some (.pushTest q) => [⟨q, !s.world.host.eventQueue.isFull⟩]
    | _ => []
  | .game _ => []

def acceptedEvents (offers : List Offer) : List QueuedEvent :=
  (offers.filter (·.accepted)).map (·.event)

/-- The event that the host thread is about to test the queue for. -/
def World.untested (w : World) : List QueuedEvent :=
  match w.worker with
  | some (.pushTest q) => [q]
  | _ => []

/-- The event that the host thread is about to write. -/
def World.unwritten (w : World) : List QueuedEvent :=
  match w.worker with
  | some (.pushWrite q) => [q]
  | _ => []

theorem untested_congr {w w' : World} (h : w'.worker = w.worker) : w'.untested = w.untested := by
  rw [World.untested, World.untested, h]

theorem unwritten_congr {w w' : World} (h : w'.worker = w.worker) :
    w'.unwritten = w.unwritten := by
  rw [World.unwritten, World.unwritten, h]

/-- A game step takes nothing out of the hands of the host thread. -/
theorem game_hand {input : GameInput} (hl : Life s) (h : Step s (.game input) t) :
    t.world.untested = s.world.untested ∧ t.world.unwritten = s.world.unwritten ∧
      t.world.hand = s.world.hand := by
  have hsame : t.world.worker = s.world.worker → t.world.untested = s.world.untested ∧
      t.world.unwritten = s.world.unwritten ∧ t.world.hand = s.world.hand :=
    fun hw => ⟨untested_congr hw, unwritten_congr hw, hand_congr hw⟩
  cases h with
  | call hpc hp hs => exact hsame (call_queues hs hpc).2.2.1
  | go hs =>
    generalize hpc : s.game.pc = pc at hs
    cases hs with
    | bindThread =>
      have hw := hl.worker_none (by rw [hpc]; rfl) rfl
      unfold World.untested World.unwritten World.hand
      rw [hw]
      exact ⟨rfl, rfl, rfl⟩
    | unbindWait hw =>
      unfold World.untested World.unwritten World.hand
      rw [hw]
      exact ⟨rfl, rfl, rfl⟩
    | _ => exact hsame rfl

theorem polled_hand (w : World) (time : Int) (h : ENet.Host) (outcome : ENet.ServiceOutcome) :
    (w.polled time h outcome).unwritten = [] ∧
      ((w.polled time h outcome).untested = [] ∧ (w.polled time h outcome).hand = none ∨
        ∃ q, (w.polled time h outcome).hand = some q ∧
          (w.polled time h outcome).untested = [q]) := by
  unfold World.polled
  split
  · exact ⟨rfl, Or.inl ⟨rfl, rfl⟩⟩
  · exact ⟨rfl, Or.inl ⟨rfl, rfl⟩⟩
  · exact ⟨rfl, Or.inr ⟨_, rfl, rfl⟩⟩

/-- What becomes of the event in the hands of the host thread. -/
structure Hands (s : State) (a : Action) (t : State) : Prop where
  /-- An event that is accepted is written. -/
  written : s.world.unwritten ++ acceptedEvents (offeredEvents s a) =
    writtenEvents s a ++ t.world.unwritten
  /-- An event that is offered was in the hands, or it comes in from a poll. -/
  offered : ((offeredEvents s a).map (·.event) ++ t.world.untested = s.world.untested ∧
      (t.world.hand = none ∨ t.world.hand = s.world.hand)) ∨
    (∃ q, offeredEvents s a = [] ∧ s.world.hand = none ∧ t.world.hand = some q ∧
      t.world.untested = [q])

theorem offered_untested (s : State) (input : WorkerInput) :
    (offeredEvents s (.worker input)).map (·.event) = s.world.untested := by
  rw [offeredEvents, World.untested]
  cases s.world.worker with
  | none => rfl
  | some pc => cases pc <;> rfl

theorem written_unwritten (s : State) (input : WorkerInput) :
    writtenEvents s (.worker input) = s.world.unwritten := rfl

theorem worker_hands {input : WorkerInput} {pc : WorkerPc} {w : World}
    (hpc : s.world.worker = some pc) (hs : WorkerStep s.world input pc w) :
    Hands s (.worker input) { s with world := w } := by
  have hstay : ∀ {x : World}, acceptedEvents (offeredEvents s (.worker input)) = x.unwritten →
      x.untested = [] → x.hand = none ∨ x.hand = s.world.hand →
      Hands s (.worker input) { s with world := x } := by
    intro x hacc hu hh
    refine ⟨?_, Or.inl ⟨?_, hh⟩⟩
    · rw [written_unwritten, hacc]
    · rw [offered_untested, hu, List.append_nil]
  have hpoll : ∀ {h : ENet.Host} {outcome : ENet.ServiceOutcome},
      offeredEvents s (.worker input) = [] → s.world.hand = none →
      Hands s (.worker input) { s with world := s.world.polled input.time h outcome } := by
    intro h outcome ho hs
    obtain ⟨hn, hh⟩ := polled_hand s.world input.time h outcome
    rcases hh with ⟨hu', hh⟩ | ⟨q, hh, hu'⟩
    · exact hstay (by rw [ho, hn]; rfl) hu' (Or.inl hh)
    · refine ⟨?_, Or.inr ⟨q, ho, hs, hh, hu'⟩⟩
      rw [written_unwritten, ho, hn]
      rfl
  cases hs with
  | pushTest hf =>
    refine hstay ?_ rfl (Or.inr ?_)
    · rw [offeredEvents, hpc, hf]
      rfl
    · rw [World.hand, World.hand, hpc]
      rfl
  | refused hf =>
    refine hstay ?_ rfl (Or.inl rfl)
    rw [offeredEvents, hpc, hf]
    rfl
  | service hh => exact hpoll (by rw [offeredEvents, hpc]) (by rw [World.hand, hpc])
  | check hh => exact hpoll (by rw [offeredEvents, hpc]) (by rw [World.hand, hpc])
  | fails hf =>
    have hnone : offeredEvents s (.worker input) = [] ∧ s.world.unwritten = [] ∧
        s.world.untested = [] := by
      unfold offeredEvents World.unwritten World.untested
      rw [hpc]
      cases hf <;> exact ⟨rfl, rfl, rfl⟩
    refine hstay ?_ hnone.2.2 (Or.inr rfl)
    rw [hnone.1]
    exact hnone.2.1.symm
  | _ => exact hstay (by rw [offeredEvents, hpc]; rfl) rfl (Or.inl rfl)

theorem step_hands (hl : Life s) (h : Step s a t) : Hands s a t := by
  cases h with
  | worker hpc hs => exact worker_hands hpc hs
  | call hpc hp hs =>
    obtain ⟨hu, hw, hh⟩ := game_hand hl (.call hpc hp hs)
    refine ⟨?_, Or.inl ⟨?_, Or.inr hh⟩⟩
    · rw [hw]
      exact List.append_nil _
    · rw [hu]
      rfl
  | go hs =>
    obtain ⟨hu, hw, hh⟩ := game_hand hl (.go hs)
    refine ⟨?_, Or.inl ⟨?_, Or.inr hh⟩⟩
    · rw [hw]
      exact List.append_nil _
    · rw [hu]
      rfl

/-! ## What is pushed is bracketed -/

/-- The events that `poll_events` has made. -/
def raisedEvents (offers : List Offer) (s : State) : List Event :=
  (offers.map (·.event) ++ s.world.untested).map Stamped.item

structure Ordered (s : State) (offers : List Offer) : Prop where
  opened : ∀ (i : Nat) (h : ENet.Host), s.enet = some h → (h.peers i).state = .connected →
    Opened i (raisedEvents offers s)
  bracketed : ∀ p, Bracketed (Event.Opens p) (Event.Closes p) (Event.Uses p)
    (raisedEvents offers s)
  bound : s.enet = none → s.game.pc = .unbindMessages

theorem hand_untested {w : World} (h : w.hand = none) : w.untested = [] := by
  unfold World.hand at h
  unfold World.untested
  split
  · next hw =>
    rw [hw] at h
    cases h
  · rfl

theorem raised_keep (offers : List Offer)
    (h : (offeredEvents s a).map (·.event) ++ t.world.untested = s.world.untested) :
    raisedEvents (offers ++ offeredEvents s a) t = raisedEvents offers s := by
  rw [raisedEvents, raisedEvents, List.map_append (f := Offer.event), List.append_assoc, h]

theorem raised_poll (offers : List Offer) {q : QueuedEvent} (ho : offeredEvents s a = [])
    (hs : s.world.hand = none) (ht : t.world.untested = [q]) :
    raisedEvents (offers ++ offeredEvents s a) t = raisedEvents offers s ++ [q.item] := by
  rw [raisedEvents, raisedEvents, ho, ht, hand_untested hs, List.append_nil, List.append_nil,
    List.map_append]
  rfl

/-- The host of a session is there until the queues are about to be cleared. -/
theorem session_bound (hl : Life s) (hc : ¬Clears s a) (h : Step s a t)
    (hb : s.enet = none → s.game.pc = .unbindMessages) :
    s.enet ≠ none ∧ (t.enet = none → t.game.pc = .unbindMessages) := by
  have hs : s.enet ≠ none := by
    intro hn
    have hpc := hb hn
    cases h with
    | worker hw hs =>
      rw [hl.worker_none (by rw [hpc]; rfl) rfl] at hw
      cases hw
    | call hi hp hs =>
      rw [hpc] at hi
      cases hi
    | go hs => exact hc (Or.inl hpc)
  refine ⟨hs, fun ht => ?_⟩
  cases step_host h with
  | keep hh _ => exact absurd (hh.symm.trans ht) hs
  | receives _ hh' _ _ => rw [ht] at hh'; cases hh'
  | claim _ _ hh' _ _ => rw [ht] at hh'; cases hh'
  | create _ hh _ _ _ => exact absurd hh hs
  | destroy hpc _ _ =>
    cases h with
    | worker hw hs =>
      rw [hl.worker_none (by rw [hpc]; rfl) rfl] at hw
      cases hw
    | call hi hp hs =>
      rw [hpc] at hi
      cases hi
    | go hs =>
      rw [hpc] at hs
      cases hs with
      | unbindDestroy => rfl
      | fails hf => cases hf

theorem newEvent_type_eq (time : Int) (e : ENet.Event) :
    ((newEvent time e).type = .connect ↔ e.type = .connect) ∧
    ((newEvent time e).type = .disconnect ↔ e.type = .disconnect) ∧
    ((newEvent time e).type = .receive ↔ e.type = .receive) := by
  unfold newEvent
  cases e.type <;> simp

/-- A step raises at most one event, and the brackets stay in order. -/
theorem step_ordered {offers : List Offer} (hl : Life s) (hc : ¬Clears s a) (h : Step s a t)
    (hi : Ordered s offers) : Ordered t (offers ++ offeredEvents s a) := by
  obtain ⟨hs, hbound⟩ := session_bound hl hc h hi.bound
  obtain ⟨g, hg⟩ := Option.ne_none_iff_exists'.mp hs
  rcases (step_hands hl h).offered with ⟨hkeep, hhand⟩ | ⟨q, hoff, hhand, hhand', hunt⟩
  · have hraised := raised_keep offers hkeep
    refine ⟨fun i g' hg' hi' => ?_, fun p => ?_, hbound⟩
    · rw [hraised]
      cases step_lifts h hg hg' with
      | steady hst _ => exact hi.opened i g hg ((hst i).up hi')
      | raises _ hw hw' =>
        rw [hw, hw'] at hhand
        rcases hhand with hx | hx <;> cases hx
    · rw [hraised]
      exact hi.bracketed p
  · have hraised := raised_poll offers hoff hhand hunt
    obtain ⟨g', hg'⟩ : ∃ g', t.enet = some g' := by
      have hlt := step_life hl h
      refine Option.isSome_iff_exists.mp (hlt.worker ?_).1
      unfold World.hand at hhand'
      cases hw : t.world.worker with
      | none => rw [hw] at hhand'; cases hhand'
      | some pc => rfl
    cases step_lifts h hg hg' with
    | steady _ hw =>
      rw [hhand, hhand'] at hw
      rcases hw with hx | hx <;> cases hx
    | @raises e time hr _ hw' =>
      obtain rfl := Option.some.inj (hhand'.symm.trans hw')
      have hpeer : (newEvent time e).peerId = e.peer := newEvent_peerId time e
      obtain ⟨hconnect, hdisconnect, hreceive⟩ := newEvent_type_eq time e
      refine ⟨fun i g'' hg'' hi' => ?_, fun p => ?_, hbound⟩
      · obtain rfl := Option.some.inj (hg'.symm.trans hg'')
        rw [hraised]
        rcases hr.up i hi' with hup | ⟨e', he', ht, rfl⟩
        · refine (hi.opened i g hg hup).snoc ?_
          rintro ⟨ht, hp⟩
          have hei : e.peer = i := Int.ofNat_inj.mp (hpeer.symm.trans hp)
          exact hr.down e rfl (hdisconnect.mp ht) (hei ▸ hi')
        · obtain rfl := Option.some.inj he'
          exact .opened ⟨hconnect.mpr ht, hpeer⟩
      · rw [hraised]
        refine (hi.bracketed p).snoc ?_
        rintro ⟨ht, rfl⟩
        show Opened (newEvent time e).peerId _
        rw [hpeer]
        exact hi.opened e.peer g hg (hr.receives e rfl (hreceive.mp ht))

/-! ## What the game gets of it -/

/-- The host thread of a session starts with slots nobody has used. -/
theorem bindRunning_initial (hr : system.Reachable s) (hb : s.game.pc = .bindRunning)
    {h : ENet.Host} (hh : s.enet = some h) (i : Nat) : h.peers i = ENet.Peer.initial := by
  have h₀ : ∀ s, system.start s → system.Reachable s ∧ (s.game.pc = .bindRunning →
      ∀ h, s.enet = some h → ∀ i, h.peers i = ENet.Peer.initial) := by
    rintro s ⟨events, messages, rfl⟩
    refine ⟨.start ⟨_, _, rfl⟩, fun hb => ?_⟩
    cases hb
  refine (hr.invariant h₀ fun s a t hi hst => ⟨hi.1.step hst, fun hb h hh i => ?_⟩).2 hb h hh i
  cases (step_cases hst).2 with
  | worker hpc hs =>
    rw [(life hi.1).worker_none (by rw [show s.game.pc = _ from hb]; rfl) rfl] at hpc
    cases hpc
  | call hpc hp hs =>
    cases hs with
    | bind hn hc =>
      obtain rfl := Option.some.inj hh
      exact created hc i
    | _ => first | cases hb | (rw [show s.game.pc = _ from hb] at hpc; cases hpc)
  | go hs =>
    generalize hpc : s.game.pc = pc at hs
    cases hs with
    | fails hf =>
      rw [← hpc, show s.game.pc = _ from hb] at hf
      cases hf
    | _ => cases hb

theorem ordered_start (hr : system.Reachable s) (hb : s.game.pc = .bindRunning) :
    Ordered s [] := by
  have hl := life hr
  have hshape : s.game.pc.shape = some ⟨true, false, false, false, false, false⟩ := by
    rw [hb]
    rfl
  have hw := hl.worker_none hshape rfl
  have hnil : raisedEvents [] s = [] := by
    rw [raisedEvents, World.untested, hw]
    rfl
  refine ⟨fun i h hh hc => ?_, fun p => ?_, fun hn => ?_⟩
  · rw [bindRunning_initial hr hb hh i] at hc
    cases hc
  · rw [hnil]
    exact bracketed_nil
  · unfold Life Fits at hl
    rw [hshape] at hl
    have := congrArg Shape.enetHost hl
    rw [World.shape, show s.world.host.enetHost = none from hn] at this
    cases this

theorem returned_items (s : State) (a : Action) :
    (returnedEvents s a).filterMap id = (poppedEvents s a).map Stamped.item := by
  cases a with
  | worker input => rfl
  | game input =>
    cases input with
    | call c env => rfl
    | go env =>
      rw [returnedEvents, poppedEvents]
      cases s.game.pc with
      | popTest =>
        show List.filterMap id (if _ then _ else _) = _
        split <;> rfl
      | _ => rfl

theorem run_returned (s : State) (as : List Action) :
    (system.trace returnedEvents s as).filterMap id =
      (system.trace poppedEvents s as).map Stamped.item := by
  rw [← Machine.trace_hom (f := List.filterMap id) rfl fun _ _ => List.filterMap_append,
    ← Machine.trace_hom (f := List.map Stamped.item) rfl fun _ _ => List.map_append,
    funext₂ returned_items]

/-- What is accepted in a run is written in it, but for the last event. -/
theorem run_accepted {as : List Action} (hs : system.Reachable s)
    (hr : system.run s as = some t) :
    s.world.unwritten ++ acceptedEvents (system.trace offeredEvents s as) =
      system.trace writtenEvents s as ++ t.world.unwritten := by
  have happ : ∀ xs ys, acceptedEvents (xs ++ ys) = acceptedEvents xs ++ acceptedEvents ys := by
    intro xs ys
    rw [acceptedEvents, List.filter_append, List.map_append]
    rfl
  rw [← Machine.trace_hom (f := acceptedEvents) rfl happ]
  have hstep : ∀ u b v, True → system.Reachable u → system.step u b = some v →
      system.Reachable v ∧ u.world.unwritten ++ acceptedEvents (offeredEvents u b) =
        writtenEvents u b ++ v.world.unwritten :=
    fun u b v _ hu hv => ⟨hu.step hv, (step_hands (life hu) (step_cases hv).2).written⟩
  exact Machine.run_conserves hstep (Machine.along_true s as) hs hr

theorem run_ordered {as : List Action} (hs : system.Reachable s) (hb : s.game.pc = .bindRunning)
    (hc : system.Along (fun u a => ¬Clears u a) s as) (hr : system.run s as = some t) :
    Ordered t (system.trace offeredEvents s as) := by
  have hrun := Machine.run_trace (I := fun u offers => system.Reachable u ∧ Ordered u offers)
    (fun u b v offers hc hi hv =>
      ⟨hi.1.step hv, step_ordered (life hi.1) hc (step_cases hv).2 hi.2⟩)
    hc ⟨hs, ordered_start hs hb⟩ hr
  exact hrun.2

/-- The game gets a beginning of what the queue has accepted. -/
theorem returned_accepted {as : List Action} (hs : system.Reachable s)
    (hb : s.game.pc = .bindRunning) (hc : system.Along (fun u a => ¬Clears u a) s as)
    (hr : system.run s as = some t) :
    ∃ rest, (acceptedEvents (system.trace offeredEvents s as)).map Stamped.item =
      (system.trace returnedEvents s as).filterMap id ++ rest := by
  have hw := (life hs).worker_none (x := ⟨true, false, false, false, false, false⟩)
    (by rw [hb]; rfl) rfl
  have hnil : s.world.host.eventQueue.pending = [] := by
    refine (cleared hs hw).2 ?_
    rw [hb]
    exact id
  have hunwritten : s.world.unwritten = [] := by
    rw [World.unwritten, hw]
  have haccepted := run_accepted hs hr
  have hpopped := run_events hs hc hr
  rw [hunwritten, List.nil_append] at haccepted
  rw [hnil, List.nil_append] at hpopped
  refine ⟨(t.world.host.eventQueue.pending ++ t.world.unwritten).map Stamped.item, ?_⟩
  rw [haccepted, hpopped, run_returned, ← List.map_append, List.append_assoc]

/-- Every RECEIVE that the game gets comes after a CONNECT of its peer, with no
DISCONNECT between them, or the queue was full when that CONNECT was pushed. -/
theorem events_bracketed {as : List Action} {pre post : List Event} {e : Event}
    (hs : system.Reachable s) (hb : s.game.pc = .bindRunning)
    (hc : system.Along (fun u a => ¬Clears u a) s as) (hr : system.run s as = some t)
    (hreturned : (system.trace returnedEvents s as).filterMap id = pre ++ e :: post)
    (he : e.type = .receive) :
    Opened e.peerId pre ∨
      ∃ before o after rest, system.trace offeredEvents s as = before ++ o :: after ++ rest ∧
        o.event.item.Opens e.peerId ∧ o.accepted = false ∧
        (∀ x ∈ after, ¬x.event.item.Opens e.peerId ∧ ¬x.event.item.Closes e.peerId) ∧
        (acceptedEvents (before ++ o :: after)).map Stamped.item = pre := by
  have hordered := run_ordered hs hb hc hr
  obtain ⟨rest, hrest⟩ := returned_accepted hs hb hc hr
  rw [hreturned, List.append_assoc, List.cons_append, acceptedEvents, List.map_map] at hrest
  -- The offer of the event, and the offers before it.
  obtain ⟨kept, kept', hkept, hpre, hkept'⟩ := List.map_eq_append_iff.mp hrest
  obtain ⟨o, kept'', rfl, ho, _⟩ := List.map_eq_cons_iff.mp hkept'
  obtain ⟨xs, ys, htrace, hxs, hys⟩ := List.filter_eq_append_iff.mp hkept
  obtain ⟨zs, ys', rfl, hzs, _, _⟩ := List.filter_eq_cons_iff.mp hys
  have hbefore : (xs ++ zs).filter (·.accepted) = kept := by
    rw [List.filter_append, hxs, List.filter_eq_nil_iff.mpr hzs, List.append_nil]
  have hin : Inside (Event.Opens e.peerId ∘ fun x : Offer => x.event.item)
      (Event.Closes e.peerId ∘ fun x : Offer => x.event.item) (xs ++ zs) := by
    refine inside_map.mp (hordered.bracketed e.peerId ((xs ++ zs).map fun x => x.event.item) e
      ((ys'.map fun x => x.event.item) ++ t.world.untested.map Stamped.item) ?_ ⟨he, rfl⟩)
    rw [raisedEvents, htrace, ← ho]
    simp [Function.comp_def]
  rcases hin.filter (·.accepted) with hin | ⟨before, x, after, hsplit, hopens, hrefused, hafter⟩
  · left
    rw [hbefore] at hin
    rw [← hpre]
    exact inside_map.mpr hin
  · right
    refine ⟨before, x, after, o :: ys', ?_, hopens, hrefused, hafter, ?_⟩
    · rw [htrace, ← List.append_assoc, hsplit]
    · rw [← hsplit, acceptedEvents, hbefore, List.map_map]
      exact hpre

def receiving (d : ENet.Datagram) : WorkerInput := { service := { received := .datagram d } }

def turns (n : Nat) : List WorkerInput := List.replicate n {}

/-- A host with two slots is bound. -/
def twoRun : List Action :=
  [.game (.call (.setMaxPeers 2) {}), .game (.call (.bind (some ⟨"", 7000⟩)) {})]

def startRun : List Action := List.replicate 5 (.game (.go {}))

/-- It accepts two connections, and the first of them comes up with packets. -/
def crowdInputs (packets : List ENet.Packet) : List WorkerInput :=
  turns 11 ++ [receiving (connectDatagram ⟨1, 1⟩ first_source),
      receiving (connectDatagram ⟨2, 1⟩ second_source), {},
      { service := { send := { reliable := [true] } } },
      { service := { send := { reliable := [true] } } }] ++
    turns 2 ++ [{ service := { arrived := true } }] ++ turns 4 ++
    [receiving (upDatagram 0 ⟨1, 1⟩ first_source packets)] ++ turns 2

def crowdRun (packets : List ENet.Packet) : List Action :=
  startRun ++ (crowdInputs packets).map .worker

def State.crowded (packets : List ENet.Packet) : State :=
  (system.run .fresh (twoRun ++ crowdRun packets)).getD .fresh

def State.two : State := (system.run .fresh twoRun).getD .fresh

set_option maxRecDepth 4000 in
theorem crowd_returns (packet : ENet.Packet) (packets : List ENet.Packet) :
    Returns .two (crowdRun (packet :: packets)) (.crowded (packet :: packets)) [] := by
  have hsome : (system.run .fresh (twoRun ++ crowdRun (packet :: packets))).isSome := by rfl
  obtain ⟨t, ht⟩ := Option.isSome_iff_exists.mp hsome
  have hcrowded : State.crowded (packet :: packets) = t := by rw [State.crowded, ht]; rfl
  obtain ⟨u, hu, hr⟩ := Machine.run_append.mp ht
  obtain rfl : State.two = u := by rw [State.two, hu]; rfl
  rw [hcrowded]
  obtain ⟨v, hv, hw⟩ := Machine.run_append.mp hr
  have hstart : Returns .two startRun v [] := ⟨hv, by rfl, rfl⟩
  exact hstart.trans (.workers hw)

/-- What the rest of the run needs to know of a crowd. -/
structure Crowded (s : State) (h : ENet.Host) (packets : List ENet.Packet) : Prop where
  fault : s.world.fault = none
  running : s.world.host.running = true
  access : s.world.host.accessMutex = some ⟨none⟩
  host : s.world.host.hostMutex = some ⟨some .host⟩
  messages : s.world.host.messageQueue.isEmpty = true
  worker : s.world.worker = some .check
  game : s.game.pc = .idle
  enet : s.enet = some h
  peerCount : h.peerCount = 2
  connected : (h.peers 0).state = .connected
  awaits : Awaits (h.peers 1) ⟨2, 1⟩
  packets : withPackets h (packets.map fun q => ⟨0, q⟩) = h
  events : s.world.host.eventQueue.pending.map (·.item.peerId) = [0]

def State.host (s : State) : ENet.Host :=
  s.enet.getD ⟨fun _ => .initial, 0, 0, 0, 0, false, 0, 0, [], 0, none⟩

set_option maxRecDepth 4000 in
theorem crowded (packet : ENet.Packet) (packets : List ENet.Packet) :
    Crowded (.crowded (packet :: packets)) (State.crowded (packet :: packets)).host
      (packet :: packets) where
  fault := by rfl
  running := by rfl
  access := by rfl
  host := by rfl
  messages := by rfl
  worker := by rfl
  game := by rfl
  enet := by rfl
  peerCount := by rfl
  connected := by rfl
  awaits := ⟨by rfl, by rfl, Nat.lt_of_lt_of_eq Nat.one_pos (by rfl), ⟨by rfl, by rfl⟩, _, by rfl,
    by rfl, by rfl, by rfl⟩
  packets := withPackets_self (by rfl) (by rfl) (by rfl)
  events := by rfl

theorem Crowded.idling {h h' : ENet.Host} {packets : List ENet.Packet} (hc : Crowded s h packets)
    (q : Queue QueuedEvent queueSize) (hq : h'.dispatchQueue = []) (hn : h'.peerCount = 2)
    (hs : (h'.peers 0).state = .connected) (hs' : h'.peers 1 = h.peers 1) :
    Idling (s.checking q h') h' where
  fault := hc.fault
  running := hc.running
  access := hc.access
  host := hc.host
  messages := hc.messages
  enet := rfl
  queue := hq
  sends i hi := by
    rw [hn] at hi
    rcases Nat.le_one_iff_eq_zero_or_eq_one.mp (Nat.le_of_lt_succ hi) with rfl | rfl
    · rw [hs]
      simp
    · rw [hs', hc.awaits.state]
      simp

/-- The packets of the first connection fill the queue. -/
theorem Crowded.fills {h : ENet.Host} {packet : ENet.Packet} {packets : List ENet.Packet}
    (hc : Crowded s h (packet :: packets)) (hr : system.Reachable s)
    (hlen : packets.length = 1022) :
    ∃ as q h', Returns s as (s.checking q h') [] ∧ q.Valid ∧ q.isFull = true ∧
      (∀ x ∈ q.pending, x.item.peerId = 0) ∧ Idling (s.checking q h') h' ∧ h'.peerCount = 2 ∧
      h'.peers 1 = h.peers 1 := by
  have hv := (queues hr).events.valid
  have hone := congrArg List.length hc.events
  rw [List.length_map, List.length_singleton] at hone
  have hpeer : ∀ x ∈ s.world.host.eventQueue.pending, x.item.peerId = 0 := by
    intro x hx
    have hm := List.mem_map_of_mem (f := fun q : QueuedEvent => q.item.peerId) hx
    rw [hc.events] at hm
    exact List.mem_singleton.mp hm
  have hself : s.checking s.world.host.eventQueue
      (withPackets h ((packet :: packets).map fun q => ⟨0, q⟩)) = s := by
    rw [hc.packets]
    exact checking_self hc.worker hc.enet
  obtain ⟨as, q, c, has, hq, hqlen, hqpeer⟩ := packets_pushed (s := s) hc.connected hc.fault
    (packets.map fun q => ⟨0, q⟩) ⟨0, packet⟩ hv
    (by rw [List.length_map, hlen, hone]; decide) hpeer
  rw [List.length_map, hlen, hone] at hqlen
  have hfull : q.isFull = true := hq.isFull_iff.mpr (by rw [hqlen]; rfl)
  obtain ⟨h', e, he, hqueue, hcount, hstate, hothers⟩ := dispatch_last hc.connected c
  obtain ⟨bs, hbs⟩ := check_refuses (s := s) hc.fault hfull he
  have hcount' := hcount.trans hc.peerCount
  have hsecond := hothers 1 Nat.one_ne_zero
  refine ⟨as ++ bs, q, h', ?_, hq, hfull, hqpeer, hc.idling q hqueue hcount' hstate hsecond,
    hcount', hsecond⟩
  have hall := has.trans hbs
  rw [List.map_cons] at hself
  rw [hself] at hall
  exact hall

/-- The CONNECT of the second connection finds no room, and its packet does. -/
theorem Crowded.refuses {h : ENet.Host} {packet : ENet.Packet} {packets : List ENet.Packet}
    (hc : Crowded s h (packet :: packets)) (hr : system.Reachable s)
    (hlen : packets.length = 1022) :
    ∃ (as : List Action) (t : State) (pre : List Event) (e : Event),
      Returns s as t (pre.map some ++ [some e]) ∧ (∀ x ∈ pre, x.peerId = 0) ∧
        e.type = .receive ∧ e.peerId = 1 := by
  obtain ⟨as, q, h₁, hfill, hv, hfull, hpeer, hidle, hcount, hsecond⟩ := hc.fills hr hlen
  obtain ⟨bs, hturn⟩ := hidle.turn
  obtain ⟨e, e', he, _, _, he', ht', hp'⟩ := up_events second_source
    (show Awaits (h₁.peers 1) ⟨2, 1⟩ from hsecond ▸ hc.awaits) (by rw [hcount]; decide)
    hidle.queue packet
  let d := upDatagram 1 ⟨2, 1⟩ second_source [packet]
  let h₂ := (ENet.protocolHandleIncomingCommands h₁ d true).1
  let h₃ := (ENet.protocolDispatchIncomingCommands h₂).1
  let ev := s.world.queuedEvent 0 e'
  have hlong : q.pending.length + 1 = queueSize := hv.isFull_iff.mp hfull
  have hnonempty : q.isEmpty = false := by
    rw [Bool.eq_false_iff, Ne, hv.isEmpty_iff]
    intro hnil
    rw [hnil] at hlong
    cases hlong
  have hread := hv.pending_read hnonempty
  have hroom : q.read.isFull = false := by
    rw [hread, List.length_cons] at hlong
    rw [Bool.eq_false_iff, Ne, hv.read_valid.isFull_iff]
    omega
  -- The second connection comes up.
  have hup : Returns ((s.checking q h₁).moved (.service (.receive 0))) [.worker (receiving d)]
      ⟨(s.checking q h₂).world.goto (.pushTest (s.world.queuedEvent 0 e)), s.game⟩ [] := by
    refine .worker (s := (s.checking q h₁).moved (.service (.receive 0))) hc.fault rfl ?_
    show some (World.polled _ 0 (ENet.deliverOr (ENet.protocolHandleIncomingCommands h₁ d true)
      (.next (.receive 1))).1 (ENet.deliverOr (ENet.protocolHandleIncomingCommands h₁ d true)
      (.next (.receive 1))).2) = _
    rw [ENet.deliverOr, he]
    rfl
  have hlost := push_refused
    (s := ⟨(s.checking q h₂).world.goto (.pushTest (s.world.queuedEvent 0 e)), s.game⟩)
    hc.fault rfl hfull
  have hfound : Returns (s.checking q h₂) [.worker {}]
      ⟨(s.checking q h₃).world.goto (.pushTest ev), s.game⟩ [] :=
    check_finds hc.fault (Prod.ext rfl he')
  -- The game makes room for one event.
  let v : State := ⟨(s.checking q h₃).world.goto (.pushTest ev), s.game⟩
  obtain ⟨cs, g, hg, htake⟩ := getEvent_returns (s := v) hc.fault hc.game hnonempty
  obtain ⟨ds, hpush⟩ := push_accepted (s := ⟨v.world.setEvents q.read, g⟩) hc.fault rfl hroom
  obtain ⟨es, t, hdrain⟩ := events_drained _ (s := State.mk ((v.world.setEvents q.read).setEvents
    (q.read.write ev) |>.goto .check) g) hc.fault hg (hv.read_valid.write_valid ev) rfl
  have hall := hfill.trans (hturn.trans (hup.trans (hlost.trans (hfound.trans
    (htake.trans (hpush.trans hdrain))))))
  have hevents : (q.read.write ev).pending = q.read.pending ++ [ev] :=
    hv.read_valid.pending_write ev hroom
  have hlist : some q.front.item :: (q.read.pending ++ [ev]).map (fun x => some x.item) =
      (q.pending.map Stamped.item).map some ++ [some ev.item] := by
    rw [hread, List.map_append]
    simp [Function.comp_def]
  refine ⟨_, t, q.pending.map Stamped.item, ev.item,
    ⟨hall.steps, hall.returned.trans ?_, hall.keeps⟩, fun x hx => ?_, ?_, ?_⟩
  · rw [← hlist, ← hevents]
    rfl
  · obtain ⟨y, hy, rfl⟩ := List.mem_map.mp hx
    exact hpeer y hy
  · show (newEvent 0 e').type = .receive
    exact (newEvent_type_eq 0 e').2.2.mpr ht'
  · show (newEvent 0 e').peerId = 1
    rw [newEvent_peerId, hp']
    rfl

/-- A packet is pushed, and the game gets two events. -/
def gotRun : List Action :=
  (turns 3).map .worker ++
    [.game (.call .getEvent {}), .game (.go {}), .game (.go {}), .game (.call .getEvent {}),
      .game (.go {}), .game (.go {})]

theorem two_reachable : system.Reachable .two := by
  have hr : system.run .fresh twoRun = some .two := by rfl
  exact (Machine.Reachable.start fresh_start).run hr

/-- A packet is pushed and returned after the CONNECT of its peer. -/
theorem events_bracketed_first :
    ∃ (pre : List Event) (e : Event),
      (system.trace returnedEvents .two (crowdRun [⟨1, [7]⟩] ++ gotRun)).filterMap id =
        pre ++ [e] ∧ e.type = .receive ∧ Opened e.peerId pre := by
  have hr : (system.run .fresh (twoRun ++ (crowdRun [⟨1, [7]⟩] ++ gotRun))).isSome := by rfl
  obtain ⟨t, ht⟩ := Option.isSome_iff_exists.mp hr
  obtain ⟨u, hu, hrun⟩ := Machine.run_append.mp ht
  obtain rfl : State.two = u := by rw [State.two, hu]; rfl
  have hpc : State.two.game.pc = .bindRunning := by rfl
  have hlast : ∃ e, (system.trace returnedEvents .two
      (crowdRun [⟨1, [7]⟩] ++ gotRun)).filterMap id = [{ type := .connect }] ++ [e] ∧
      e.type = .receive := ⟨{ type := .receive, packet := [7] }, by rfl, rfl⟩
  obtain ⟨e, hreturned, he⟩ := hlast
  refine ⟨_, e, hreturned, he, ?_⟩
  rcases events_bracketed two_reachable hpc (along_unbinds (by rfl) (by rw [hpc]; exact id)) hrun
    hreturned he with hopened | ⟨before, o, after, rest, htrace, _, hrefused, _⟩
  · exact hopened
  · have hall : (system.trace offeredEvents .two
        (crowdRun [⟨1, [7]⟩] ++ gotRun)).all (·.accepted) = true := by rfl
    rw [htrace] at hall
    have := List.all_eq_true.mp hall o (by simp)
    rw [hrefused] at this
    cases this

/-- With as many packets as the queue has room for, the CONNECT of a second peer is
lost, and the game gets a RECEIVE of it all the same. -/
theorem unopened_receive :
    ∃ (s t : State) (as : List Action) (pre : List Event) (e : Event),
      system.Reachable s ∧ s.game.pc = .bindRunning ∧
      system.Along (fun u a => ¬Clears u a) s as ∧ system.run s as = some t ∧
      (system.trace returnedEvents s as).filterMap id = pre ++ [e] ∧
      e.type = .receive ∧ ¬Opened e.peerId pre := by
  let packet : ENet.Packet := ⟨ENet.packetFlagReliable, [7]⟩
  let packets := List.replicate 1022 packet
  have hstart := crowd_returns packet packets
  obtain ⟨as, t, pre, e, hrest, hpre, ht, hp⟩ := (crowded packet packets).refuses
    (two_reachable.run hstart.steps) List.length_replicate
  have hall := hstart.trans hrest
  have hpc : State.two.game.pc = .bindRunning := by rfl
  refine ⟨.two, t, _, pre, e, two_reachable, hpc, along_unbinds hall.keeps ?_, hall.steps, ?_, ht,
    ?_⟩
  · rw [hpc]
    exact id
  · rw [hall.returned]
    simp
  · rintro ⟨before, o, after, rfl, hopens, _⟩
    have := hpre o (by simp)
    rw [hopens.2, hp] at this
    cases this

end GDNet
