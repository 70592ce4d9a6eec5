import Mathlib.Algebra.Ring.Int.Defs
import GDNet.ENet.Reports
import GDNet.Host.Packets
import GDNet.Host.Replies

/-!
# Data from one side to the other

The data of a CONNECT or of a DISCONNECT goes into the slot that takes it in, and comes
out of the slot with the event.  Whatever happens in between, the event of that
connection has this data, and `new_event` makes the `int` of it.  On the side that asks,
the data of `disconnect_later` waits in the slot until the packets before it have left.
-/

namespace GDNet

open Transition

variable {s t : State} {a : Action} {k i session : Nat}

/-! ## What a step does to the data of a slot -/

/-- The call may leave a slot that waits for its disconnection. -/
def PeerMethod.asks : PeerMethod → Prop
  | .disconnect _ => True
  | .disconnectLater _ => True
  | _ => False

/-- The step asks for a disconnection of the slot `j`. -/
def State.asks (s : State) (a : Action) (j : Nat) : Prop :=
  ∃ env method p, a = .game (.go env) ∧ s.game.pc = .inside method p ∧ p.slot = j ∧ method.asks

variable {n : Nat} {asks : Nat → Prop}

theorem handOver_changes {h h' : ENet.Host} {m : Message} {input : WorkerInput}
    (ho : handOver h m input = some h') : ENet.HostChanges n asks h h' := by
  unfold handOver at ho
  simp only at ho
  split at ho
  · cases ho
    exact .refl h
  · split at ho
    · cases ho
      exact ENet.broadcastLoop_changes _ h
    · split at ho
      · cases ho
        exact .update (ENet.peerSend_getD_changes _ _ _ _ _)
      · cases ho

theorem method_changes {method : PeerMethod} {h : ENet.Host} {i : Nat} {env : Env}
    (ha : method.asks → asks i) : ENet.HostChanges n asks h (method.run h i env) := by
  cases method with
  | ping =>
    show ENet.HostChanges n asks h (h.update i fun p => ENet.peerPing p env.allocates)
    exact .update (ENet.peerPing_changes _ _)
  | reset => exact ENet.reset_changes h i
  | disconnect data => exact ENet.disconnect_changes (ha trivial)
  | disconnectLater data => exact ENet.disconnectLater_changes (ha trivial)
  | disconnectNow data => exact ENet.disconnectNow_changes
  | setTimeout _ _ _ => exact .refl h

theorem step_changes {h h' : ENet.Host} (hst : Step s a t) (hh : s.enet = some h)
    (hh' : t.enet = some h') (hn : n ≤ h.connections) :
    ENet.HostChanges n (s.asks a) h h' := by
  have hsame : t.enet = s.enet → ENet.HostChanges n (s.asks a) h h' := by
    intro he
    obtain rfl := Option.some.inj (hh.symm.trans (he.symm.trans hh'))
    exact .refl h
  cases hst with
  | worker hpc hs =>
    cases hs with
    | handing hg ho =>
      obtain rfl := Option.some.inj (hh.symm.trans hg)
      obtain rfl := Option.some.inj hh'
      exact handOver_changes ho
    | service hg =>
      obtain rfl := Option.some.inj (hh.symm.trans hg)
      obtain rfl := Option.some.inj ((polled_enet _ _ _ _).1.symm.trans hh')
      exact (ENet.serviceStep_tells hn).changes
    | check hg =>
      obtain rfl := Option.some.inj (hh.symm.trans hg)
      obtain rfl := Option.some.inj ((polled_enet _ _ _ _).1.symm.trans hh')
      exact (ENet.dispatchLoop_tells _ h).changes
    | _ => exact hsame rfl
  | call hpc hp hs =>
    rcases call_host hs with ⟨he, _⟩ | ⟨g, hg, _⟩
    · exact hsame he
    · rw [show s.world.host.enetHost = some h from hh] at hg
      cases hg
  | @go env w g hs =>
    generalize hpc : s.game.pc = pc at hs
    cases hs with
    | @inside method p g hl =>
      obtain rfl := Option.some.inj (hh.symm.trans (World.live_eq hl).1)
      obtain rfl := Option.some.inj hh'
      exact method_changes fun ha => ⟨env, method, p, rfl, hpc, rfl, ha⟩
    | found hg hc =>
      obtain rfl := Option.some.inj (hh.symm.trans hg)
      obtain rfl := Option.some.inj hh'
      exact ENet.connectClaim_changes hn hc
    | unbindFlush hg =>
      obtain rfl := Option.some.inj (hh.symm.trans hg)
      obtain rfl := Option.some.inj hh'
      exact ENet.flush_changes _ _
    | unbindDestroy => cases hh'
    | _ => exact hsame rfl

/-- In the session the slot `i` is as `P` says, and the connection `k` has been counted. -/
structure Follows (session k i : Nat) (P : ENet.Peer → Prop) (s : State) : Prop where
  started : session ≤ s.world.session
  host : s.world.session = session → ∀ h, s.enet = some h → k < h.connections ∧ P (h.peers i)

theorem step_connections {h' : ENet.Host} (hst : Step s a t) (hh' : t.enet = some h') :
    t.world.session = s.world.session + 1 ∨ t.world.session = s.world.session ∧
      ∃ h, s.enet = some h ∧ h.connections ≤ h'.connections := by
  cases step_host hst with
  | keep he hs => exact Or.inr ⟨hs, h', he.symm.trans hh', Nat.le_refl _⟩
  | receives hg hg' hr hs =>
    obtain rfl := Option.some.inj (hh'.symm.trans hg')
    exact Or.inr ⟨hs, _, hg, hr.connections⟩
  | claim _ hg hg' hc hs =>
    obtain rfl := Option.some.inj (hh'.symm.trans hg')
    exact Or.inr ⟨hs, _, hg, by rw [(ENet.connectClaim_slot hc).2.2.2]; exact Nat.le_succ _⟩
  | create _ _ _ _ hs => exact Or.inl hs
  | destroy _ hg' _ => rw [hh'] at hg'; cases hg'

/-- What every change keeps stays true of the slot. -/
theorem Follows.step {P : ENet.Peer → Prop} (hi : Follows session k i P s)
    (hP : ∀ p p' : ENet.Peer, p.Change (k + 1) (s.asks a i) p' → P p → P p')
    (hst : Step s a t) : Follows session k i P t := by
  refine ⟨Nat.le_trans hi.started (step_host hst).session_le, fun hs h' hh' => ?_⟩
  have hstarted := hi.started
  rcases step_connections hst hh' with he | ⟨he, h, hh, hle⟩
  · omega
  · obtain ⟨hlt, hp⟩ := hi.host (he.symm.trans hs) h hh
    exact ⟨Nat.lt_of_lt_of_le hlt hle,
      ENet.Peer.Changes.preserves hP (step_changes hst hh hh' hlt i) hp⟩

/-- The event is of this type, for the connection `k` of the session in the slot `i`. -/
structure QueuedEvent.Of (session k i : Nat) (type : ENet.EventType) (q : QueuedEvent) : Prop where
  session : q.stamp.session = session
  slot : q.stamp.origin.peer = i
  connection : q.stamp.origin.connection = k
  type : q.stamp.origin.type = type

/-- The datagram that the host thread takes in at the step, and the host it finds. -/
def State.datagram (s : State) (input : WorkerInput) : Option (ENet.Host × ENet.Datagram) :=
  match s.world.worker, s.enet, input.service.received with
  | some (.service (.receive packets)), some h, .datagram d =>
    if packets < 256 then some (h, d) else none
  | _, _, _ => none

/-- The data of a call that asks for a disconnection. -/
def PeerMethod.data : PeerMethod → Option Int
  | .disconnect data => some data
  | .disconnectLater data => some data
  | .disconnectNow data => some data
  | _ => none

section Outgoing

variable {h : ENet.Host} {data : Int} {passes : List (Nat → ENet.SendChoice)}

end Outgoing

end GDNet
