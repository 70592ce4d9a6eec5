import GDNet.Host.Slots
import GDNet.ENet.Rises

/-!
# The steps that bring a slot up

Only the host thread brings a slot to CONNECTED, in the step from which it has the
CONNECT event in its hands.  No step gives a peer more channels than there are
channel numbers below the one that ENet keeps for itself.
-/

namespace GDNet

open Transition

variable {s t : State} {a : Action}

/-- The event that the host thread is about to push. -/
def World.hand (w : World) : Option QueuedEvent :=
  match w.worker with
  | some (.pushTest q) => some q
  | some (.pushWrite q) => some q
  | _ => none

theorem hand_congr {w w' : World} (h : w'.worker = w.worker) : w'.hand = w.hand := by
  unfold World.hand
  rw [h]

theorem handOver_steady {h h' : ENet.Host} {m : Message} {input : WorkerInput}
    (ho : handOver h m input = some h') : ENet.Steady h h' := by
  unfold handOver at ho
  simp only at ho
  split at ho
  · cases ho
    exact .refl h
  · split at ho
    · cases ho
      exact ENet.broadcastLoop_steady _ h
    · split at ho
      · cases ho
        exact .update (ENet.peerSend_getD_steady _ _ _ _ _)
      · cases ho

theorem method_steady {method : PeerMethod} {h : ENet.Host} {i : Nat} {env : Env} :
    ENet.Steady h (method.run h i env) := by
  cases method with
  | ping =>
    show ENet.Steady h (h.update i fun p => ENet.peerPing p env.allocates)
    exact .update (ENet.peerPing_steady _ _)
  | reset => exact ENet.reset_steady h i
  | disconnect data => exact ENet.disconnect_steady
  | disconnectLater data => exact ENet.disconnectLater_steady
  | disconnectNow data => exact ENet.disconnectNow_steady
  | setTimeout _ _ _ => exact .refl h

/-- What a step does to the CONNECTED slots and to the event in the hands of the host
thread. -/
inductive Lifts (w w' : World) (h h' : ENet.Host) : Prop
  | steady (hs : ENet.Steady h h') (hw : w'.hand = none ∨ w'.hand = w.hand)
  | raises {e : ENet.Event} {time : Int} (hr : ENet.Raises h h' (some e)) (hw : w.hand = none)
      (hw' : w'.hand = some (w.queuedEvent time e))

theorem polled_lifts {w : World} {time : Int} {h h' : ENet.Host} {outcome : ENet.ServiceOutcome}
    (hr : ENet.Raises h h' outcome.event) (hw : w.hand = none) :
    Lifts w (w.polled time h' outcome) h h' := by
  unfold World.polled
  split
  · exact .steady (ENet.Steady.of_raises hr) (Or.inl rfl)
  · exact .steady (ENet.Steady.of_raises hr) (Or.inl rfl)
  · exact .raises hr hw rfl

theorem worker_lifts {w w' : World} {input : WorkerInput} {pc : WorkerPc} {h h' : ENet.Host}
    (hpc : w.worker = some pc) (hs : WorkerStep w input pc w') (hh : w.host.enetHost = some h)
    (hh' : w'.host.enetHost = some h') : Lifts w w' h h' := by
  have hsame : w'.host.enetHost = w.host.enetHost → w'.hand = none ∨ w'.hand = w.hand →
      Lifts w w' h h' := by
    intro he hw
    obtain rfl := Option.some.inj (hh.symm.trans (he.symm.trans hh'))
    exact .steady (.refl h) hw
  cases hs with
  | handing hg ho =>
    obtain rfl := Option.some.inj (hh.symm.trans hg)
    obtain rfl := Option.some.inj hh'
    exact .steady (handOver_steady ho) (Or.inl rfl)
  | service hg =>
    obtain rfl := Option.some.inj (hh.symm.trans hg)
    rw [(polled_enet _ _ _ _).1] at hh'
    obtain rfl := Option.some.inj hh'
    exact polled_lifts ENet.serviceStep_raises (by rw [World.hand, hpc])
  | check hg =>
    obtain rfl := Option.some.inj (hh.symm.trans hg)
    rw [(polled_enet _ _ _ _).1] at hh'
    obtain rfl := Option.some.inj hh'
    exact polled_lifts (ENet.dispatchLoop_raises _ h) (by rw [World.hand, hpc])
  | pushTest hf =>
    refine hsame rfl (Or.inr ?_)
    rw [World.hand, World.hand, hpc]
    rfl
  | fails hf => exact hsame rfl (Or.inr rfl)
  | _ => exact hsame rfl (Or.inl rfl)

theorem go_lifts {w w' : World} {g g' : Game} {env : Env} {pc : GamePc} {h h' : ENet.Host}
    (hs : GoStep gameThread w g env pc w' g') (hh : w.host.enetHost = some h)
    (hh' : w'.host.enetHost = some h') :
    ENet.Steady h h' ∧ (w'.hand = none ∨ w'.hand = w.hand) := by
  have hsame : w'.host.enetHost = w.host.enetHost → w'.hand = none ∨ w'.hand = w.hand →
      ENet.Steady h h' ∧ (w'.hand = none ∨ w'.hand = w.hand) := by
    intro he hw
    obtain rfl := Option.some.inj (hh.symm.trans (he.symm.trans hh'))
    exact ⟨.refl h, hw⟩
  cases hs with
  | inside hl =>
    obtain rfl := Option.some.inj (hh.symm.trans (World.live_eq hl).1)
    obtain rfl := Option.some.inj hh'
    exact ⟨method_steady, Or.inr rfl⟩
  | found hg hc =>
    obtain rfl := Option.some.inj (hh.symm.trans hg)
    obtain rfl := Option.some.inj hh'
    exact ⟨ENet.connectClaim_steady hc, Or.inr rfl⟩
  | unbindFlush hg =>
    obtain rfl := Option.some.inj (hh.symm.trans hg)
    obtain rfl := Option.some.inj hh'
    exact ⟨ENet.flush_steady _ _, Or.inr rfl⟩
  | unbindDestroy => cases hh'
  | bindThread => exact hsame rfl (Or.inl rfl)
  | unbindWait hw => exact hsame rfl (Or.inl rfl)
  | _ => exact hsame rfl (Or.inr rfl)

theorem step_lifts {h h' : ENet.Host} (hst : Step s a t) (hh : s.enet = some h)
    (hh' : t.enet = some h') : Lifts s.world t.world h h' := by
  cases hst with
  | worker hpc hs => exact worker_lifts hpc hs hh hh'
  | call hpc hp hs =>
    have hq := (call_queues hs hpc).2.2.1
    rcases call_host hs with ⟨he, _⟩ | ⟨g, hg, _⟩
    · obtain rfl := Option.some.inj (hh.symm.trans (he.symm.trans hh'))
      exact .steady (.refl h) (Or.inr (hand_congr hq))
    · rw [show s.world.host.enetHost = some h from hh] at hg
      cases hg
  | go hs =>
    obtain ⟨hs, hw⟩ := go_lifts hs hh hh'
    exact .steady hs hw

theorem Lifts.channels {w w' : World} {h h' : ENet.Host} (hl : Lifts w w' h h') (j : Nat) :
    (h'.peers j).channelCount ≤ max (h.peers j).channelCount ENet.protocolMaximumChannelCount := by
  cases hl with
  | steady hs _ => exact (hs j).channels
  | raises hr _ _ => exact hr.channels j

theorem created {w : World} {address : Option ENet.Address} {env : Env} {h : ENet.Host}
    (hc : w.create address env = some h) (j : Nat) :
    h.peers j = ENet.Peer.initial := by
  unfold World.create ENet.hostCreate at hc
  split at hc
  · cases hc
  · split at hc
    · cases hc
      rfl
    · cases hc

/-- A host that was not there before has its slots as `enet_host_create` leaves them. -/
theorem created_peers {h' : ENet.Host} (hst : Step s a t) (hn : s.enet = none)
    (hh' : t.enet = some h') (j : Nat) : h'.peers j = ENet.Peer.initial := by
  have hsame : t.enet = s.enet → h'.peers j = ENet.Peer.initial := by
    intro he
    rw [he, hn] at hh'
    cases hh'
  have hlost : ∀ {h : ENet.Host}, s.enet = some h → h'.peers j = ENet.Peer.initial := by
    intro h hh
    rw [hn] at hh
    cases hh
  cases hst with
  | worker hpc hs =>
    cases hs with
    | handing hg ho => exact hlost hg
    | service hg => exact hlost hg
    | check hg => exact hlost hg
    | _ => exact hsame rfl
  | call hpc hp hs =>
    cases hs with
    | bind hg hc =>
      obtain rfl := Option.some.inj hh'
      exact created hc j
    | _ => exact hsame rfl
  | go hs =>
    generalize s.game.pc = pc at hs
    cases hs with
    | inside hl => exact hlost (World.live_eq hl).1
    | found hg hc => exact hlost hg
    | unbindFlush hg => exact hlost hg
    | unbindDestroy => cases hh'
    | _ => exact hsame rfl

/-- No peer has a channel with the number that ENet keeps for itself. -/
theorem channels_bounded (hr : system.Reachable s) {h : ENet.Host} (hh : s.enet = some h)
    (j : Nat) : (h.peers j).channelCount ≤ ENet.protocolMaximumChannelCount := by
  have h₀ : ∀ s, system.start s → ∀ h, s.enet = some h → ∀ j,
      (h.peers j).channelCount ≤ ENet.protocolMaximumChannelCount := by
    rintro s ⟨events, messages, rfl⟩ h hh
    cases hh
  refine hr.invariant h₀ (fun s a t hi hst h' hh' j => ?_) h hh j
  have hstep := (step_cases hst).2
  cases hg : s.enet with
  | some g =>
    have := (step_lifts hstep hg hh').channels j
    have := hi g hg j
    omega
  | none =>
    rw [created_peers hstep hg hh' j]
    exact Nat.zero_le _

end GDNet
