import GDNet.ENet.Calls

/-!
# `enet_host_service`, step by step

One step is one part of the function that another thread could fall between: a
dispatch, a visit of one peer while sending, one datagram.  `serviceStep_receives`
is what a step does to the slots and `Origin` what the event it delivers says
about the connection that raised it.
-/

namespace ENet

/-- Where the function is. -/
inductive ServicePc where
  | dispatch
  | throttle
  /-- Sending, before (`again = false`) or after the datagrams are received. -/
  | send (again : Bool) (i : Nat)
  | receive (packets : Nat)
  | dispatchAgain
  | wait
deriving DecidableEq, Repr

/-- What `enet_socket_receive` returns. -/
inductive Received where
  | nothing
  | failed
  | datagram (d : Datagram)

structure ServiceInput where
  recalculateBandwidthLimits : Bool := false
  allocates : Nat → Bool := fun _ => true
  send : SendChoice := {}
  continueSending : Bool := false
  received : Received := .nothing
  /-- The wait ended with something to receive. -/
  arrived : Bool := false

inductive ServiceOutcome where
  | next (pc : ServicePc)
  /-- The function returns, with a positive result if there is an event. -/
  | done (event : Option Event)

/-- Return the event, or go on. -/
def deliverOr (r : Host × Option Event) (outcome : ServiceOutcome) : Host × ServiceOutcome :=
  match r.2 with
  | some event => (r.1, .done (some event))
  | none => (r.1, outcome)

def serviceStep (h : Host) (pc : ServicePc) (input : ServiceInput) : Host × ServiceOutcome :=
  match pc with
  | .dispatch => deliverOr (protocolDispatchIncomingCommands h) (.next .throttle)
  | .throttle =>
    (hostBandwidthThrottle h input.recalculateBandwidthLimits input.allocates,
      .next (.send false 0))
  | .send again i =>
    if i < h.peerCount then
      let r := protocolSendOutgoingCommands h i true true input.send
      deliverOr (r.host, r.event) (if r.failed then .done none else .next (.send again (i + 1)))
    else if input.continueSending then (h, .next (.send again 0))
    else (h, .next (if again then .dispatchAgain else .receive 0))
  | .receive packets =>
    if packets < 256 then
      match input.received with
      | .nothing => (h, .next (.send true 0))
      | .failed => (h, .done none)
      | .datagram d =>
        deliverOr (protocolHandleIncomingCommands h d true) (.next (.receive (packets + 1)))
    else (h, .done none)
  | .dispatchAgain => deliverOr (protocolDispatchIncomingCommands h) (.next .wait)
  | .wait => (h, if input.arrived then .next .throttle else .done none)

/-- The event a step returns. -/
def ServiceOutcome.event : ServiceOutcome → Option Event
  | .next _ => none
  | .done event => event

/-- The step disconnects the slot `j` for the remote side: it timed out, or its
datagram says so. -/
def ServiceInput.closes (input : ServiceInput) (j : Nat) : ServicePc → Prop
  | .send _ i => i = j ∧ .expired ∈ input.send.timeouts
  | .receive _ => ∃ d, input.received = .datagram d ∧ d.peerID = some j ∧
      ∃ c ∈ d.commands, c.body.isDisconnect
  | _ => False

@[simp] theorem deliverOr_host (r : Host × Option Event) (outcome : ServiceOutcome) :
    (deliverOr r outcome).1 = r.1 := by
  unfold deliverOr
  split <;> rfl

theorem deliverOr_event {r : Host × Option Event} {outcome : ServiceOutcome}
    (h : outcome.event = none) : (deliverOr r outcome).2.event = r.2 := by
  unfold deliverOr
  cases hr : r.2 with
  | none => simp [h]
  | some e => rfl

/-- What holds of a host at any time. -/
structure Host.Ok (h : Host) : Prop where
  reached : ∀ i, (h.slot i).Reached
  counted : ∀ i, (h.slot i).connection < h.connections

theorem Receives.ok {a : Allow} {h h' : Host} (hr : Receives a h h') (hok : h.Ok) : h'.Ok where
  reached i := (hr.slots i).elim (fun hm => hm.reached (hok.reached i)) fun ht => ht.2.reached
  counted i := by
    rcases hr.slots i with hm | ⟨_, ht⟩
    · rw [hm.connection]
      exact Nat.lt_of_lt_of_le (hok.counted i) hr.connections
    · exact ht.counted

theorem hostCreate_ok {address : Option Address} {peerCount channelLimit : Nat} {seed : UInt32}
    {opens : Bool} {h : Host}
    (hs : hostCreate address peerCount channelLimit seed opens = some h) : h.Ok := by
  unfold hostCreate at hs
  split at hs
  · cases hs
  · split at hs
    · cases hs
      refine ⟨fun i hr => ?_, fun i => Nat.zero_lt_one⟩
      simp [Host.slot, Peer.slot, Peer.initial, PeerState.rank] at hr
    · cases hs

theorem connectClaim_ok {h h' : Host} {i : Nat} {address : Address} {channelCount : Nat}
    {data : UInt32} {channels connects : Bool} (hok : h.Ok)
    (hs : hostConnectClaim h i address channelCount data channels connects = some h') : h'.Ok := by
  obtain ⟨hself, hothers, _, hcount⟩ := connectClaim_slot hs
  refine ⟨fun j => ?_, fun j => ?_⟩
  · by_cases hj : j = i
    · rw [hj, hself]
      intro hr
      simp [PeerState.rank] at hr
    · rw [hothers j hj]
      exact hok.reached j
  · rw [hcount]
    by_cases hj : j = i
    · rw [hj, hself]
      exact Nat.lt_succ_self _
    · rw [hothers j hj]
      exact Nat.lt_succ_of_lt (hok.counted j)

/-- A step frees a slot that had come up only when it returns an event, and takes
one out of CONNECTED only when the remote side went away. -/
theorem serviceStep_receives {h : Host} {pc : ServicePc} {input : ServiceInput} :
    Receives ⟨(serviceStep h pc input).2.event.isSome, True, fun j => input.closes j pc⟩
      h (serviceStep h pc input).1 := by
  cases pc with
  | dispatch =>
    simp only [serviceStep, deliverOr_host]
    rw [deliverOr_event rfl]
    exact (dispatchLoop_moves _ h fun e => e).receives
  | throttle => exact bandwidthThrottle_moves.receives
  | send again i =>
    simp only [serviceStep]
    split
    · simp only [deliverOr_host]
      rw [deliverOr_event (by split <;> rfl)]
      refine HostMoves.receives (sendOutgoing_moves (fun e => e) fun _ he => ?_)
      exact ⟨rfl, he⟩
    · split <;> exact (HostMoves.refl h).receives
  | receive packets =>
    simp only [serviceStep]
    split
    · cases hr : input.received with
      | nothing => exact (HostMoves.refl h).receives
      | failed => exact (HostMoves.refl h).receives
      | datagram d =>
        simp only [deliverOr_host]
        rw [deliverOr_event rfl]
        exact handleIncoming_receives trivial (fun e => e)
          fun j hp hd => ⟨d, hr, hp, hd⟩
    · exact (HostMoves.refl h).receives
  | dispatchAgain =>
    simp only [serviceStep, deliverOr_host]
    rw [deliverOr_event rfl]
    exact (dispatchLoop_moves _ h fun e => e).receives
  | wait => exact (HostMoves.refl h).receives

end ENet
