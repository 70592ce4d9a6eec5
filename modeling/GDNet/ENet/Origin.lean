import GDNet.ENet.Service

/-!
# Which connection raised an event

A CONNECT or RECEIVE event is raised by a connection that has come up.  `Origin`
is what stays true of it however long the event waits: while the slot still
carries the number of that connection, it has the address the event came from,
and the connection is up, closing or gone.
-/

namespace ENet

structure Origin (h : Host) (e : Event) : Prop where
  counted : e.connection < h.connections
  source : e.address.host ≠ enetHostBroadcast
  holds : (h.slot e.peer).connection = e.connection → (h.slot e.peer).address = e.address ∧
    ((h.slot e.peer).state = .disconnected ∨ 3 ≤ (h.slot e.peer).state.rank)

variable {a : Allow} {h h' : Host} {i : Nat} {e : Event}

/-- A slot that was given away carries a number that no earlier event has. -/
theorem Origin.receives (ho : Origin h e) (hr : Receives a h h') : Origin h' e where
  counted := Nat.lt_of_lt_of_le ho.counted hr.connections
  source := ho.source
  holds hconn := by
    rcases hr.slots e.peer with hm | ⟨_, ht⟩
    · obtain ⟨haddr, hstate⟩ := ho.holds (hm.connection.symm.trans hconn)
      refine ⟨(hm.address (haddr ▸ ho.source)).trans haddr, ?_⟩
      rcases hm.rank with hd | ⟨hne, hle⟩
      · exact Or.inl hd
      · rcases hstate with hd | h3
        · exact absurd hd hne
        · exact Or.inr (Nat.le_trans h3 hle)
    · have := ht.fresh
      have := ho.counted
      omega

theorem Origin.claim {address : Address} {channelCount : Nat} {data : UInt32}
    {channels connects : Bool} (ho : Origin h e)
    (hs : hostConnectClaim h i address channelCount data channels connects = some h') :
    Origin h' e := by
  obtain ⟨hself, hothers, _, hcount⟩ := connectClaim_slot hs
  refine ⟨?_, ho.source, fun hconn => ?_⟩
  · rw [hcount]
    exact Nat.lt_succ_of_lt ho.counted
  · by_cases hj : e.peer = i
    · rw [hj, hself] at hconn
      exact absurd hconn.symm (Nat.ne_of_lt ho.counted)
    · rw [hothers _ hj] at hconn ⊢
      exact ho.holds hconn

theorem Origin.raise (hok : h.Ok) (hs : (h.peers e.peer).state = .connected)
    (hc : e.connection = (h.peers e.peer).connection)
    (ha : e.address = (h.peers e.peer).address) : Origin h e where
  counted := hc ▸ hok.counted e.peer
  source := by
    have hrank : (h.slot e.peer).state.rank = 3 := PeerState.rank_eq_three.mpr hs
    rw [ha]
    exact hok.reached e.peer (Or.inr hrank)
  holds _ := ⟨ha.symm, Or.inr (Nat.le_of_eq (PeerState.rank_eq_three.mpr hs).symm)⟩

theorem dispatchLoop_origin : ∀ (queue : List Nat) (h : Host), h.Ok →
    (protocolDispatchLoop queue h).2 = some e → e.type ≠ .disconnect →
    Origin (protocolDispatchLoop queue h).1 e := by
  intro queue
  induction queue with
  | nil => intro h _ he _; cases he
  | cons i queue ih =>
    intro h hok he ht
    -- Either the loop goes on, or the slot it stops at is connected afterwards.
    have hmoves : HostMoves .all h
        (protocolDispatchLoop (i :: queue) h).1 := dispatchLoop_moves _ h fun _ => trivial
    have htake : (setDispatch h queue i false).Ok :=
      (setDispatch_moves (a := .all) h queue i false).receives.ok hok
    have hok' := hmoves.receives.ok hok
    rw [protocolDispatchLoop] at he hok' ⊢
    generalize setDispatch h queue i false = t at htake he hok' ⊢
    cases hs : (t.peers i).state with
    | connectionPending =>
      simp only [hs, Option.some.injEq] at he hok' ⊢
      subst he
      exact Origin.raise hok' (by simp [protocolChangeState, Host.event]) rfl rfl
    | connectionSucceeded =>
      simp only [hs, Option.some.injEq] at he hok' ⊢
      subst he
      exact Origin.raise hok' (by simp [protocolChangeState, Host.event]) rfl rfl
    | zombie =>
      simp only [hs, Option.some.injEq] at he
      subst he
      exact absurd rfl ht
    | connected =>
      simp only [hs] at he hok' ⊢
      cases hdc : (t.peers i).dispatchedCommands with
      | nil =>
        simp only [hdc] at he ⊢
        exact ih t htake he ht
      | cons c commands =>
        simp only [hdc, Option.some.injEq] at he hok' ⊢
        subst he
        have hup : (t.update i fun p => { p with dispatchedCommands := commands }).Ok :=
          (HostMoves.update_slot (a := .all) (f := fun p =>
            { p with dispatchedCommands := commands }) rfl).receives.ok htake
        have ho : Origin (t.update i fun p => { p with dispatchedCommands := commands })
            { (t.update i fun p => { p with dispatchedCommands := commands }).event .receive i 0
              with channelID := c.channelID, packet := some c.packet } :=
          Origin.raise hup (by simp [Host.event, hs]) rfl rfl
        split
        · exact ho
        · exact ho.receives (queueDispatch_moves (a := .all) _ i).receives
    | disconnected => simp only [hs] at he ⊢; exact ih t htake he ht
    | connecting => simp only [hs] at he ⊢; exact ih t htake he ht
    | acknowledgingConnect => simp only [hs] at he ⊢; exact ih t htake he ht
    | disconnectLater => simp only [hs] at he ⊢; exact ih t htake he ht
    | disconnecting => simp only [hs] at he ⊢; exact ih t htake he ht
    | acknowledgingDisconnect => simp only [hs] at he ⊢; exact ih t htake he ht

theorem notifyConnect_origin {deliver : Bool} (hok : h.Ok)
    (hr : (h.peers i).state.rank = 1 ∨ (h.peers i).state.rank = 2)
    (hb : (h.peers i).address.host ≠ enetHostBroadcast)
    (he : (protocolNotifyConnect h i deliver).2 = some e) :
    Origin (protocolNotifyConnect h i deliver).1 e := by
  have hok' : (protocolNotifyConnect h i deliver).1.Ok :=
    (notifyConnect_moves (a := .all) hr trivial hb).receives.ok hok
  unfold protocolNotifyConnect at he hok' ⊢
  split at he
  · next hd =>
    simp only [hd, if_true, Option.some.injEq] at he hok' ⊢
    subst he
    exact Origin.raise hok' (by simp [protocolChangeState, Host.event]) rfl rfl
  · cases he

theorem notifyDisconnect_type {deliver : Bool}
    (he : (protocolNotifyDisconnect h i deliver).2 = some e) : e.type = .disconnect := by
  unfold protocolNotifyDisconnect at he
  split at he
  · cases he
  · split at he <;> cases he
    rfl

theorem handleCommand_origin {c : Command} {deliver : Bool} (hok : h.Ok)
    (hb : (h.peers i).address.host ≠ enetHostBroadcast)
    (he : (protocolHandleCommand h i deliver c).event = some e) (ht : e.type ≠ .disconnect) :
    Origin (protocolHandleCommand h i deliver c).host e := by
  unfold protocolHandleCommand at he ⊢
  cases hbody : c.body with
  | acknowledge n inTime =>
    simp only [hbody, protocolHandleAcknowledge] at he ⊢
    split at he
    · cases he
    · next hs =>
      rw [if_neg hs]
      have hrem := removeSent_slot (h.peers i) n c.channelID
      have hup : (h.update i fun _ =>
          (protocolRemoveSentReliableCommand (h.peers i) n c.channelID).1).Ok :=
        (HostMoves.update_slot (a := .all) hrem).receives.ok hok
      simp only [Host.update_peers_self] at he ⊢
      cases hst : (protocolRemoveSentReliableCommand (h.peers i) n c.channelID).1.state with
      | acknowledgingConnect =>
        simp only [hst] at he ⊢
        split at he
        · cases he
        · next hn =>
          rw [if_neg hn]
          refine notifyConnect_origin hup (Or.inr ?_) ?_ he
          · rw [Host.update_peers_self, hst]; rfl
          · rw [Host.update_peers_self, slot_address hrem]; exact hb
      | disconnecting =>
        simp only [hst] at he
        split at he
        · cases he
        · exact absurd (notifyDisconnect_type he) ht
      | disconnectLater =>
        simp only [hst] at he
        split at he <;> cases he
      | _ => simp only [hst] at he; cases he
  | verifyConnect channelCount connectID mtu agrees =>
    simp only [hbody, protocolHandleVerifyConnect] at he ⊢
    split at he
    · cases he
    · next hs =>
      rw [if_neg hs]
      rw [Classical.not_not] at hs
      split at he
      · cases he
      · next hv =>
        rw [if_neg hv]
        have hrem := removeSent_slot (h.peers i) 1 0xFF
        refine notifyConnect_origin
          ((HostMoves.update_slot (a := .all) (i := i) ?_).receives.ok hok)
          (Or.inl ?_) ?_ he
        · exact hrem
        · simp only [Host.update_peers_self, slot_state hrem, hs, PeerState.rank]
        · simp only [Host.update_peers_self, slot_address hrem]
          exact hb
  | connect body => simp only [hbody] at he; cases he
  | disconnect data => simp only [hbody] at he; cases he
  | ping => simp only [hbody, protocolHandleConnected] at he; cases he
  | send command packets =>
    simp only [hbody, protocolHandleSend] at he
    split at he
    · cases he
    · split at he <;> cases he
  | bandwidthLimit => simp only [hbody, protocolHandleConnected] at he; cases he
  | throttleConfigure => simp only [hbody, protocolHandleConnected] at he; cases he

theorem handleCommands_origin {d : Datagram} {deliver : Bool} (ht : e.type ≠ .disconnect) :
    ∀ (cs : List Command) (h : Host) (event : Option Event), h.Ok →
    (h.peers i).address.host ≠ enetHostBroadcast → (event = some e → Origin h e) →
    (protocolHandleCommands d deliver i cs h event).2 = some e →
    Origin (protocolHandleCommands d deliver i cs h event).1 e := by
  intro cs
  induction cs with
  | nil => intro h event _ _ ho he; exact ho he
  | cons c cs ih =>
    intro h event hok hb ho he
    have hm : HostMoves .all h (protocolHandleCommand h i deliver c).host :=
      handleCommand_moves trivial hb (fun _ => trivial) fun _ => trivial
    have hone : (protocolHandleCommand h i deliver c).event.or event = some e →
        Origin (protocolHandleCommand h i deliver c).host e := by
      intro hor
      cases hev : (protocolHandleCommand h i deliver c).event with
      | none => rw [hev] at hor; exact (ho hor).receives hm.receives
      | some e' =>
        rw [hev] at hor
        cases hor
        exact handleCommand_origin hok hb hev ht
    have haddr : ∀ {g : Host}, HostMoves .all h g →
        (g.peers i).address.host ≠ enetHostBroadcast := by
      intro g hg
      rw [show (g.peers i).address = (h.peers i).address from (hg.slots i).address hb]
      exact hb
    unfold protocolHandleCommands at he ⊢
    simp only at he ⊢
    split
    · next hx => rw [if_pos hx] at he; exact hone he
    · next hx =>
      rw [if_neg hx] at he
      split
      · next hk =>
        rw [if_pos hk] at he
        exact ih _ _ (hm.receives.ok hok) (haddr hm) hone he
      · next hk =>
        rw [if_neg hk] at he
        split
        · next hs => rw [if_pos hs] at he; exact hone he
        · next hs =>
          rw [if_neg hs] at he
          have hq := queueAcknowledgement_moves (a := .all) (c := c)
            (@handleCommand_closing h i deliver c)
          exact ih _ _ (hq.receives.ok (hm.receives.ok hok)) (haddr (hm.trans hq))
            (fun hor => (hone hor).receives hq.receives) he

theorem handleFirstCommand_origin {d : Datagram} {deliver : Bool} (hok : h.Ok)
    (ht : e.type ≠ .disconnect) (he : (protocolHandleFirstCommand d deliver h).2 = some e) :
    Origin (protocolHandleFirstCommand d deliver h).1 e := by
  unfold protocolHandleFirstCommand at he ⊢
  cases hcs : d.commands with
  | nil => rw [hcs] at he; cases he
  | cons c cs =>
    simp only [hcs] at he ⊢
    cases hbody : c.body with
    | connect body =>
      simp only [hbody] at he ⊢
      cases hcon : protocolHandleConnect h d.address body with
      | none => simp only [hcon] at he; cases he
      | some r =>
        obtain ⟨g, i⟩ := r
        obtain ⟨hfree, rfl⟩ := handleConnect_eq hcon
        simp only [hcon] at he ⊢
        have hack : HostMoves ⟨True, True, (· = i)⟩ (connectAccept h i d.address body)
            (protocolQueueAcknowledgement (connectAccept h i d.address body) i c) :=
          queueAcknowledgement_moves fun e => by rw [hbody] at e; cases e
        have hb := accept_address h i d body
        have hok' : ∀ {g : Host}, HostMoves ⟨True, True, (· = i)⟩
            (connectAccept h i d.address body) g → g.Ok := fun hm =>
          (accept_receives (a := .all) trivial hfree hm).ok hok
        split at he
        · next hk =>
          rw [if_pos hk]
          exact handleCommands_origin ht _ _ _ (hok' (HostMoves.refl _)) hb
            (fun h => by cases h) he
        · next hk =>
          rw [if_neg hk]
          split at he
          · cases he
          · next hs =>
            rw [if_neg hs]
            refine handleCommands_origin ht _ _ _ (hok' hack) ?_ (fun h => by cases h) he
            rw [show ((protocolQueueAcknowledgement (connectAccept h i d.address body)
              i c).peers i).address = _ from (hack.slots i).address hb]
            exact hb
    | _ => rw [hbody] at he; cases he

theorem handleIncoming_origin {d : Datagram} {deliver : Bool} (hok : h.Ok)
    (ht : e.type ≠ .disconnect) (he : (protocolHandleIncomingCommands h d deliver).2 = some e) :
    Origin (protocolHandleIncomingCommands h d deliver).1 e := by
  unfold protocolHandleIncomingCommands at he ⊢
  cases hp : d.peerID with
  | none =>
    simp only [hp] at he ⊢
    exact handleFirstCommand_origin hok ht he
  | some i =>
    simp only [hp] at he ⊢
    split at he
    · cases he
    · next hs =>
      rw [if_neg hs]
      simp only [not_or, not_and, Classical.not_not] at hs
      refine handleCommands_origin ht _ _ _
        ((setAddress_moves (a := .all) hs.2.2.2.1).receives.ok hok) ?_ (fun h => by cases h) he
      rw [Host.update_peers_self]
      exact d.source

theorem sendOutgoing_type {deliver checkForTimeouts : Bool} {choice : SendChoice}
    (he : (protocolSendOutgoingCommands h i deliver checkForTimeouts choice).event = some e) :
    e.type = .disconnect := by
  unfold protocolSendOutgoingCommands at he
  split at he
  · cases he
  · simp only at he
    split at he
    · exact notifyDisconnect_type he
    · cases he

/-- Every CONNECT and RECEIVE event has a connection behind it. -/
theorem serviceStep_origin {pc : ServicePc} {input : ServiceInput} (hok : h.Ok)
    (he : (serviceStep h pc input).2.event = some e) (ht : e.type ≠ .disconnect) :
    Origin (serviceStep h pc input).1 e := by
  cases pc with
  | dispatch =>
    simp only [serviceStep, deliverOr_host] at he ⊢
    rw [deliverOr_event rfl] at he
    exact dispatchLoop_origin _ h hok he ht
  | throttle => cases he
  | send again i =>
    simp only [serviceStep] at he
    split at he
    · rw [deliverOr_event (by split <;> rfl)] at he
      exact absurd (sendOutgoing_type he) ht
    · split at he <;> cases he
  | receive packets =>
    simp only [serviceStep] at he ⊢
    split at he
    · next hp =>
      rw [if_pos hp]
      cases hr : input.received with
      | nothing => rw [hr] at he; cases he
      | failed => rw [hr] at he; cases he
      | datagram d =>
        simp only [hr, deliverOr_host] at he ⊢
        rw [deliverOr_event rfl] at he
        exact handleIncoming_origin hok ht he
    · cases he
  | dispatchAgain =>
    simp only [serviceStep, deliverOr_host] at he ⊢
    rw [deliverOr_event rfl] at he
    exact dispatchLoop_origin _ h hok he ht
  | wait =>
    simp only [serviceStep] at he
    split at he <;> cases he

end ENet
