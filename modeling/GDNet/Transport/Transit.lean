import GDNet.Transport.Exchange

/-!
# The data on its way

`reliableDataInTransit` is subtracted from where a command is acknowledged or late,
in unsigned numbers.  It never goes below zero: it is at least the data of the commands
that wait in `sentReliableCommands`, and never more than a window.  While the sender
has its channels it is exactly this data; `enet_peer_reset_queues` empties the list and
leaves the count.
-/

namespace Transport
open ENet (Packet ProtocolCommand PeerState)
open Transition

/-- The data that a command carries. -/
def Outgoing.dataLength (c : Outgoing) : Nat := if c.packet.isSome then c.fragmentLength else 0

/-- The data of commands. -/
def carried : List Outgoing → Nat
  | [] => 0
  | c :: cs => c.dataLength + carried cs

theorem carried_append (cs ds : List Outgoing) : carried (cs ++ ds) = carried cs + carried ds := by
  induction cs with
  | nil => rw [List.nil_append, carried, Nat.zero_add]
  | cons c cs ih => rw [List.cons_append, carried, carried, ih, Nat.add_assoc]

/-- The count is enough for the commands that wait, exact while there are channels, and
the settings are those a connection can have. -/
structure Metered (p : Outbound) : Prop where
  enough : carried p.sentReliableCommands ≤ p.reliableDataInTransit
  exact : p.channelCount ≠ 0 → p.reliableDataInTransit = carried p.sentReliableCommands
  limit : p.reliableDataInTransit ≤ protocolMaximumWindowSize
  mtu : p.mtu ≤ protocolMaximumMtu
  windowSize : p.windowSize ≤ protocolMaximumWindowSize
  packetThrottle : p.packetThrottle ≤ packetThrottleScale

namespace Metered

variable {p p' : Outbound}

theorem dataLimit (h : Metered p) : p.dataLimit ≤ protocolMaximumWindowSize := by
  have hmtu := h.mtu
  have hmul := Nat.mul_le_mul h.packetThrottle h.windowSize
  unfold Outbound.dataLimit
  unfold protocolMaximumMtu protocolMaximumWindowSize packetThrottleScale at *
  omega

/-- What is not about the count may change. -/
theorem congr (h : Metered p) (ht : p'.reliableDataInTransit = p.reliableDataInTransit)
    (hs : p'.sentReliableCommands = p.sentReliableCommands)
    (hc : p'.channelCount = p.channelCount) (hm : p'.mtu = p.mtu)
    (hw : p'.windowSize = p.windowSize) (hp : p'.packetThrottle = p.packetThrottle) :
    Metered p' := by
  refine ⟨?_, ?_, ?_, ?_, ?_, ?_⟩
  · rw [ht, hs]
    exact h.enough
  · rw [ht, hs, hc]
    exact h.exact
  · rw [ht]
    exact h.limit
  · rw [hm]
    exact h.mtu
  · rw [hw]
    exact h.windowSize
  · rw [hp]
    exact h.packetThrottle

theorem setup (h : Metered p) (c : Outgoing) : Metered (peerSetupOutgoingCommand p c) := by
  unfold peerSetupOutgoingCommand
  simp only
  split
  · split <;> exact h.congr rfl rfl rfl rfl rfl rfl
  · split
    · exact h.congr rfl rfl rfl rfl rfl rfl
    · split <;> exact h.congr rfl rfl rfl rfl rfl rfl

theorem foldl (cs : List Outgoing) (p : Outbound) (h : Metered p) :
    Metered (cs.foldl peerSetupOutgoingCommand p) := by
  induction cs generalizing p with
  | nil => exact h
  | cons c cs ih => exact ih _ (h.setup c)

/-- A command is sent only if the limit allows it. -/
theorem send {s : Sending} (h : Metered s.peer) (c : Outgoing) (t : UInt32)
    (hlimit : c.packet.isSome = true →
      s.peer.reliableDataInTransit + c.fragmentLength ≤ s.peer.dataLimit) :
    Metered (s.send c t).peer := by
  have hsent := send_sent s c t
  have htransit : (s.send c t).peer.reliableDataInTransit =
      s.peer.reliableDataInTransit + c.dataLength := by
    unfold Sending.send
    simp only
    split <;> rfl
  have hlength : (c.attempt s.peer t).dataLength = c.dataLength := rfl
  have hle := h.dataLimit
  have hcarried : carried (s.send c t).peer.sentReliableCommands =
      carried s.peer.sentReliableCommands + c.dataLength := by
    rw [hsent, carried_append, carried, carried, hlength, Nat.add_zero]
  have henough := h.enough
  refine ⟨?_, ?_, ?_, ?_, ?_, ?_⟩
  · rw [htransit, hcarried]
    omega
  · rw [htransit, hcarried, send_channelCount]
    intro hne
    rw [h.exact hne]
  · rw [htransit, Outgoing.dataLength]
    split
    · next hp => exact Nat.le_trans (hlimit hp) hle
    · exact h.limit
  · unfold Sending.send
    simp only
    split <;> exact h.mtu
  · unfold Sending.send
    simp only
    split <;> exact h.windowSize
  · unfold Sending.send
    simp only
    split <;> exact h.packetThrottle

theorem loop (t : UInt32) (cs : List Outgoing) (s : Sending) (h : Metered s.peer) :
    Metered (Sending.loop t cs s).1.peer := by
  induction cs generalizing s with
  | nil => exact h
  | cons c cs ih =>
    rw [Sending.loop]
    rcases turn_cases s c t with ⟨s', hs', hp, -⟩ | ⟨s', hs', hp, -⟩ | ⟨hs', -, hpacket, -⟩
    · rw [hs']
      exact ih s' (hp ▸ h)
    · rw [hs']
      exact hp ▸ h
    · rw [hs']
      exact ih _ (h.send c t fun hp => (hpacket hp).2)

/-- Late commands are taken out of the count. -/
theorem timeouts (serviceTime : UInt32) (cs : List Outgoing) {t : Timeouts}
    (h : Metered { t.peer with sentReliableCommands := t.kept ++ cs }) :
    Metered { (Timeouts.loop serviceTime cs t).1.peer with
      sentReliableCommands := (Timeouts.loop serviceTime cs t).1.kept ++
        (Timeouts.loop serviceTime cs t).2.1 } := by
  induction cs generalizing t with
  | nil => exact h
  | cons c cs ih =>
    unfold Timeouts.loop
    simp only
    split
    · refine ih ?_
      simp only [List.append_assoc, List.singleton_append]
      exact h
    · split
      · exact h.congr rfl rfl rfl rfl rfl rfl
      · have henough := h.enough
        have hexact := h.exact
        have hlimit := h.limit
        have hcarried : carried (t.kept ++ c :: cs) = carried (t.kept ++ cs) + c.dataLength := by
          rw [carried_append, carried_append, carried]
          omega
        simp only [hcarried] at henough hexact
        refine ih ⟨?_, ?_, ?_, h.mtu, h.windowSize, h.packetThrottle⟩
        · show carried (t.kept ++ cs) ≤ t.peer.reliableDataInTransit - c.dataLength
          omega
        · intro hne
          show t.peer.reliableDataInTransit - c.dataLength = carried (t.kept ++ cs)
          have := hexact hne
          omega
        · show t.peer.reliableDataInTransit - c.dataLength ≤ _
          exact Nat.le_trans (Nat.sub_le _ _) hlimit

theorem rearm (h : Metered p) : Metered p.rearm := by
  unfold Outbound.rearm
  split <;> exact h.congr rfl rfl rfl rfl rfl rfl

theorem freeWindow (h : Metered p) (number : UInt16) (ch : UInt8) :
    Metered (p.freeWindow number ch) := by
  unfold Outbound.freeWindow
  split <;> exact h.congr rfl rfl rfl rfl rfl rfl

/-- An acknowledged command is taken out of the count if it was in it. -/
theorem remove (h : Metered p) (number : UInt16) (ch : UInt8) :
    Metered (protocolRemoveSentReliableCommand p number ch).1 := by
  have hfree := h.freeWindow number ch
  unfold protocolRemoveSentReliableCommand
  split
  · next c hfind =>
    obtain ⟨hs, -⟩ := freeWindow_same p number ch
    obtain ⟨as, bs, hsplit, -, herase⟩ := eraseP_split [] hfind
    rw [List.append_nil, List.append_nil] at herase
    have henough := hfree.enough
    have hexact := hfree.exact
    have hlimit := hfree.limit
    have hcarried : carried (p.freeWindow number ch).sentReliableCommands =
        carried ((p.freeWindow number ch).sentReliableCommands.eraseP (Outgoing.isIt number ch)) +
          c.dataLength := by
      rw [hs, herase, hsplit, carried_append, carried_append, carried]
      omega
    rw [hcarried] at henough hexact
    refine Metered.rearm ⟨?_, ?_, ?_, hfree.mtu, hfree.windowSize, hfree.packetThrottle⟩
    · show carried ((p.freeWindow number ch).sentReliableCommands.eraseP _) ≤
        (p.freeWindow number ch).reliableDataInTransit - c.dataLength
      omega
    · intro hne
      show (p.freeWindow number ch).reliableDataInTransit - c.dataLength =
        carried ((p.freeWindow number ch).sentReliableCommands.eraseP _)
      have := hexact hne
      omega
    · show (p.freeWindow number ch).reliableDataInTransit - c.dataLength ≤ _
      exact Nat.le_trans (Nat.sub_le _ _) hlimit
  · split
    · refine Metered.rearm ?_
      exact hfree.congr rfl rfl rfl rfl rfl rfl
    · exact h

/-- Without commands the count may be what it was. -/
theorem resetQueues (h : Metered p) : Metered (peerResetQueues p) :=
  ⟨Nat.zero_le _, fun hne => absurd rfl hne, h.limit, h.mtu, h.windowSize, h.packetThrottle⟩

theorem reset (p : Outbound) : Metered (peerReset p) := by
  refine ⟨Nat.zero_le _, fun hne => absurd rfl hne, Nat.zero_le _, ?_, Nat.le_refl _,
    Nat.le_refl _⟩
  show ENet.hostDefaultMtu ≤ _
  decide

theorem checkTimeouts (h : Metered p) (serviceTime : UInt32) :
    Metered (protocolCheckTimeouts p serviceTime).1 := by
  have hloop := Metered.timeouts serviceTime p.sentReliableCommands (t := { peer := p }) h
  exact hloop.congr rfl rfl rfl rfl rfl rfl

theorem notifyDisconnect (h : Metered p) (deliver : Bool) :
    Metered (protocolNotifyDisconnect p deliver) := by
  rcases notifyDisconnect_cases p deliver with he | he
  · rw [he]
    exact .reset p
  · rw [he]
    exact h.congr rfl rfl rfl rfl rfl rfl

end Metered

namespace Exchange

variable {l : Link} {s t : Exchange}

theorem metered_step (h : Metered s.sender) {a : Act} (hs : Exchange.step l s a = some t) :
    Metered t.sender := by
  cases a with
  | send channelID packet allocates =>
    obtain ⟨p, hp, rfl⟩ := Option.map_eq_some_iff.mp hs
    show Metered p
    rw [(peerSend_eq hp).2.2]
    exact .foldl _ _ h
  | control c =>
    change (if c.channelID = 0xFF then _ else _) = some t at hs
    split at hs
    · cases hs
      exact h.setup c
    · cases hs
  | flush batch serviceTime =>
    obtain rfl : _ = t := Option.some.inj hs
    have hloop := Metered.loop serviceTime s.sender.outgoingReliableCommands
      { peer := s.sender, batch := batch } h
    exact hloop.congr rfl rfl rfl rfl rfl rfl
  | timeouts serviceTime deliver =>
    have hcheck := h.checkTimeouts serviceTime
    obtain rfl : _ = t := Option.some.inj hs
    simp only
    split
    · exact hcheck.notifyDisconnect deliver
    · exact hcheck
  | reset =>
    obtain rfl : _ = t := Option.some.inj hs
    exact .reset _
  | resetQueues =>
    obtain rfl : _ = t := Option.some.inj hs
    exact h.resetQueues
  | acknowledged ack number =>
    change (if (ack, number) ∈ s.acks then _ else _) = some t at hs
    split at hs
    · cases hs
      exact h.remove _ _
    · cases hs
  | otherAcknowledged number channelID =>
    change (if channelID ≠ l.channelID then _ else _) = some t at hs
    split at hs
    · cases hs
      exact h.remove _ _
    · cases hs
  | sender p =>
    change (if protocolMinimumMtu ≤ p.mtu ∧ _ then _ else _) = some t at hs
    split at hs
    · next hp =>
      cases hs
      exact ⟨h.enough, h.exact, h.limit, hp.2.1, hp.2.2.1, hp.2.2.2⟩
    · cases hs
  | arrive c sentTime memory allocates =>
    change (if c ∈ s.network ∧ c.channelID = l.channelID then _ else _) = some t at hs
    split at hs
    · obtain ⟨m, -, hs⟩ := Option.bind_eq_some_iff.mp hs
      obtain ⟨r, -, rfl⟩ := Option.map_eq_some_iff.mp hs
      exact h
    · cases hs
  | other m sentTime memory allocates =>
    change (if l.concerns m = true then _ else _) = some t at hs
    split at hs
    · cases hs
    · obtain ⟨r, -, rfl⟩ := Option.map_eq_some_iff.mp hs
      exact h
  | receive =>
    obtain ⟨r, -, rfl⟩ := Option.map_eq_some_iff.mp hs
    exact h
  | receiver p =>
    obtain rfl : _ = t := Option.some.inj hs
    exact h

/-- The count never goes below the data that is on its way, is exactly this data while
the sender has its channels, and is never more than a window. -/
theorem dataInTransit_exact {s₀ : Exchange} {as : List Act} (h₀ : (exchange l).start s₀)
    (hr : (exchange l).run s₀ as = some s) :
    carried s.sender.sentReliableCommands ≤ s.sender.reliableDataInTransit ∧
      (s.sender.channelCount ≠ 0 →
        s.sender.reliableDataInTransit = carried s.sender.sentReliableCommands) ∧
      s.sender.reliableDataInTransit ≤ protocolMaximumWindowSize := by
  have hstart : Metered s₀.sender := by
    obtain ⟨state, mtu, channelCount, hs⟩ := h₀.sender
    have hmtu := h₀.mtu.2
    rw [hs] at hmtu ⊢
    exact ⟨Nat.zero_le _, fun _ => rfl, Nat.zero_le _, hmtu, Nat.le_refl _, Nat.le_refl _⟩
  have h := Machine.run_invariant (I := fun s => Metered s.sender)
    (fun s a t h hs => metered_step h hs) hstart hr
  exact ⟨h.enough, h.exact, h.limit⟩

theorem dataInTransit_exact_onePacket :
    ∃ s, (exchange .single).run connected (onePacket.take 2) = some s ∧
      carried s.sender.sentReliableCommands = 3 ∧ s.sender.reliableDataInTransit = 3 :=
  ⟨_, rfl, by decide +kernel, ((dataInTransit_exact connected_fresh
    (show (exchange .single).run connected (onePacket.take 2) = some _ from rfl)).2.1
    (by decide +kernel)).trans (by decide +kernel)⟩

end Exchange
end Transport
