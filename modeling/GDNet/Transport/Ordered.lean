import GDNet.Transport.Exchange

/-!
# In order, once each

The receiver's half of an exchange.  In every run in which the commands of the
channel arrive timely, what comes out of it are the first packets of the plan, each
once, in order and with their data, however the network delays, repeats, reorders
and loses commands, and however often the numbers wrap.
-/

namespace Transport
open ENet (PeerState Packet ProtocolCommand)
open Transition

/-! ## Turns of the receiver -/

theorem Receives.congr {done todo : List Parcel} {c c' : Channel} (h : Receives done todo c)
    (hn : c'.incomingReliableSequenceNumber = c.incomingReliableSequenceNumber)
    (hl : c'.incomingReliableCommands = c.incomingReliableCommands) : Receives done todo c' := by
  refine ⟨hn.trans h.number, ?_, ?_⟩
  · rw [hl]
    exact h.waits
  · rw [hl]
    exact h.idle

/-- Every channel stays tidy. -/
theorem turn_tidy {p : Inbound} {sentTime : Option UInt16} {m : Message}
    {memory : Option (Nat → UInt8)} {allocates : Bool} {t : Turned}
    (ht : handleIncomingCommand p sentTime m memory allocates = some t)
    (h : ∀ j, (p.channels j).Tidy j) (j : Nat) : (t.peer.channels j).Tidy j := by
  obtain ⟨r, hs, hb⟩ := handleIncomingCommand_step ht
  by_cases hj : j = m.protocol.channelID.toNat
  · subst hj
    rw [hb.channel_self]
    exact (hs.tidy (h _)).1
  · rw [hb.channel_of_ne hj]
    exact h j

/-- A command that does not concern the channel. -/
theorem turn_other {l : Link} {p : Inbound} {sentTime : Option UInt16} {m : Message}
    {memory : Option (Nat → UInt8)} {allocates : Bool} {t : Turned}
    (ht : handleIncomingCommand p sentTime m memory allocates = some t)
    (h : ∀ j, (p.channels j).Tidy j) (hm : ¬l.concerns m = true) :
    (t.peer.channels l.index).incomingReliableSequenceNumber =
        (p.channels l.index).incomingReliableSequenceNumber ∧
      (t.peer.channels l.index).incomingReliableCommands =
        (p.channels l.index).incomingReliableCommands ∧
      logged l.index t.peer.dispatchedCommands = logged l.index p.dispatchedCommands := by
  obtain ⟨r, hs, hb⟩ := handleIncomingCommand_step ht
  have hout := (hs.tidy (h _)).2
  rw [hb.dispatchedCommands, logged_append]
  by_cases hi : m.protocol.channelID = l.channelID
  · have hk : isReliable m.protocol.command = false := by
      rw [Link.concerns, hi, beq_self_eq_true, Bool.true_and, Bool.or_eq_true, not_or] at hm
      simpa using hm.1
    have hindex : l.index = m.protocol.channelID.toNat := (congrArg UInt8.toNat hi).symm
    rw [hindex, hb.channel_self]
    obtain ⟨hnumber, hlist⟩ := hs.unreliable hk
    have hnone : logged m.protocol.channelID.toNat r.2 = [] :=
      logged_nil fun e he _ => (hout e he).elim (fun hb => hb.2.trans hk) fun hb => hb.2
    refine ⟨hnumber, hlist, ?_⟩
    rw [hnone, List.append_nil]
  · have hne : l.index ≠ m.protocol.channelID.toNat := fun he => hi (UInt8.toNat_inj.mp he.symm)
    have hnone : logged l.index r.2 = [] :=
      logged_nil fun e he hch => (hout e he).elim (fun hb => absurd (hch.symm.trans hb.1) hne)
        fun hb => absurd (hch.symm.trans hb.1) hne
    rw [hb.channel_of_ne hne, hnone, List.append_nil]
    exact ⟨rfl, rfl, rfl⟩

/-! ## Acknowledgements -/

theorem queueIncoming_acknowledgements {p p' : Inbound} {h : CommandHeader} {unreliable : UInt16}
    {flags : UInt32} {fragmentCount : Nat} {memory : Option (List UInt8)}
    (hq : peerQueueIncomingCommand p h unreliable flags fragmentCount memory = .queued p') :
    p'.acknowledgements = p.acknowledgements := by
  have hdiscard : ∀ {n}, discardCommand n ≠ .queued p' := by
    intro n hd
    unfold discardCommand at hd
    split at hd <;> cases hd
  unfold peerQueueIncomingCommand at hq
  simp only at hq
  split at hq
  · exact absurd hq hdiscard
  · split at hq
    · exact absurd hq hdiscard
    · split at hq
      · exact absurd hq hdiscard
      · split at hq
        · cases hq
        · split at hq
          · cases hq
          · split at hq
            · cases hq
            · cases hq
              rfl

theorem receive_acknowledgements (p : Inbound) (channelID : UInt8) (a : Arrival)
    (memory : Option (Nat → UInt8)) :
    (receive p channelID a memory).peer.acknowledgements = p.acknowledgements := by
  unfold receive
  split
  · unfold protocolHandleSendFragment
    simp only
    split
    · rfl
    · split
      · rfl
      · split
        · rfl
        · split
          · split
            · rfl
            · split <;> rfl
          · split
            · rfl
            · rfl
            · next p' hq =>
              show p'.acknowledgements = p.acknowledgements
              exact queueIncoming_acknowledgements hq
  · unfold protocolHandleSendReliable handleSend
    split
    · rfl
    · unfold Queued.handled
      split
      · rfl
      · rfl
      · next hq => exact queueIncoming_acknowledgements hq

/-- A handler without an error has a channel. -/
theorem receive_accepts {p : Inbound} {channelID : UInt8} {a : Arrival}
    {memory : Option (Nat → UInt8)} (h : (receive p channelID a memory).error = false) :
    channelID.toNat < p.channelCount := by
  have hrefused : ∀ data, ¬refused p channelID data = true → channelID.toNat < p.channelCount := by
    intro data hr
    rw [refused, decide_eq_true_eq, not_or, Nat.not_le] at hr
    exact hr.1
  unfold receive at h
  split at h
  · unfold protocolHandleSendFragment at h
    simp only at h
    split at h
    · cases h
    · next hr => exact hrefused _ hr
  · unfold protocolHandleSendReliable handleSend at h
    split at h
    · cases h
    · next hr => exact hrefused _ hr

/-- A number seven or eight windows ahead is in the two windows that are not
acknowledged. -/
theorem window_ahead {R n : Nat} (hlo : R / 4096 + 7 ≤ n / 4096) (hhi : n / 4096 ≤ R / 4096 + 8) :
    reliableWindow (UInt16.ofNat n) (UInt16.ofNat R) ≥
        (UInt16.ofNat R).toNat / reliableWindowSize + freeReliableWindows - 1 ∧
      reliableWindow (UInt16.ofNat n) (UInt16.ofNat R) ≤
        (UInt16.ofNat R).toNat / reliableWindowSize + freeReliableWindows := by
  unfold reliableWindow reliableWindowSize reliableWindows freeReliableWindows
  simp only [UInt16.lt_iff_toNat_lt, toNat_ofNat]
  split <;> omega

namespace Exchange

theorem queuedAcks_same {p q : Inbound} {n : Nat} {x : Acknowledgement × Nat}
    (h : q.acknowledgements = p.acknowledgements) : x ∉ queuedAcks p q n := by
  rw [queuedAcks, h, List.drop_length]
  exact List.not_mem_nil

theorem queuedAcks_congr {p q r : Inbound} {n : Nat}
    (h : q.acknowledgements = p.acknowledgements) : queuedAcks p r n = queuedAcks q r n := by
  rw [queuedAcks, queuedAcks, h]

/-- What is acknowledged is the command, if it is not in the two windows. -/
theorem mem_queuedAcks {q : Inbound} {header : CommandHeader} {time : UInt16} {allocates : Bool}
    {n : Nat} {x : Acknowledgement × Nat}
    (hx : x ∈ queuedAcks q (peerQueueAcknowledgement q header time allocates) n) :
    x = (⟨header.command, header.channelID, header.reliableSequenceNumber, time⟩, n) ∧
      ¬(header.channelID.toNat < q.channelCount ∧
        reliableWindow header.reliableSequenceNumber
            (q.channels header.channelID.toNat).incomingReliableSequenceNumber ≥
          (q.channels header.channelID.toNat).incomingReliableSequenceNumber.toNat /
            reliableWindowSize + freeReliableWindows - 1 ∧
        reliableWindow header.reliableSequenceNumber
            (q.channels header.channelID.toNat).incomingReliableSequenceNumber ≤
          (q.channels header.channelID.toNat).incomingReliableSequenceNumber.toNat /
            reliableWindowSize + freeReliableWindows) := by
  unfold peerQueueAcknowledgement at hx
  simp only at hx
  split at hx
  · exact absurd hx (queuedAcks_same rfl)
  · next hw =>
    split at hx
    · exact absurd hx (queuedAcks_same rfl)
    · rw [queuedAcks, List.drop_left] at hx
      exact ⟨List.mem_singleton.mp hx, hw⟩

end Exchange

theorem numbered_mem {n s : Nat} {q : Parcel} {ps : List Parcel} (h : (s, q) ∈ numbered n ps) :
    q ∈ ps := by
  induction ps generalizing n with
  | nil => cases h
  | cons p ps ih =>
    rcases List.mem_cons.mp h with he | h
    · cases he
      exact List.mem_cons_self
    · exact List.mem_cons_of_mem p (ih h)

theorem peerReceive_cases {p : Inbound} {r : Inbound × Packet × UInt8}
    (h : peerReceive p = some r) :
    ∃ e es, p.dispatchedCommands = e :: es ∧
      r.1 = { p with
        dispatchedCommands := es
        totalWaitingData := p.totalWaitingData - e.packet.dataLength } := by
  unfold peerReceive at h
  split at h
  · cases h
  · next e es hes =>
    cases h
    exact ⟨e, es, hes, rfl⟩

/-! ## What the receiver has heard -/

namespace Exchange

variable {l : Link} {s t : Exchange} {done todo : List Parcel}

/-- What came out are the packets `done`, and the channel waits for `todo`. -/
structure Hears (l : Link) (s : Exchange) (done todo : List Parcel) : Prop where
  split : s.plan = done ++ todo
  receives : Receives done todo (s.receiver.channels l.index)
  tidy : ∀ j, (s.receiver.channels j).Tidy j
  delivered : s.delivered l = done.map fun q => q.data

/-- What has arrived of the plan stays there. -/
def Onward (l : Link) (s t : Exchange) (done done' : List Parcel) : Prop :=
  ∀ n q j, (n, q) ∈ numbered 0 s.plan → j < q.count →
    Arrived (total done) (s.receiver.channels l.index).incomingReliableCommands n j →
    Arrived (total done') (t.receiver.channels l.index).incomingReliableCommands n j

theorem Hears.position (h : Hears l s done todo) : s.position l = total done := by
  rw [Exchange.position, h.delivered, List.length_map, h.split, List.take_left]

theorem Hears.fresh (h : Fresh l s) : Hears l s [] [] := by
  refine ⟨h.plan, ?_, fun j => ?_, ?_⟩
  · rw [h.receiver]
    exact .start []
  · rw [h.receiver]
    refine ⟨fun k e he => ?_, fun k e he => ?_⟩
    all_goals
      unfold Channel.commands at he
      split at he <;> cases he
  · rw [Exchange.delivered, h.handed, h.dispatched]
    rfl

/-- A step that leaves the receiver alone. -/
theorem Hears.withSender (h : Hears l s done todo) (ps : List Parcel)
    (hp : t.plan = s.plan ++ ps) (hr : t.receiver = s.receiver) (hd : t.handed = s.handed) :
    Hears l t done (todo ++ ps) ∧ Onward l s t done done := by
  refine ⟨⟨?_, ?_, ?_, ?_⟩, ?_⟩
  · rw [hp, h.split, List.append_assoc]
  · rw [hr]
    exact h.receives.more ps
  · rw [hr]
    exact h.tidy
  · rw [Exchange.delivered, hr, hd]
    exact h.delivered
  · intro n q j _ _ ha
    rw [hr]
    exact ha

/-- A step that leaves the reliable half of the channel alone. -/
theorem Hears.aside (h : Hears l s done todo) (hp : t.plan = s.plan)
    (ht : ∀ j, (t.receiver.channels j).Tidy j)
    (hn : (t.receiver.channels l.index).incomingReliableSequenceNumber =
      (s.receiver.channels l.index).incomingReliableSequenceNumber)
    (hl : (t.receiver.channels l.index).incomingReliableCommands =
      (s.receiver.channels l.index).incomingReliableCommands)
    (hd : t.delivered l = s.delivered l) :
    Hears l t done todo ∧ Onward l s t done done := by
  refine ⟨⟨hp.trans h.split, h.receives.congr hn hl, ht, hd.trans h.delivered⟩, ?_⟩
  intro n q j _ _ ha
  rw [hl]
  exact ha

/-- The command has arrived, and it is in the windows that are acknowledged. -/
def Taken (R : Nat) (cs : List IncomingCommand) (n j : Nat) : Prop :=
  Arrived R cs n j ∧ (n + j) / 4096 ≤ R / 4096 + 6

/-- A command of the channel arrives. -/
theorem Hears.arrive (h : Hears l s done todo) (hs : Posted l s) {c : Outgoing} {a : Arrival}
    (hc : Planned s.plan l.channelID c a) {m : Message} (hm : c.wire = some m)
    {sentTime : Option UInt16} {memory : Option (Nat → UInt8)} {allocates : Bool} {r : Turned}
    (hr : handleIncomingCommand s.receiver sentTime m memory allocates = some r)
    (htime : Timely (total done) a) (hp : t.plan = s.plan) (hd : t.handed = s.handed)
    (ht : t.receiver = r.peer) :
    ∃ mid rest, Hears l t (done ++ mid) rest ∧ Onward l s t done (done ++ mid) ∧
      (s.receiver.state = .connected → a.number / 4096 ≤ total done / 4096 + 8 →
        ∀ x ∈ queuedAcks s.receiver r.peer a.number, x.1.channelID = l.channelID ∧
          x.1.reliableSequenceNumber = UInt16.ofNat a.number ∧ x.2 = a.number ∧
          Taken (total (done ++ mid))
            (t.receiver.channels l.index).incomingReliableCommands a.start a.index) := by
  obtain ⟨m', hm', hch, hnumber, -, -, hhandle⟩ := hc.wire (hs.sendable _ (numbered_mem hc.1))
  obtain rfl : m' = m := Option.some.inj (hm'.symm.trans hm)
  have hnum := hc.1
  rw [h.split] at hnum
  obtain ⟨mid, rest, r', htakes, hb, hack⟩ :=
    receive_outcome h.receives (h.tidy _) hnum htime memory
  obtain ⟨handled, hh, hpeer⟩ := handleIncomingCommand_cases hr
  obtain rfl : receive s.receiver l.channelID a memory = handled :=
    Option.some.inj ((hhandle _ _).symm.trans hh)
  have hb' : s.receiver.Became r.peer l.index r' := by
    rcases hpeer with he | ⟨-, time, -, -, he⟩
    · rw [he]
      exact hb
    · rw [he]
      exact queueAcknowledgement_became hb _ time allocates
  refine ⟨mid, rest, ⟨?_, ?_, ?_, ?_⟩, ?_, ?_⟩
  · rw [hp, h.split, htakes.split, List.append_assoc]
  · rw [ht, hb'.channel_self]
    exact htakes.receives
  · rw [ht]
    exact turn_tidy hr h.tidy
  · have hold := h.delivered
    have hlog : logged l.index r'.2 = mid.map fun q => q.data := htakes.logged
    unfold Exchange.delivered at hold ⊢
    rw [hd, ht, hb'.dispatchedCommands, logged_append, ← List.append_assoc, hold, hlog,
      List.map_append]
  · intro n q j hmem hj ha
    rw [h.split] at hmem
    rw [ht, hb'.channel_self]
    exact htakes.arrived n q j hmem hj ha
  · intro hstate hnear x hx
    have hsame := receive_acknowledgements s.receiver l.channelID a memory
    rcases hpeer with he | ⟨herror, time, -, -, he⟩
    · rw [he] at hx
      exact absurd hx (queuedAcks_same hsame)
    · rw [he, queuedAcks_congr hsame] at hx
      obtain ⟨hx, hwindow⟩ := mem_queuedAcks hx
      rw [hx, ht, hb'.channel_self]
      have hcount := receive_accepts herror
      rw [← hb.channelCount] at hcount
      have htotal := total_append done mid
      have hdiv : total done / 4096 ≤ total (done ++ mid) / 4096 := Nat.div_le_div_right (by omega)
      have hcurrent : ∀ {R c}, s.receiver.Became (receive s.receiver l.channelID a memory).peer
          l.index c → c.1.incomingReliableSequenceNumber = UInt16.ofNat R →
          ¬(R / 4096 + 7 ≤ a.number / 4096 ∧ a.number / 4096 ≤ R / 4096 + 8) := by
        rintro R c hc hR ⟨hlo, hhi⟩
        refine hwindow ⟨by rw [hch]; exact hcount, ?_⟩
        rw [hnumber, hch]
        simp only
        rw [show (receive s.receiver l.channelID a memory).peer.channels l.channelID.toNat =
          c.1 from hc.channel_self, hR]
        exact window_ahead hlo hhi
      refine ⟨hch, hnumber, rfl, ?_, ?_⟩
      · rcases hack herror hstate with harr | ⟨hunchanged, hfar⟩
        · exact harr
        · -- Nothing was taken, so the number is seven or eight windows ahead.
          have hle : a.start / 4096 ≤ a.number / 4096 := Nat.div_le_div_right (Nat.le_add_right _ _)
          exact absurd ⟨Nat.le_trans hfar hle, hnear⟩ (hcurrent hunchanged h.receives.number)
      · have hnot := hcurrent hb htakes.receives.number
        show a.number / 4096 ≤ _
        omega

theorem Hears.step (h : Hears l s done todo) (hsend : Posted l s) {a : Act} (htime : timely l s a)
    (hs : Exchange.step l s a = some t) :
    ∃ mid rest, Hears l t (done ++ mid) rest ∧ Onward l s t done (done ++ mid) := by
  have hstill : ∀ {rest}, Hears l t done rest ∧ Onward l s t done done →
      ∃ mid rest, Hears l t (done ++ mid) rest ∧ Onward l s t done (done ++ mid) := by
    intro rest hr
    refine ⟨[], rest, ?_⟩
    rw [List.append_nil]
    exact hr
  cases a with
  | send channelID packet allocates =>
    obtain ⟨p, -, rfl⟩ := Option.map_eq_some_iff.mp hs
    exact hstill (h.withSender _ rfl rfl rfl)
  | control c =>
    change (if c.channelID = 0xFF then _ else _) = some t at hs
    split at hs
    · cases hs
      exact hstill (h.withSender [] (List.append_nil _).symm rfl rfl)
    · cases hs
  | flush batch serviceTime =>
    obtain rfl : _ = t := Option.some.inj hs
    exact hstill (h.withSender [] (List.append_nil _).symm rfl rfl)
  | timeouts serviceTime deliver =>
    obtain rfl : _ = t := Option.some.inj hs
    exact hstill (h.withSender [] (List.append_nil _).symm rfl rfl)
  | reset =>
    obtain rfl : _ = t := Option.some.inj hs
    exact hstill (h.withSender [] (List.append_nil _).symm rfl rfl)
  | resetQueues =>
    obtain rfl : _ = t := Option.some.inj hs
    exact hstill (h.withSender [] (List.append_nil _).symm rfl rfl)
  | acknowledged ack number =>
    change (if (ack, number) ∈ s.acks then _ else _) = some t at hs
    split at hs
    · cases hs
      exact hstill (h.withSender [] (List.append_nil _).symm rfl rfl)
    · cases hs
  | otherAcknowledged number channelID =>
    change (if channelID ≠ l.channelID then _ else _) = some t at hs
    split at hs
    · cases hs
      exact hstill (h.withSender [] (List.append_nil _).symm rfl rfl)
    · cases hs
  | sender p =>
    change (if protocolMinimumMtu ≤ p.mtu ∧ _ then _ else _) = some t at hs
    split at hs
    · cases hs
      exact hstill (h.withSender [] (List.append_nil _).symm rfl rfl)
    · cases hs
  | arrive c sentTime memory allocates =>
    change (if c ∈ s.network ∧ c.channelID = l.channelID then _ else _) = some t at hs
    split at hs
    · next hc =>
      obtain ⟨m, hm, hs⟩ := Option.bind_eq_some_iff.mp hs
      obtain ⟨r, hr, hs⟩ := Option.map_eq_some_iff.mp hs
      obtain ⟨a, ha⟩ := hsend.network c hc.1 hc.2
      change s.position l / 4096 ≤ c.start / 4096 + 9 ∧ c.start < s.position l + 65536 at htime
      rw [h.position, ha.start] at htime
      obtain ⟨mid, rest, hh, ho, -⟩ := h.arrive (t := t) hsend ha hm hr ⟨htime.1, htime.2⟩
        (by rw [← hs]) (by rw [← hs]) (by rw [← hs])
      exact ⟨mid, rest, hh, ho⟩
    · cases hs
  | other m sentTime memory allocates =>
    change (if l.concerns m = true then _ else _) = some t at hs
    split at hs
    · cases hs
    · next hm =>
      obtain ⟨r, hr, rfl⟩ := Option.map_eq_some_iff.mp hs
      obtain ⟨hn, hl, hd⟩ := turn_other hr h.tidy hm
      exact hstill (h.aside rfl (turn_tidy hr h.tidy) hn hl (congrArg (s.handed ++ ·) hd))
  | receive =>
    obtain ⟨r, hr, rfl⟩ := Option.map_eq_some_iff.mp hs
    obtain ⟨e, es, hes, hp⟩ := peerReceive_cases hr
    refine hstill (h.aside rfl ?_ ?_ ?_ ?_)
    · intro j
      rw [hp]
      exact h.tidy j
    · rw [hp]
    · rw [hp]
    · unfold Exchange.delivered
      simp only [hp, hes, List.take_succ_cons, List.take_zero]
      rw [List.append_assoc, ← logged_append, List.singleton_append]
  | receiver p =>
    obtain rfl : _ = t := Option.some.inj hs
    exact hstill (h.aside rfl h.tidy rfl rfl rfl)

/-- Both halves of the invariant, for some point of the plan. -/
def Orderly (l : Link) (s : Exchange) : Prop := Sends l s ∧ ∃ done todo, Hears l s done todo

theorem Orderly.step (h : Orderly l s) {a : Act} (htime : timely l s a)
    (hs : Exchange.step l s a = some t) : Orderly l t := by
  obtain ⟨hsend, done, todo, hh⟩ := h
  obtain ⟨mid, rest, hh', -⟩ := hh.step hsend.1 htime hs
  exact ⟨hsend.step hs, done ++ mid, rest, hh'⟩

/-- What comes out is a beginning of what was accepted. -/
theorem delivered_prefix {s₀ : Exchange} {as : List Act} (h₀ : (exchange l).start s₀)
    (ht : (exchange l).Along (timely l) s₀ as) (hr : (exchange l).run s₀ as = some s) :
    s.delivered l <+: s.plan.map fun q => q.data := by
  obtain ⟨-, done, todo, hh⟩ := Machine.run_preserves (I := Orderly l)
    (fun s a t htime h hs => h.step htime hs) ht
    ⟨⟨.fresh h₀, .inl (.fresh h₀)⟩, [], [], .fresh h₀⟩ hr
  rw [hh.delivered, hh.split, List.map_append]
  exact List.prefix_append _ _

theorem delivered_prefix_onePacket : ∃ s, (exchange .single).run connected onePacket = some s ∧
    s.handed = [[1, 2, 3]] ∧ s.delivered .single <+: s.plan.map fun q => q.data :=
  ⟨_, rfl, by decide +kernel, delivered_prefix connected_fresh
    (show (exchange .single).Along (timely .single) connected onePacket by decide +kernel) rfl⟩

end Exchange
end Transport
