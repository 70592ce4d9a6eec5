import GDNet.Transport.Flight

/-!
# What a sender keeps

`Sound` is the invariant of a channel of a sender: its fresh commands are those that
were numbered last, in order, and the windows of the channel count exactly the
commands that were sent and wait for their acknowledgement.  Every function of
`Outgoing` keeps it.
-/

namespace Transport
open ENet (Packet ProtocolCommand)

def Outgoing.onChannel (i : Nat) (c : Outgoing) : Bool := decide (c.channelID.toNat = i)

def Outgoing.isTried (c : Outgoing) : Bool := decide (1 ≤ c.sendAttempts)

/-- The numbers of the commands of a channel that were sent before. -/
def triedOn (i : Nat) (cs : List Outgoing) : List Nat :=
  (cs.filter fun c => c.onChannel i && c.isTried).map fun c => c.serial

/-- The numbers of those that were not. -/
def freshOn (i : Nat) (cs : List Outgoing) : List Nat :=
  (cs.filter fun c => c.onChannel i && !c.isTried).map fun c => c.serial

section
variable {i : Nat} {c : Outgoing} {cs ds : List Outgoing}

theorem triedOn_append : triedOn i (cs ++ ds) = triedOn i cs ++ triedOn i ds := by
  unfold triedOn
  rw [List.filter_append, List.map_append]

theorem freshOn_append : freshOn i (cs ++ ds) = freshOn i cs ++ freshOn i ds := by
  unfold freshOn
  rw [List.filter_append, List.map_append]

theorem triedOn_cons :
    triedOn i (c :: cs) = if c.onChannel i && c.isTried then c.serial :: triedOn i cs
      else triedOn i cs := by
  unfold triedOn
  rw [List.filter_cons]
  split <;> rfl

theorem freshOn_cons :
    freshOn i (c :: cs) = if c.onChannel i && !c.isTried then c.serial :: freshOn i cs
      else freshOn i cs := by
  unfold freshOn
  rw [List.filter_cons]
  split <;> rfl

theorem freshOn_eq_nil (h : ∀ c ∈ cs, c.isTried = true) : freshOn i cs = [] := by
  unfold freshOn
  rw [List.filter_eq_nil_iff.mpr, List.map_nil]
  intro c hc
  rw [h c hc, Bool.not_true, Bool.and_false]
  exact Bool.false_ne_true

theorem mem_triedOn {n : Nat} :
    n ∈ triedOn i cs ↔ ∃ c ∈ cs, c.channelID.toNat = i ∧ 1 ≤ c.sendAttempts ∧ c.serial = n := by
  unfold triedOn Outgoing.onChannel Outgoing.isTried
  simp only [List.mem_map, List.mem_filter, Bool.and_eq_true, decide_eq_true_eq, and_assoc]

end

/-- The numbers of the commands of a channel. -/
def serialsOn (i : Nat) (cs : List Outgoing) : List Nat :=
  (cs.filter fun c => c.onChannel i).map fun c => c.serial

theorem serialsOn_append (i : Nat) (cs ds : List Outgoing) :
    serialsOn i (cs ++ ds) = serialsOn i cs ++ serialsOn i ds := by
  unfold serialsOn
  rw [List.filter_append, List.map_append]

theorem serialsOn_cons (i : Nat) (c : Outgoing) (cs : List Outgoing) :
    serialsOn i (c :: cs) = if c.onChannel i then c.serial :: serialsOn i cs
      else serialsOn i cs := by
  unfold serialsOn
  rw [List.filter_cons]
  split <;> rfl

theorem triedOn_of_tried {i : Nat} {cs : List Outgoing} (h : ∀ c ∈ cs, c.isTried = true) :
    triedOn i cs = serialsOn i cs := by
  unfold triedOn serialsOn
  rw [List.filter_congr]
  intro c hc
  rw [h c hc, Bool.and_true]

/-- A number is of a command that was sent or of one that was not. -/
theorem mem_serialsOn {i n : Nat} {cs : List Outgoing} :
    n ∈ serialsOn i cs ↔ n ∈ triedOn i cs ∨ n ∈ freshOn i cs := by
  induction cs with
  | nil => simp [serialsOn, triedOn, freshOn]
  | cons c cs ih =>
    rw [serialsOn_cons, triedOn_cons, freshOn_cons]
    cases c.onChannel i <;> cases c.isTried <;>
      simp only [Bool.and_true, Bool.and_false, Bool.not_true, Bool.not_false, Bool.false_eq_true,
        if_true, if_false, List.mem_cons, ih] <;> tauto

theorem mem_serialsOn_of_mem {i : Nat} {c : Outgoing} {cs : List Outgoing} (hc : c ∈ cs)
    (hi : c.channelID.toNat = i) : c.serial ∈ serialsOn i cs :=
  List.mem_map_of_mem (List.mem_filter.mpr ⟨hc, decide_eq_true hi⟩)

/-- The reliable commands of a peer. -/
def Outbound.reliable (p : Outbound) : List Outgoing :=
  p.sentReliableCommands ++ p.outgoingReliableCommands

structure Sound (i base : Nat) (p : Outbound) : Prop where
  channel : i < p.channelCount
  channels : p.channelCount ≤ 255
  numbers : ∀ c ∈ p.reliable, c.channelID.toNat = i →
    c.reliableSequenceNumber = UInt16.ofNat c.serial ∧ c.packet.isSome = true
  sent : ∀ c ∈ p.sentReliableCommands, c.isTried = true
  flight : Flight (p.channels i) base (triedOn i p.reliable)
  fresh : freshOn i p.reliable = List.range' (base + 1) ((p.channels i).serial - base)
  base_le : base ≤ (p.channels i).serial
  counter : (p.channels i).outgoingReliableSequenceNumber = UInt16.ofNat (p.channels i).serial

namespace Sound

variable {i base : Nat} {p p' : Outbound}

theorem start {channelCount mtu : Nat} {state : ENet.PeerState} (h : i < channelCount)
    (hc : channelCount ≤ 255) :
    Sound i 0
      { state := state, mtu := mtu, channelCount := channelCount, channels := fun _ => {} } := by
  refine ⟨h, hc, ?_, ?_, .start, rfl, Nat.le_refl 0, rfl⟩
  · intro c hc
    cases hc
  · intro c hc
    cases hc

/-- The commands may change places, and what they do not say about their number. -/
theorem transfer (h : Sound i base p) (hcount : p'.channelCount = p.channelCount)
    (hch : p'.channels i = p.channels i)
    (hnum : ∀ c ∈ p'.reliable, c.channelID.toNat = i →
      c.reliableSequenceNumber = UInt16.ofNat c.serial ∧ c.packet.isSome = true)
    (hsent : ∀ c ∈ p'.sentReliableCommands, c.isTried = true)
    (htried : (triedOn i p.reliable).Perm (triedOn i p'.reliable))
    (hfresh : freshOn i p'.reliable = freshOn i p.reliable) : Sound i base p' := by
  refine ⟨hcount ▸ h.channel, hcount ▸ h.channels, hnum, hsent, ?_, ?_, ?_, ?_⟩ <;> rw [hch]
  · exact h.flight.perm htried
  · rw [hfresh]
    exact h.fresh
  · exact h.base_le
  · exact h.counter

/-- Nothing else of a peer matters. -/
theorem congr (h : Sound i base p) (hcount : p'.channelCount = p.channelCount)
    (hch : p'.channels i = p.channels i)
    (hs : p'.sentReliableCommands = p.sentReliableCommands)
    (ho : p'.outgoingReliableCommands = p.outgoingReliableCommands) : Sound i base p' := by
  have hr : p'.reliable = p.reliable := by rw [Outbound.reliable, Outbound.reliable, hs, ho]
  refine h.transfer hcount hch ?_ ?_ ?_ ?_
  · rw [hr]
    exact h.numbers
  · rw [hs]
    exact h.sent
  · rw [hr]
  · rw [hr]

/-! ## Queueing -/

theorem ne_control (h : Sound i base p) {c : UInt8} (hc : c.toNat = i) : c ≠ 0xFF := by
  rintro rfl
  have h₁ := h.channel
  have h₂ := h.channels
  change 255 = i at hc
  omega

/-- A reliable command is queued for another channel. -/
theorem queue_other (h : Sound i base p) {q : Outbound} {d : Outgoing}
    (hcount : q.channelCount = p.channelCount) (hch : q.channels i = p.channels i)
    (hs : q.sentReliableCommands = p.sentReliableCommands)
    (ho : q.outgoingReliableCommands = p.outgoingReliableCommands ++ [d])
    (hd : d.channelID.toNat ≠ i) : Sound i base q := by
  have hr : q.reliable = p.reliable ++ [d] := by
    rw [Outbound.reliable, hs, ho, Outbound.reliable, List.append_assoc]
  have hoff : d.onChannel i = false := decide_eq_false hd
  refine h.transfer hcount hch ?_ ?_ ?_ ?_
  · intro c hc hi
    rw [hr, List.mem_append, List.mem_singleton] at hc
    rcases hc with hc | rfl
    · exact h.numbers c hc hi
    · exact absurd hi hd
  · rw [hs]
    exact h.sent
  · rw [hr, triedOn_append, triedOn_cons, hoff]
    simp [triedOn]
  · rw [hr, freshOn_append, freshOn_cons, hoff]
    simp [freshOn]

/-- The next reliable command of the channel is queued. -/
theorem queue_self (h : Sound i base p) {q : Outbound} {d : Outgoing}
    (hcount : q.channelCount = p.channelCount) (hch : q.channels i = (p.channels i).next)
    (hs : q.sentReliableCommands = p.sentReliableCommands)
    (ho : q.outgoingReliableCommands = p.outgoingReliableCommands ++ [d])
    (hi : d.channelID.toNat = i) (hz : d.sendAttempts = 0) (hp : d.packet.isSome = true)
    (hn : d.reliableSequenceNumber = (p.channels i).next.outgoingReliableSequenceNumber)
    (hd : d.serial = (p.channels i).next.serial) : Sound i base q := by
  have hr : q.reliable = p.reliable ++ [d] := by
    rw [Outbound.reliable, hs, ho, Outbound.reliable, List.append_assoc]
  have hon : d.onChannel i = true := decide_eq_true hi
  have hfresh : d.isTried = false := decide_eq_false (by omega)
  have hbase := h.base_le
  have hcounter : (p.channels i).next.outgoingReliableSequenceNumber =
      UInt16.ofNat ((p.channels i).serial + 1) := by
    show (p.channels i).outgoingReliableSequenceNumber + 1 = _
    rw [h.counter, ← UInt16.ofNat_one, ← UInt16.ofNat_add]
  refine ⟨hcount ▸ h.channel, hcount ▸ h.channels, ?_, ?_, ?_, ?_, ?_, ?_⟩
  · intro e he hei
    rw [hr, List.mem_append, List.mem_singleton] at he
    rcases he with he | rfl
    · exact h.numbers e he hei
    · exact ⟨by rw [hn, hd, hcounter]; rfl, hp⟩
  · rw [hs]
    exact h.sent
  · rw [hr, hch, triedOn_append, triedOn_cons, hfresh, Bool.and_false]
    simp only [Bool.false_eq_true, if_false]
    rw [show triedOn i [] = [] from rfl, List.append_nil]
    exact h.flight.channel rfl rfl
  · rw [hr, hch, freshOn_append, freshOn_cons, hon, hfresh, h.fresh]
    simp only [Bool.not_false, Bool.and_true, if_true]
    show _ ++ [d.serial] = List.range' (base + 1) ((p.channels i).serial + 1 - base)
    rw [Nat.succ_sub hbase, List.range'_concat, hd]
    show _ ++ [(p.channels i).serial + 1] = _
    congr 2
    omega
  · rw [hch]
    exact Nat.le_succ_of_le hbase
  · rw [hch]
    exact hcounter

/-- The unreliable number of the channel changes. -/
theorem renumber (h : Sound i base p) {q : Outbound} (n : UInt16)
    (hcount : q.channelCount = p.channelCount)
    (hch : q.channels i = { p.channels i with outgoingUnreliableSequenceNumber := n })
    (hs : q.sentReliableCommands = p.sentReliableCommands)
    (ho : q.outgoingReliableCommands = p.outgoingReliableCommands) : Sound i base q := by
  have hrel : q.reliable = p.reliable := by rw [Outbound.reliable, Outbound.reliable, hs, ho]
  refine ⟨hcount ▸ h.channel, hcount ▸ h.channels, ?_, ?_, ?_, ?_, ?_, ?_⟩
  · rw [hrel]
    exact h.numbers
  · rw [hs]
    exact h.sent
  · rw [hrel, hch]
    exact h.flight.channel rfl rfl
  · rw [hrel, hch]
    exact h.fresh
  · rw [hch]
    exact h.base_le
  · rw [hch]
    exact h.counter

theorem setup (h : Sound i base p) (c : Outgoing)
    (hp : c.channelID.toNat = i → c.acknowledge = true → c.packet.isSome = true) :
    Sound i base (peerSetupOutgoingCommand p c) := by
  unfold peerSetupOutgoingCommand
  by_cases hctl : c.channelID = 0xFF
  · simp only [if_pos hctl]
    split
    · exact h.queue_other rfl rfl rfl rfl fun he => h.ne_control he hctl
    · exact h.congr rfl rfl rfl rfl
  · simp only [if_neg hctl]
    by_cases hack : c.acknowledge = true
    · simp only [if_pos hack]
      by_cases hi : c.channelID.toNat = i
      · subst hi
        exact h.queue_self rfl (Function.update_self ..) rfl rfl rfl rfl (hp rfl hack) rfl rfl
      · exact h.queue_other rfl (Function.update_of_ne (Ne.symm hi) _ _) rfl rfl hi
    · simp only [if_neg hack]
      split
      · exact h.congr rfl rfl rfl rfl
      · by_cases hi : c.channelID.toNat = i
        · subst hi
          exact h.renumber _ rfl (Function.update_self ..) rfl rfl
        · exact h.congr rfl (Function.update_of_ne (Ne.symm hi) _ _) rfl rfl

/-! ## Putting a datagram together -/

end Sound

/-- What a command says, whenever and however often it is sent. -/
def Outgoing.message (c : Outgoing) : Outgoing :=
  { c with sendAttempts := 0, sentTime := 0, roundTripTimeout := 0, roundTripTimeoutLimit := 0 }

theorem message_attempt (c : Outgoing) (p : Outbound) (t : UInt32) :
    (c.attempt p t).message = c.message := rfl

/-- The peer with these commands left to be sent. -/
def Outbound.queue (p : Outbound) (cs : List Outgoing) : Outbound :=
  { p with outgoingReliableCommands := cs }

/-- The number of a command says which window it is in. -/
theorem window_of_number {c : Outgoing} {n : Nat} (h : c.reliableSequenceNumber = UInt16.ofNat n) :
    c.window = n / 4096 % 16 ∧ c.reliableSequenceNumber.toNat % 4096 = n % 4096 := by
  have hn : c.reliableSequenceNumber.toNat = n % 65536 := by
    rw [h]
    exact UInt16.toNat_ofNat'
  unfold Outgoing.window reliableWindowSize
  rw [hn]
  omega

theorem mask_of_not_blocked {ch : OutChannel} {c : Outgoing} {n : Nat}
    (hn : c.reliableSequenceNumber = UInt16.ofNat n) (hfresh : c.isTried = false)
    (h : windowBlocked ch c = false) (hz : n % 4096 = 0) :
    ch.usedReliableWindows &&& windowMask (n / 4096 % 16) = 0 := by
  obtain ⟨hw, hm⟩ := window_of_number hn
  have hattempts : c.sendAttempts < 1 := by
    have := of_decide_eq_false hfresh
    omega
  rw [windowBlocked, decide_eq_false_iff_not, not_and, not_and] at h
  have := h hattempts (hm.trans hz)
  rw [not_or, not_not, hw] at this
  exact this.2

theorem not_full_of_not_blocked {ch : OutChannel} {c : Outgoing} {n : Nat}
    (hn : c.reliableSequenceNumber = UInt16.ofNat (n + 1)) (hfresh : c.isTried = false)
    (h : windowBlocked ch c = false) (hz : (n + 1) % 4096 = 0) :
    ch.reliableWindows (n / 4096 % 16) < 4096 := by
  obtain ⟨hw, hm⟩ := window_of_number hn
  have hattempts : c.sendAttempts < 1 := by
    have := of_decide_eq_false hfresh
    omega
  rw [windowBlocked, decide_eq_false_iff_not, not_and, not_and] at h
  have hprev := h hattempts (hm.trans hz)
  rw [not_or, Nat.not_le, hw] at hprev
  have hsame : ((n + 1) / 4096 % 16 + reliableWindows - 1) % reliableWindows = n / 4096 % 16 := by
    unfold reliableWindows
    omega
  rw [hsame] at hprev
  exact hprev.1

theorem send_channels (s : Sending) (c : Outgoing) (t : UInt32) :
    (s.send c t).peer.channels =
      if c.channelID.toNat < s.peer.channelCount ∧ c.sendAttempts < 1 then
        Function.update s.peer.channels c.channelID.toNat
          ((s.peer.channels c.channelID.toNat).use c.window)
      else s.peer.channels := by
  unfold Sending.send
  simp only
  split <;> rfl

theorem send_sent (s : Sending) (c : Outgoing) (t : UInt32) :
    (s.send c t).peer.sentReliableCommands =
      s.peer.sentReliableCommands ++ [c.attempt s.peer t] := by
  unfold Sending.send
  simp only
  split <;> rfl

theorem send_channelCount (s : Sending) (c : Outgoing) (t : UInt32) :
    (s.send c t).peer.channelCount = s.peer.channelCount := by
  unfold Sending.send
  simp only
  split <;> rfl

theorem attempt_isTried (c : Outgoing) (p : Outbound) (t : UInt32) :
    (c.attempt p t).isTried = true := decide_eq_true (Nat.le_add_left 1 c.sendAttempts)

/-- How the last number sent moves: not at all or to the next, and into a new window
only when a number of the window before is not on its way. -/
inductive Advance (i base : Nat) (p : Outbound) : Nat → Prop
  | stay : Advance i base p base
  | next (hmem : base + 1 ∈ serialsOn i p.reliable)
      (hgap : (base + 1) % 4096 = 0 →
        ∃ m, m / 4096 + 1 = (base + 1) / 4096 ∧ m ∉ triedOn i p.reliable) :
      Advance i base p (base + 1)

/-- One command is sent. -/
theorem Sound.send {i base : Nat} {s : Sending} {c : Outgoing} {kept cs : List Outgoing}
    (h : Sound i base (s.peer.queue (kept ++ c :: cs))) (t : UInt32)
    (hfirst : c.onChannel i = true → c.isTried = false →
      freshOn i kept = [] ∧ windowBlocked (s.peer.channels i) c = false) :
    ∃ base', Advance i base (s.peer.queue (kept ++ c :: cs)) base' ∧
      Sound i base' ((s.send c t).peer.queue (kept ++ cs)) := by
  have hold : (s.peer.queue (kept ++ c :: cs)).reliable =
      s.peer.sentReliableCommands ++ kept ++ c :: cs := (List.append_assoc ..).symm
  have hnew : ((s.send c t).peer.queue (kept ++ cs)).reliable =
      s.peer.sentReliableCommands ++ [c.attempt s.peer t] ++ (kept ++ cs) := by
    show (s.send c t).peer.sentReliableCommands ++ (kept ++ cs) = _
    rw [send_sent]
  have hcount : ((s.send c t).peer.queue (kept ++ cs)).channelCount = s.peer.channelCount :=
    send_channelCount s c t
  have hmem : c ∈ (s.peer.queue (kept ++ c :: cs)).reliable := by
    rw [hold]
    exact List.mem_append_right _ List.mem_cons_self
  have hnumbers : ∀ d ∈ ((s.send c t).peer.queue (kept ++ cs)).reliable, d.channelID.toNat = i →
      d.reliableSequenceNumber = UInt16.ofNat d.serial ∧ d.packet.isSome = true := by
    intro d hd hi
    rw [hnew] at hd
    simp only [List.mem_append, List.mem_singleton] at hd
    rcases hd with (hd | rfl) | hd
    · refine h.numbers d ?_ hi
      rw [hold]
      exact List.mem_append_left _ (List.mem_append_left _ hd)
    · exact h.numbers c hmem hi
    · refine h.numbers d ?_ hi
      rw [hold]
      simp only [List.mem_append, List.mem_cons]
      tauto
  have hsent : ∀ d ∈ ((s.send c t).peer.queue (kept ++ cs)).sentReliableCommands,
      d.isTried = true := by
    intro d hd
    change d ∈ (s.send c t).peer.sentReliableCommands at hd
    rw [send_sent, List.mem_append, List.mem_singleton] at hd
    rcases hd with hd | rfl
    · exact h.sent d hd
    · exact attempt_isTried c s.peer t
  have hserial : (c.attempt s.peer t).serial = c.serial := rfl
  have hon' : (c.attempt s.peer t).onChannel i = c.onChannel i := rfl
  have htried' := attempt_isTried c s.peer t
  by_cases hi : c.onChannel i = true
  · have hci := of_decide_eq_true hi
    cases htried : c.isTried with
    | true =>
      have hattempts := of_decide_eq_true htried
      refine ⟨base, .stay, h.transfer hcount ?_ hnumbers hsent ?_ ?_⟩
      · show (s.send c t).peer.channels i = s.peer.channels i
        rw [send_channels, if_neg (by omega)]
      · rw [hold, hnew]
        simp only [triedOn_append, triedOn_cons, hi, htried, hon', htried', hserial, Bool.and_self,
          if_true, List.append_assoc]
        rw [show triedOn i [] = [] from rfl]
        refine List.Perm.append_left _ ?_
        exact List.perm_middle
      · rw [hold, hnew]
        simp only [freshOn_append, freshOn_cons, hi, htried, hon', htried', Bool.not_true,
          Bool.and_false, Bool.false_eq_true, if_false, List.append_assoc]
        rw [show freshOn i [] = [] from rfl]
        rfl
    | false =>
      obtain ⟨hkept, hblocked⟩ := hfirst hi htried
      have hattempts : c.sendAttempts < 1 := by
        have := of_decide_eq_false htried
        omega
      have hnone : freshOn i s.peer.sentReliableCommands = [] := freshOn_eq_nil h.sent
      have hfresh := h.fresh
      rw [hold, freshOn_append, freshOn_append, freshOn_cons, hkept, hi, htried,
        hnone] at hfresh
      simp only [List.nil_append, Bool.not_false, Bool.and_true, if_true] at hfresh
      have hbase := h.base_le
      -- The fresh numbers begin behind the last one sent, so this is the next.
      obtain ⟨hc, hcs, hlt⟩ : c.serial = base + 1 ∧
          freshOn i cs = List.range' (base + 1 + 1) ((s.peer.channels i).serial - (base + 1)) ∧
          base + 1 ≤ (s.peer.channels i).serial := by
        change c.serial :: freshOn i cs =
          List.range' (base + 1) ((s.peer.channels i).serial - base) at hfresh
        change base ≤ (s.peer.channels i).serial at hbase
        cases hn : (s.peer.channels i).serial - base with
        | zero =>
          rw [hn] at hfresh
          cases hfresh
        | succ n =>
          rw [hn, List.range'_succ, List.cons.injEq] at hfresh
          refine ⟨hfresh.1, ?_, by omega⟩
          rw [hfresh.2, show (s.peer.channels i).serial - (base + 1) = n by omega]
      have hnum := (h.numbers c hmem hci).1
      rw [hc] at hnum
      have hwindow := (window_of_number hnum).1
      have hchannel : (s.send c t).peer.channels i =
          (s.peer.channels i).use ((base + 1) / 4096 % 16) := by
        have hlt : c.channelID.toNat < s.peer.channelCount := by
          rw [hci]
          exact h.channel
        rw [send_channels, if_pos ⟨hlt, hattempts⟩, hci, Function.update_self, hwindow]
      have hadvance : Advance i base (s.peer.queue (kept ++ c :: cs)) (base + 1) := by
        refine .next ?_ fun hz => ?_
        · rw [← hc]
          exact mem_serialsOn_of_mem hmem hci
        · have hfree := not_full_of_not_blocked hnum htried hblocked hz
          obtain ⟨m, hm, hnot⟩ := h.flight.gap hfree
          exact ⟨m, by omega, hnot⟩
      refine ⟨base + 1, hadvance, hcount ▸ h.channel, hcount ▸ h.channels, hnumbers, hsent,
        ?_, ?_, ?_, ?_⟩
      · show Flight ((s.send c t).peer.channels i) _ _
        rw [hchannel]
        refine (h.flight.use (mask_of_not_blocked hnum htried hblocked)).perm ?_
        rw [hold, hnew]
        simp only [triedOn_append, triedOn_cons, hi, htried, hon', htried', hserial, hc,
          Bool.and_self, Bool.and_false, Bool.false_eq_true, if_true, if_false, List.append_assoc]
        rw [show triedOn i [] = [] from rfl]
        exact List.perm_middle.symm
      · show _ = List.range' (base + 1 + 1) (((s.send c t).peer.channels i).serial - (base + 1))
        rw [hchannel, hnew]
        simp only [freshOn_append, freshOn_cons, hkept, hon', htried', hnone,
          Bool.not_true, Bool.and_false, Bool.false_eq_true, if_false, List.nil_append]
        rw [show freshOn i [] = [] from rfl]
        exact hcs
      · show base + 1 ≤ ((s.send c t).peer.channels i).serial
        rw [hchannel]
        exact hlt
      · show ((s.send c t).peer.channels i).outgoingReliableSequenceNumber =
          UInt16.ofNat ((s.send c t).peer.channels i).serial
        rw [hchannel]
        exact h.counter
  · have hoff : c.onChannel i = false := by simpa using hi
    refine ⟨base, .stay, h.transfer hcount ?_ hnumbers hsent ?_ ?_⟩
    · show (s.send c t).peer.channels i = s.peer.channels i
      have hne : c.channelID.toNat ≠ i := of_decide_eq_false hoff
      rw [send_channels]
      split
      · exact Function.update_of_ne (Ne.symm hne) _ _
      · rfl
    · rw [hold, hnew]
      simp only [triedOn_append, triedOn_cons, hoff, hon', Bool.false_and, Bool.false_eq_true,
        if_false, List.append_assoc]
      rw [show triedOn i [] = [] from rfl]
      exact List.Perm.refl _
    · rw [hold, hnew]
      simp only [freshOn_append, freshOn_cons, hoff, hon', Bool.false_and, Bool.false_eq_true,
        if_false, List.append_assoc]
      rw [show freshOn i [] = [] from rfl]
      rfl

/-- The numbers up to `base` that are not held are in the windows up to `w`. -/
def Gap (i w base : Nat) (p : Outbound) : Prop :=
  ∀ m, 0 < m → m ≤ base → m ∉ serialsOn i p.reliable → m / 4096 ≤ w

/-- What was sent last is at most one window ahead of what is no longer held. -/
theorem Advance.front {i w base base' : Nat} {p : Outbound} (ha : Advance i base p base')
    (h : Sound i base p) (hg : Gap i w base p) (hw : base / 4096 ≤ w + 1) :
    base ≤ base' ∧ Gap i w base' p ∧ base' / 4096 ≤ w + 1 := by
  cases ha with
  | stay => exact ⟨Nat.le_refl _, hg, hw⟩
  | next hmem hgap =>
    refine ⟨Nat.le_succ _, fun m hpos hle hnot => ?_, ?_⟩
    · by_cases hm : m = base + 1
      · exact absurd (hm ▸ hmem) hnot
      · exact hg m hpos (by omega) hnot
    · by_cases hz : (base + 1) % 4096 = 0
      · obtain ⟨m, hm, hnot⟩ := hgap hz
        by_cases hpos : 0 < m
        · have hle : m ≤ base := by omega
          have hserial : m ∉ serialsOn i p.reliable := by
            rw [mem_serialsOn, not_or]
            refine ⟨hnot, ?_⟩
            rw [h.fresh, List.mem_range'_1]
            omega
          have := hg m hpos hle hserial
          omega
        · omega
      · omega

/-- The last number of a channel that was sent. -/
def Outbound.lastSent (p : Outbound) (i : Nat) : Nat :=
  (p.channels i).serial - (freshOn i p.reliable).length

theorem Sound.lastSent {i base : Nat} {p : Outbound} (h : Sound i base p) :
    p.lastSent i = base := by
  have hle := h.base_le
  rw [Outbound.lastSent, h.fresh, List.length_range']
  omega

end Transport
