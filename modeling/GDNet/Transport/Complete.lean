import GDNet.Transport.Ordered

/-!
# Nothing is lost

Both halves of an exchange together.  A sender forgets a command when it is
acknowledged, and a receiver that is connected acknowledges what it has taken, but
not a number seven or eight windows ahead of it.  The sender starts no window while
all of the window before is on its way; so it never gets eight windows ahead, a
number is never read a turn too early, and what the sender has forgotten has arrived.
When it has nothing left of the channel, everything that was accepted has come out,
unless the sender's channels are gone.
-/

namespace Transport
open ENet (PeerState Packet ProtocolCommand)
open Transition

/-- No command arrives that is older than nine windows, no acknowledgement that is
older than a turn of the numbers, and the receiver is connected. -/
def prompt (l : Link) (s : Exchange) : Act → Prop
  | .arrive c .. =>
    s.position l / 4096 ≤ c.start / 4096 + 9 ∧ s.receiver.state = .connected
  | .acknowledged _ number => s.sender.lastSent l.index < number + 65536
  | _ => True

instance (l : Link) (s : Exchange) : (a : Act) → Decidable (prompt l s a)
  | .send .. | .control _ | .flush .. | .timeouts .. | .reset | .resetQueues |
    .otherAcknowledged .. | .sender _ | .other .. | .receive | .receiver _ =>
    inferInstanceAs (Decidable True)
  | .arrive .. => inferInstanceAs (Decidable (_ ∧ _))
  | .acknowledged .. => inferInstanceAs (Decidable (_ < _))

/-- Every number belongs to one command of the plan. -/
theorem numbered_at {n s s' j j' : Nat} {q q' : Parcel} {ps : List Parcel}
    (h : (s, q) ∈ numbered n ps) (h' : (s', q') ∈ numbered n ps) (hj : j < q.count)
    (hj' : j' < q'.count) (he : s + j = s' + j') : s = s' ∧ q = q' ∧ j = j' := by
  induction ps generalizing n with
  | nil => cases h
  | cons p ps ih =>
    rcases List.mem_cons.mp h with hp | h
    · rcases List.mem_cons.mp h' with hp' | h'
      · cases hp
        cases hp'
        exact ⟨rfl, rfl, by omega⟩
      · have := (numbered_bounds h').1
        cases hp
        omega
    · rcases List.mem_cons.mp h' with hp' | h'
      · have := (numbered_bounds h).1
        cases hp'
        omega
      · exact ih h h'

theorem exists_numbered {n m : Nat} {ps : List Parcel} (hlo : n < m) (hhi : m ≤ n + total ps) :
    ∃ s q j, (s, q) ∈ numbered n ps ∧ j < q.count ∧ s + j = m := by
  induction ps generalizing n with
  | nil =>
    rw [total] at hhi
    omega
  | cons p ps ih =>
    rw [total] at hhi
    by_cases hm : m ≤ n + p.count
    · exact ⟨n + 1, p, m - (n + 1), List.mem_cons_self, by omega, by omega⟩
    · obtain ⟨s, q, j, hq, hj, he⟩ := ih (n := n + p.count) (by omega) (by omega)
      exact ⟨s, q, j, List.mem_cons_of_mem _ hq, hj, he⟩

/-- The first command that waits, if it is next and has all of its parts, is not left
waiting. -/
theorem Receives.not_all_arrived {done todo : List Parcel} {q : Parcel} {c : Channel}
    (h : Receives done (q :: todo) c) :
    ¬∀ j, j < q.count → Arrived (total done) c.incomingReliableCommands (total done + 1) j := by
  intro hall
  have hwaits := h.waits
  have hidle := h.idle
  -- Every part is in the command at the head of the list.
  have hhead : ∀ j, j < q.count → ∃ e es, c.incomingReliableCommands = e :: es ∧
      Sees (total done) (total done + 1) e ∧ (e.command = .sendFragment → j ∈ e.fragments) := by
    intro j hj
    rcases hall j hj with hle | ⟨e, he, hs, hf⟩
    · omega
    · cases hc : c.incomingReliableCommands with
      | nil =>
        rw [hc] at he
        cases he
      | cons e₀ es =>
        rw [hc] at he hwaits
        rcases List.mem_cons.mp he with rfl | he
        · exact ⟨e, es, rfl, hs, hf⟩
        · obtain ⟨s₀, p₀, -, hs₀, -⟩ := hwaits.fits e₀ List.mem_cons_self
          have hlt := (List.pairwise_cons.mp hwaits.ordered).1 e he
          have hahead := hs₀.ahead
          rw [hs.distance, hs₀.distance] at hlt
          omega
  obtain ⟨e, es, hc, hs, -⟩ := hhead 0 q.count_pos
  have he : e ∈ c.incomingReliableCommands := by
    rw [hc]
    exact List.mem_cons_self
  obtain ⟨s', p, hm, hs', hfit⟩ := hwaits.fits e he
  have hsame : s' = total done + 1 := by
    have h₁ := hs.distance
    have h₂ := hs'.distance
    have h₃ := hs'.ahead
    omega
  subst hsame
  have hp := numbered_head hm
  subst hp
  refine hidle e (by rw [hc]; rfl) ⟨hfit.complete_iff.mpr fun hf i hi => ?_, hs.number⟩
  obtain ⟨e', es', hc', -, hmem⟩ := hhead i hi
  rw [hc] at hc'
  obtain rfl : e = e' := (List.cons.inj hc').1
  refine hmem ?_
  rw [hfit.command, hf]
  rfl

namespace Exchange

variable {l : Link} {s t : Exchange} {done todo : List Parcel}

/-- A number of the plan whose command was taken. -/
def Known (l : Link) (s : Exchange) (done : List Parcel) (number : Nat) : Prop :=
  ∃ n q j, (n, q) ∈ numbered 0 s.plan ∧ j < q.count ∧ n + j = number ∧
    Taken (total done) (s.receiver.channels l.index).incomingReliableCommands n j

/-- What the sender does not hold was taken, and the sender is not far ahead. -/
structure Keeps (l : Link) (s : Exchange) (done : List Parcel) : Prop where
  kept : ∀ n q j, (n, q) ∈ numbered 0 s.plan → j < q.count →
    n + j ∈ serialsOn l.index s.sender.reliable ∨
      Taken (total done) (s.receiver.channels l.index).incomingReliableCommands n j
  front : s.sender.lastSent l.index / 4096 ≤ total done / 4096 + 7
  sent : ∀ c ∈ s.network, c.channelID = l.channelID → c.serial ≤ s.sender.lastSent l.index
  acks : ∀ x ∈ s.acks, x.1.channelID = l.channelID ∧
    x.1.reliableSequenceNumber = UInt16.ofNat x.2 ∧ x.2 ≤ s.sender.lastSent l.index ∧
    Known l s done x.2

theorem Keeps.fresh (h : Fresh l s) : Keeps l s [] := by
  refine ⟨fun n q j hm => ?_, ?_, fun c hc => ?_, fun x hx => ?_⟩
  · rw [h.plan] at hm
    cases hm
  · obtain ⟨state, mtu, channelCount, hs⟩ := h.sender
    have hzero : s.sender.lastSent l.index = 0 := by rw [hs]; rfl
    rw [hzero]
    exact Nat.zero_le _
  · rw [h.network] at hc
    cases hc
  · rw [h.acks] at hx
    cases hx

theorem Taken.onward {mid : List Parcel} (ho : Onward l s t done (done ++ mid)) {n j : Nat}
    {q : Parcel} (hm : (n, q) ∈ numbered 0 s.plan) (hj : j < q.count)
    (h : Taken (total done) (s.receiver.channels l.index).incomingReliableCommands n j) :
    Taken (total (done ++ mid)) (t.receiver.channels l.index).incomingReliableCommands n j := by
  have htotal := total_append done mid
  have hdiv : total done / 4096 ≤ total (done ++ mid) / 4096 := Nat.div_le_div_right (by omega)
  have hnear := h.2
  exact ⟨ho n q j hm hj h.1, by omega⟩

theorem Known.onward {mid : List Parcel} (ho : Onward l s t done (done ++ mid)) {ps : List Parcel}
    (hp : t.plan = s.plan ++ ps) {number : Nat} (h : Known l s done number) :
    Known l t (done ++ mid) number := by
  obtain ⟨n, q, j, hm, hj, he, ha⟩ := h
  refine ⟨n, q, j, ?_, hj, he, ha.onward ho hm hj⟩
  rw [hp, numbered_append]
  exact List.mem_append_left _ hm

/-- A step after which the sender still holds what it held. -/
theorem Keeps.onward {mid ps : List Parcel} (h : Keeps l s done)
    (ho : Onward l s t done (done ++ mid)) (hp : t.plan = s.plan ++ ps)
    (hnew : ∀ n q j, (n, q) ∈ numbered (total s.plan) ps → j < q.count →
      n + j ∈ serialsOn l.index t.sender.reliable)
    (hkept : ∀ n ∈ serialsOn l.index s.sender.reliable,
      n ∈ serialsOn l.index t.sender.reliable ∨ Known l s done n)
    (hlast : s.sender.lastSent l.index ≤ t.sender.lastSent l.index)
    (hfront : t.sender.lastSent l.index / 4096 ≤ total done / 4096 + 7)
    (hnet : ∀ c ∈ t.network, c ∈ s.network ∨
      (c.channelID = l.channelID → c.serial ≤ t.sender.lastSent l.index))
    (hacks : ∀ x ∈ t.acks, x ∈ s.acks ∨ x.1.channelID = l.channelID ∧
      x.1.reliableSequenceNumber = UInt16.ofNat x.2 ∧ x.2 ≤ t.sender.lastSent l.index ∧
      Known l t (done ++ mid) x.2) : Keeps l t (done ++ mid) := by
  refine ⟨fun n q j hm hj => ?_, ?_, fun c hc hch => ?_, fun x hx => ?_⟩
  · rw [hp, numbered_append, Nat.zero_add, List.mem_append] at hm
    rcases hm with hm | hm
    · rcases h.kept n q j hm hj with hk | ha
      · rcases hkept _ hk with hk | ⟨n', q', j', hm', hj', he, ha⟩
        · exact .inl hk
        · obtain ⟨rfl, rfl, rfl⟩ := numbered_at hm' hm hj' hj he
          exact .inr (ha.onward ho hm' hj')
      · exact .inr (ha.onward ho hm hj)
    · exact .inl (hnew n q j hm hj)
  · have htotal := total_append done mid
    have hdiv : total done / 4096 ≤ total (done ++ mid) / 4096 := Nat.div_le_div_right (by omega)
    omega
  · rcases hnet c hc with hc | hc
    · exact Nat.le_trans (h.sent c hc hch) hlast
    · exact hc hch
  · rcases hacks x hx with hx | hx
    · obtain ⟨hch, hnum, hle, hk⟩ := h.acks x hx
      exact ⟨hch, hnum, Nat.le_trans hle hlast, hk.onward ho hp⟩
    · exact hx

/-- A step of the receiver. -/
theorem Keeps.still {mid : List Parcel} (h : Keeps l s done)
    (ho : Onward l s t done (done ++ mid)) (hs : t.sender = s.sender) (hp : t.plan = s.plan)
    (hn : t.network = s.network)
    (hacks : ∀ x ∈ t.acks, x ∈ s.acks ∨ x.1.channelID = l.channelID ∧
      x.1.reliableSequenceNumber = UInt16.ofNat x.2 ∧ x.2 ≤ s.sender.lastSent l.index ∧
      Known l t (done ++ mid) x.2) : Keeps l t (done ++ mid) := by
  have hplan : t.plan = s.plan ++ [] := hp.trans (List.append_nil _).symm
  refine h.onward ho hplan (fun n q j hm => by cases hm) ?_ ?_ ?_ ?_ ?_
  · intro n hn
    rw [hs]
    exact .inl hn
  · rw [hs]
  · rw [hs]
    exact h.front
  · rw [hn]
    exact fun c hc => .inl hc
  · rw [hs]
    exact hacks

/-- A step of the sender that changes its queues only. -/
theorem Keeps.requeued {mid : List Parcel} {p : Outbound} {base : Nat} (h : Keeps l s done)
    (ho : Onward l s t done (done ++ mid)) (hs : t.sender = p) (hp : t.plan = s.plan)
    (hn : t.network = s.network) (ha : t.acks = s.acks) (hb : Sound l.index base s.sender)
    (hb' : Sound l.index base p)
    (hkept : ∀ n ∈ serialsOn l.index s.sender.reliable,
      n ∈ serialsOn l.index p.reliable ∨ Known l s done n) : Keeps l t (done ++ mid) := by
  have hsame : t.sender.lastSent l.index = s.sender.lastSent l.index := by
    rw [hs, hb.lastSent, hb'.lastSent]
  have hplan : t.plan = s.plan ++ [] := hp.trans (List.append_nil _).symm
  refine h.onward ho hplan (fun n q j hm => by cases hm) ?_ (Nat.le_of_eq hsame.symm) ?_ ?_ ?_
  · rw [hs]
    exact hkept
  · rw [hsame]
    exact h.front
  · rw [hn]
    exact fun c hc => .inl hc
  · rw [ha]
    exact fun x hx => .inl hx

/-- What a sender has sent and does not hold is in the windows that are acknowledged. -/
theorem Keeps.gap (h : Keeps l s done) (hs : Holds l s) {base : Nat}
    (hb : Sound l.index base s.sender) : Gap l.index (total done / 4096 + 6) base s.sender := by
  intro m hpos hle hnot
  have hserial := hs.carries.serial
  have hbase := hb.base_le
  change (s.sender.channels l.index).serial = total s.plan at hserial
  have hm' : m ≤ 0 + total s.plan := by omega
  obtain ⟨n, q, j, hm, hj, rfl⟩ := exists_numbered hpos hm'
  exact ((h.kept n q j hm hj).resolve_left hnot).2

/-- The command that an acknowledgement removes is the one it answers. -/
theorem Keeps.removed (h : Keeps l s done) (hs : Holds l s) {x : Acknowledgement × Nat}
    (hx : x ∈ s.acks) (hlate : s.sender.lastSent l.index < x.2 + 65536) {p' : Outbound}
    {c : Outgoing} {as bs : List Outgoing}
    (ha : Acknowledged s.sender p' x.1.reliableSequenceNumber x.1.channelID c as bs) :
    c.serial = x.2 := by
  obtain ⟨base, hb⟩ := hs.sound
  obtain ⟨hch, hnum, hle, -⟩ := h.acks x hx
  rw [hb.lastSent] at hle hlate
  obtain ⟨hnumber, hchannel⟩ := isIt_iff.mp ha.isIt
  have hc : c ∈ s.sender.reliable := by
    rw [ha.before]
    exact List.mem_append_right _ List.mem_cons_self
  have hi : c.channelID.toNat = l.index := by rw [hchannel, hch]; rfl
  have htried : c.isTried = true := ha.tried.elim (hb.sent c) id
  have hmem : c.serial ∈ triedOn l.index s.sender.reliable :=
    mem_triedOn.mpr ⟨c, hc, hi, of_decide_eq_true htried, rfl⟩
  have hspan := hb.flight.span _ hmem
  have hbase := hb.flight.le _ hmem
  have hmod := congrArg UInt16.toNat ((hb.numbers c hc hi).1.symm.trans (hnumber.trans hnum))
  rw [toNat_ofNat, toNat_ofNat] at hmod
  omega

/-- A step keeps this, or ends the sender's channels. -/
theorem Keeps.step (hk : Keeps l s done) (hs : Holds l s) (hpost : Posted l s)
    (hh : Hears l s done todo) {a : Act} (hp : prompt l s a)
    (hstep : Exchange.step l s a = some t) :
    Closed l t.sender ∨ ∃ mid rest, Hears l t (done ++ mid) rest ∧ Keeps l t (done ++ mid) := by
  obtain ⟨base, hb⟩ := hs.sound
  have hlt : l.index < 255 := hpost.index
  have htime : timely l s a := by
    cases a with
    | arrive c sentTime memory allocates =>
      change (if c ∈ s.network ∧ c.channelID = l.channelID then _ else _) = some t at hstep
      split at hstep
      · next hc =>
        have hlast := hk.sent c hc.1 hc.2
        have hfront := hk.front
        have hstart : c.start ≤ c.serial := Nat.sub_le _ _
        refine ⟨hp.1, ?_⟩
        rw [hh.position]
        omega
      · cases hstep
    | _ => trivial
  obtain ⟨mid, rest, hh', ho⟩ := hh.step hpost htime hstep
  cases a with
  | send channelID packet allocates =>
    obtain ⟨p, hsend, rfl⟩ := Option.map_eq_some_iff.mp hstep
    obtain ⟨hpos, -⟩ := Outbound.pieceLength_bounds hs.mtu.1 hs.mtu.2 l.checksum
    obtain ⟨hb', hc', new, hnew⟩ := peerSend_carries hb hs.carries hpos hsend
    change Sound l.index base p at hb'
    have hserial : (p.channels l.index).serial = _ := hc'.serial
    have hold : (s.sender.channels l.index).serial = _ := hs.carries.serial
    have hbase := hb.base_le
    refine .inr ⟨mid, rest, hh',
      hk.onward ho rfl ?_ ?_ ?_ ?_ (fun c hc => .inl hc) fun x hx => .inl hx⟩
    · intro n q j hm hj
      obtain ⟨hlo, hhi⟩ := numbered_bounds hm
      rw [total_append] at hserial
      refine mem_serialsOn.mpr (.inr ?_)
      show n + j ∈ freshOn l.index p.reliable
      rw [hb'.fresh, List.mem_range'_1]
      omega
    · intro n hn
      refine .inl ?_
      show n ∈ serialsOn l.index p.reliable
      rw [hnew, serialsOn_append]
      exact List.mem_append_left _ hn
    · show _ ≤ p.lastSent l.index
      rw [hb.lastSent, hb'.lastSent]
    · show p.lastSent l.index / 4096 ≤ _
      rw [hb'.lastSent, ← hb.lastSent]
      exact hk.front
  | control c =>
    change (if c.channelID = 0xFF then _ else _) = some t at hstep
    split at hstep
    · next hctl =>
      cases hstep
      have hne : c.channelID.toNat ≠ l.index := by
        rw [hctl]
        show 255 ≠ l.index
        omega
      obtain ⟨-, new, hnew, -⟩ := setup_other (p := s.sender) (c := c) (.inr hne) hlt
      refine .inr ⟨mid, rest, hh', hk.requeued ho rfl rfl rfl rfl hb
        (hb.setup c fun hi => absurd hi hne) fun n hn => .inl ?_⟩
      rw [hnew, serialsOn_append]
      exact List.mem_append_left _ hn
    · cases hstep
  | flush batch serviceTime =>
    obtain ⟨base', hb', hle, hfront⟩ := flush_sound hb batch serviceTime
    obtain ⟨new, hsent, hbatch, hmoved⟩ := flush_moved s.sender batch serviceTime
    obtain rfl : _ = t := Option.some.inj hstep
    refine .inr ⟨mid, rest, hh', hk.onward ho
      (show s.plan = s.plan ++ [] from (List.append_nil _).symm) (fun n q j hm => by cases hm)
      ?_ ?_ ?_ ?_ fun x hx => .inl hx⟩
    · exact fun n hn => .inl ((hmoved.serialsOn l.index).mem_iff.mpr hn)
    · show _ ≤ (protocolSendReliableOutgoingCommands s.sender batch serviceTime).1.lastSent l.index
      rw [hb.lastSent, hb'.lastSent]
      exact hle
    · show (protocolSendReliableOutgoingCommands s.sender batch serviceTime).1.lastSent l.index /
        4096 ≤ _
      rw [hb'.lastSent]
      refine hfront _ (hk.gap hs hb) ?_
      rw [← hb.lastSent]
      exact hk.front
    · intro c hc
      refine (List.mem_append.mp hc).imp id fun hc hch => ?_
      rw [hbatch, List.drop_left] at hc
      show _ ≤ (protocolSendReliableOutgoingCommands s.sender batch serviceTime).1.lastSent l.index
      rw [hb'.lastSent]
      have hmem : c ∈ (protocolSendReliableOutgoingCommands s.sender batch
          serviceTime).1.sentReliableCommands := by
        rw [hsent]
        exact List.mem_append_right _ hc
      refine hb'.flight.le _ (mem_triedOn.mpr ⟨c, List.mem_append_left _ hmem, ?_,
        of_decide_eq_true (hb'.sent c hmem), rfl⟩)
      rw [hch]
      rfl
  | timeouts serviceTime deliver =>
    have hmoved := checkTimeouts_moved s.sender serviceTime
    have hb' := checkTimeouts_sound hb serviceTime
    have hkept : ∀ n ∈ serialsOn l.index s.sender.reliable,
        n ∈ serialsOn l.index (protocolCheckTimeouts s.sender serviceTime).1.reliable ∨
          Known l s done n := fun n hn => .inl ((hmoved.serialsOn l.index).mem_iff.mpr hn)
    have hcheck := Option.some.inj hstep
    split at hcheck
    · rcases notifyDisconnect_cases (protocolCheckTimeouts s.sender serviceTime).1 deliver with
        he | he
      · rw [← hcheck, he]
        exact .inl (.reset l _)
      · rw [he] at hcheck
        subst hcheck
        exact .inr ⟨mid, rest, hh', hk.requeued ho rfl rfl rfl rfl hb (hb'.congr rfl rfl rfl rfl)
          hkept⟩
    · subst hcheck
      exact .inr ⟨mid, rest, hh', hk.requeued ho rfl rfl rfl rfl hb hb' hkept⟩
  | reset =>
    obtain rfl : _ = t := Option.some.inj hstep
    exact .inl (.reset l _)
  | resetQueues =>
    obtain rfl : _ = t := Option.some.inj hstep
    exact .inl (.resetQueues l _)
  | acknowledged ack number =>
    change (if (ack, number) ∈ s.acks then _ else _) = some t at hstep
    split at hstep
    · next hx =>
      cases hstep
      refine .inr ⟨mid, rest, hh',
        hk.requeued ho rfl rfl rfl rfl hb (remove_sound hb _ _) fun n hn => ?_⟩
      rcases remove_cases s.sender ack.reliableSequenceNumber ack.channelID with
        he | ⟨c, as, bs, ha⟩
      · rw [he]
        exact .inl hn
      · have hserial := hk.removed hs hx hp ha
        rw [ha.before, serialsOn_append, serialsOn_cons, List.mem_append] at hn
        rw [ha.after, serialsOn_append, List.mem_append]
        by_cases hsame : n = number
        · exact .inr (hsame ▸ (hk.acks _ hx).2.2.2)
        · refine .inl (hn.imp id fun hn => ?_)
          split at hn
          · refine (List.mem_cons.mp hn).resolve_left fun he => hsame ?_
            rw [he, hserial]
          · exact hn
    · cases hstep
  | otherAcknowledged number channelID =>
    change (if channelID ≠ l.channelID then _ else _) = some t at hstep
    split at hstep
    · next hne =>
      cases hstep
      refine .inr ⟨mid, rest, hh',
        hk.requeued ho rfl rfl rfl rfl hb (remove_sound hb _ _) fun n hn => .inl ?_⟩
      rcases remove_cases s.sender number channelID with he | ⟨c, as, bs, ha⟩
      · rw [he]
        exact hn
      · have hoff : c.onChannel l.index = false := by
          refine decide_eq_false fun hi => hne ?_
          rw [← (isIt_iff.mp ha.isIt).2]
          exact UInt8.toNat_inj.mp hi
        rw [ha.before, serialsOn_append, serialsOn_cons, hoff] at hn
        rw [ha.after, serialsOn_append]
        exact hn
    · cases hstep
  | sender p =>
    change (if protocolMinimumMtu ≤ p.mtu ∧ _ then _ else _) = some t at hstep
    split at hstep
    · cases hstep
      exact .inr ⟨mid, rest, hh', hk.requeued ho rfl rfl rfl rfl hb (hb.congr rfl rfl rfl rfl)
        fun n hn => .inl hn⟩
    · cases hstep
  | arrive c sentTime memory allocates =>
    change (if c ∈ s.network ∧ c.channelID = l.channelID then _ else _) = some t at hstep
    split at hstep
    · next hc =>
      obtain ⟨m, hm, hstep⟩ := Option.bind_eq_some_iff.mp hstep
      obtain ⟨r, hr, hstep⟩ := Option.map_eq_some_iff.mp hstep
      obtain ⟨a, ha⟩ := hpost.network c hc.1 hc.2
      have hserial := ha.serial
      have hlast := hk.sent c hc.1 hc.2
      have hfront := hk.front
      obtain ⟨hpast, hfuture⟩ := htime
      rw [hh.position, ha.start] at hpast hfuture
      rw [hserial] at hlast
      obtain ⟨mid, rest, hh', ho, hack⟩ := hh.arrive (t := t) hpost ha hm hr ⟨hpast, hfuture⟩
        (by rw [← hstep]) (by rw [← hstep]) (by rw [← hstep])
      have hnear : a.number / 4096 ≤ total done / 4096 + 8 := by omega
      refine .inr ⟨mid, rest, hh', hk.still ho (by rw [← hstep]) (by rw [← hstep]) (by rw [← hstep])
        fun x hx => ?_⟩
      rw [← hstep] at hx
      refine (List.mem_append.mp hx).imp id fun hx => ?_
      rw [hserial] at hx
      obtain ⟨hch, hnum, hx, harr⟩ := hack hp.2 hnear x hx
      rw [hx]
      refine ⟨hch, hnum, hlast, a.start, a.parcel, a.index, ?_, a.index_lt, rfl, harr⟩
      rw [← hstep]
      exact ha.1
    · cases hstep
  | other m sentTime memory allocates =>
    change (if l.concerns m = true then _ else _) = some t at hstep
    split at hstep
    · cases hstep
    · obtain ⟨r, -, rfl⟩ := Option.map_eq_some_iff.mp hstep
      exact .inr ⟨mid, rest, hh', hk.still ho rfl rfl rfl fun x hx => .inl hx⟩
  | receive =>
    obtain ⟨r, -, rfl⟩ := Option.map_eq_some_iff.mp hstep
    exact .inr ⟨mid, rest, hh', hk.still ho rfl rfl rfl fun x hx => .inl hx⟩
  | receiver p =>
    obtain rfl : _ = t := Option.some.inj hstep
    exact .inr ⟨mid, rest, hh', hk.still ho rfl rfl rfl fun x hx => .inl hx⟩

/-- The invariant of an exchange. -/
def Complete (l : Link) (s : Exchange) : Prop :=
  Sends l s ∧ (Closed l s.sender ∨ ∃ done todo, Hears l s done todo ∧ Keeps l s done)

theorem Complete.run {s₀ : Exchange} {as : List Act} (h₀ : (exchange l).start s₀)
    (hp : (exchange l).Along (prompt l) s₀ as) (hr : (exchange l).run s₀ as = some s) :
    Complete l s := by
  refine Machine.run_preserves (I := Complete l) (fun s a t hprompt h hs => ?_) hp
    ⟨⟨.fresh h₀, .inl (.fresh h₀)⟩, .inr ⟨[], [], .fresh h₀, .fresh h₀⟩⟩ hr
  obtain ⟨hsend, hrest⟩ := h
  refine ⟨hsend.step hs, ?_⟩
  rcases hsend.2 with hold | hclosed
  · rcases hrest with hclosed | ⟨done, todo, hh, hk⟩
    · exact .inl (closed_step hclosed hsend.1 hs).2
    · rcases hk.step hold hsend.1 hh hprompt hs with hclosed | ⟨mid, rest, hh', hk'⟩
      · exact .inl hclosed
      · exact .inr ⟨done ++ mid, rest, hh', hk'⟩
  · exact .inl (closed_step hclosed hsend.1 hs).2

/-- When the sender still has the channel and holds nothing of it, everything came out. -/
theorem delivered_all {s₀ : Exchange} {as : List Act} (h₀ : (exchange l).start s₀)
    (hp : (exchange l).Along (prompt l) s₀ as) (hr : (exchange l).run s₀ as = some s)
    (hup : l.index < s.sender.channelCount)
    (hnone : ∀ c ∈ s.sender.reliable, c.channelID ≠ l.channelID) :
    s.delivered l = s.plan.map fun q => q.data := by
  obtain ⟨-, hclosed | ⟨done, todo, hh, hk⟩⟩ := Complete.run h₀ hp hr
  · have hcount := hclosed.channelCount
    omega
  · have hserials : serialsOn l.index s.sender.reliable = [] := by
      unfold serialsOn
      rw [List.filter_eq_nil_iff.mpr, List.map_nil]
      intro c hc hi
      exact hnone c hc (UInt8.toNat_inj.mp (of_decide_eq_true hi))
    have hempty : todo = [] := by
      cases todo with
      | nil => rfl
      | cons q todo =>
        refine absurd (fun j hj => ?_) hh.receives.not_all_arrived
        have hm : (total done + 1, q) ∈ numbered 0 s.plan := by
          rw [hh.split, numbered_append, Nat.zero_add]
          exact List.mem_append_right _ List.mem_cons_self
        refine ((hk.kept _ q j hm hj).resolve_left fun hmem => ?_).1
        rw [hserials] at hmem
        cases hmem
    rw [hh.delivered, hh.split, hempty, List.append_nil]

theorem onePacket_prompt : (exchange .single).Along (prompt .single) connected onePacket := by
  decide +kernel

theorem delivered_all_onePacket : ∃ s, (exchange .single).run connected onePacket = some s ∧
    s.handed = [[1, 2, 3]] ∧ s.delivered .single = s.plan.map fun q => q.data :=
  ⟨_, rfl, by decide +kernel,
    delivered_all connected_fresh onePacket_prompt rfl (by decide +kernel) (by decide +kernel)⟩

/-- The sender is less than eight windows ahead of the receiver. -/
theorem lastSent_near {s₀ : Exchange} {as : List Act} (h₀ : (exchange l).start s₀)
    (hp : (exchange l).Along (prompt l) s₀ as) (hr : (exchange l).run s₀ as = some s) :
    s.sender.lastSent l.index / 4096 < s.position l / 4096 + 8 := by
  obtain ⟨-, hclosed | ⟨done, todo, hh, hk⟩⟩ := Complete.run h₀ hp hr
  · rw [Outbound.lastSent, hclosed.channel, Nat.zero_sub, Nat.zero_div]
    omega
  · have hfront := hk.front
    rw [hh.position]
    omega

theorem lastSent_near_onePacket : ∃ s, (exchange .single).run connected onePacket = some s ∧
    s.sender.lastSent Link.single.index / 4096 < s.position .single / 4096 + 8 :=
  ⟨_, rfl, lastSent_near connected_fresh onePacket_prompt rfl⟩

end Exchange
end Transport
