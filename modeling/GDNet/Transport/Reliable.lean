import GDNet.Transport.Stream

/-!
# Receiving the reliable stream

The commands of the stream arrive in any order, any number of times or not at all.
A receiver that is never more than nine windows past the packet of a command that
arrives keeps its invariant: it dispatches the packets in order, each once, and with
their data.
-/

namespace Transport
open ENet (PeerState Packet ProtocolCommand packetFlagReliable)
open Search Channel

/-- The receiver has dispatched `done`, and what waits in the channel is of `todo`. -/
structure Receives (done todo : List Parcel) (c : Channel) : Prop where
  number : c.incomingReliableSequenceNumber = UInt16.ofNat (total done)
  waits : Waits (total done) todo c.incomingReliableCommands
  idle : Idle (total done) c.incomingReliableCommands

/-- The command `i` of the parcel that starts at `s` is dispatched or waits. -/
def Arrived (R : Nat) (cs : List IncomingCommand) (s i : Nat) : Prop :=
  s + i ≤ R ∨ ∃ e ∈ cs, Sees R s e ∧ (e.command = .sendFragment → i ∈ e.fragments)

/-- The data of the reliable packets of a channel. -/
def logged (i : Nat) (es : List IncomingCommand) : List (List UInt8) :=
  (es.filter fun e => decide (e.channelID.toNat = i) && isReliable e.command).map
    fun e => e.packet.data

theorem logged_append (i : Nat) (es es' : List IncomingCommand) :
    logged i (es ++ es') = logged i es ++ logged i es' := by
  unfold logged
  rw [List.filter_append, List.map_append]

theorem logged_reliable {i : Nat} {es : List IncomingCommand}
    (h : ∀ e ∈ es, Belongs i .sendReliable e) : logged i es = es.map fun e => e.packet.data := by
  unfold logged
  rw [List.filter_eq_self.mpr]
  intro e he
  obtain ⟨h₁, h₂⟩ := h e he
  rw [h₁, h₂]
  simp [isReliable]

theorem logged_nil {i : Nat} {es : List IncomingCommand}
    (h : ∀ e ∈ es, e.channelID.toNat = i → isReliable e.command = false) : logged i es = [] := by
  unfold logged
  rw [List.filter_eq_nil_iff.mpr, List.map_nil]
  intro e he hc
  rw [Bool.and_eq_true, decide_eq_true_eq] at hc
  rw [h e he hc.1] at hc
  exact Bool.false_ne_true hc.2

/-! ## After a change of the waiting commands -/

theorem Receives.start (todo : List Parcel) : Receives [] todo {} :=
  ⟨rfl, .nil 0 todo, fun e he => by cases he⟩

theorem Receives.more {done todo : List Parcel} {c : Channel} (h : Receives done todo c)
    (ps : List Parcel) : Receives done (todo ++ ps) c := ⟨h.number, h.waits.more ps, h.idle⟩

/-- What a dispatch leaves of commands that wait. -/
theorem dispatch_receives {i : Nat} {done todo : List Parcel} {c : Channel}
    (hn : c.incomingReliableSequenceNumber = UInt16.ofNat (total done))
    (hw : Waits (total done) todo c.incomingReliableCommands)
    (hb : ∀ k, ∀ e ∈ c.commands k, Belongs i k e) :
    ∃ mid rest, todo = mid ++ rest ∧ Receives (done ++ mid) rest c.dispatchReliable.1 ∧
      logged i c.dispatchReliable.2 = mid.map (fun p => p.data) ∧
      (∀ s p j, (s, p) ∈ numbered 0 (done ++ todo) → j < p.count →
        Arrived (total done) c.incomingReliableCommands s j →
        Arrived (total (done ++ mid)) c.dispatchReliable.1.incomingReliableCommands s j) ∧
      ∀ s p, (s, p) ∈ numbered (total done) mid → s / 4096 < total done / 4096 + 7 := by
  obtain ⟨mid, rest, hsplit, ha⟩ := loop_waits hw
  obtain ⟨hnum, hlist, u, hout, hu⟩ := dispatchReliable_reliable c
  have happend := dispatchReliableLoop_append c.incomingReliableSequenceNumber
    c.incomingReliableCommands
  rw [hn] at hnum hlist hout happend
  have htotal := total_append done mid
  refine ⟨mid, rest, hsplit, ⟨?_, ?_, ?_⟩, ?_, ?_, fun s p hm => ?_⟩
  · rw [hnum, htotal]
    exact ha.number
  · rw [hlist, htotal]
    exact ha.waits
  · rw [hlist, htotal]
    exact ha.idle
  · rw [hout, logged_append, logged_reliable, logged_nil, List.append_nil, ha.data]
    · intro e he _
      exact (hb .sendUnreliable e (hu e (.inl he))).2
    · intro e he
      refine hb .sendReliable e ?_
      show e ∈ c.incomingReliableCommands
      rw [happend]
      exact List.mem_append_left _ he
  · intro s p j hm hj harr
    rw [hlist, htotal]
    by_cases hle : s + j ≤ total done + total mid
    · exact .inl hle
    · rcases harr with hR | ⟨e, he, hs, hfrag⟩
      · omega
      · have hlt : total done + total mid < s := by
          rw [hsplit, ← List.append_assoc] at hm
          by_cases hpast : s ≤ total (done ++ mid)
          · rw [numbered_append, List.mem_append] at hm
            rcases hm with hm | hm
            · have := (numbered_bounds hm).2
              omega
            · have := (numbered_bounds hm).1
              omega
          · omega
        refine .inr ⟨e, ha.kept e he s hs hlt, ⟨hs.number, hlt, ?_⟩, hfrag⟩
        have hnear := hs.near
        have hdiv : total done / 4096 ≤ (total done + total mid) / 4096 :=
          Nat.div_le_div_right (by omega)
        omega
  · obtain ⟨_, _, hs⟩ := ha.seen s p hm
    exact hs.near

/-- The search ends at the place of the number. -/
theorem Receives.search_at {done todo : List Parcel} {c : Channel} (h : Receives done todo c)
    {s : Nat} (hlt : total done < s) (hnear : s / 4096 < total done / 4096 + 7) :
    (search (reliableTurn c.incomingReliableSequenceNumber (UInt16.ofNat s))
      c.incomingReliableCommands).At (distance (UInt16.ofNat (total done))) (s - total done) := by
  have hoff : Serial.offset 65536 (UInt16.ofNat (total done)).toNat (UInt16.ofNat s).toNat =
      s - total done := by
    rw [toNat_ofNat, toNat_ofNat]
    exact Serial.offset_of_le (Nat.le_of_lt hlt) (by omega)
  refine Search.search_at (fun e _ => ?_) h.waits.ordered
  rw [h.number, reliableTurn_eq, hoff]

/-- A command put at its place waits with the others. -/
theorem Receives.insert {done todo : List Parcel} {c : Channel} (h : Receives done todo c)
    {s : Nat} {p : Parcel} {e : IncomingCommand} (hm : (s, p) ∈ numbered (total done) todo)
    (hs : Sees (total done) s e) (hf : p.Fits e) {before after : List IncomingCommand}
    (hsearch : search (reliableTurn c.incomingReliableSequenceNumber (UInt16.ofNat s))
      c.incomingReliableCommands = .between before after) :
    Waits (total done) todo (before ++ e :: after) := by
  have hl := search_between hsearch
  have hat := h.search_at hs.ahead hs.near
  rw [hsearch, ← hs.distance] at hat
  refine ⟨Ordered.insert (hl ▸ h.waits.ordered) hat, fun e' he' => ?_⟩
  rcases mem_insert he' with rfl | he'
  · exact ⟨s, p, hm, hs, hf⟩
  · exact h.waits.fits e' (hl ▸ he')

/-- The command found is of the parcel that was looked for. -/
theorem Receives.found {done todo : List Parcel} {c : Channel} (h : Receives done todo c)
    {s : Nat} {p : Parcel} (hm : (s, p) ∈ numbered (total done) todo)
    (hnear : s / 4096 < total done / 4096 + 7)
    {before after : List IncomingCommand} {e : IncomingCommand}
    (hsearch : search (reliableTurn c.incomingReliableSequenceNumber (UInt16.ofNat s))
      c.incomingReliableCommands = .found before e after) :
    c.incomingReliableCommands = before ++ e :: after ∧ Sees (total done) s e ∧ p.Fits e := by
  have hlt := (numbered_bounds hm).1
  have hl := search_found hsearch
  have hat := h.search_at hlt hnear
  rw [hsearch] at hat
  have he : e ∈ c.incomingReliableCommands := by
    rw [hl]
    exact List.mem_append_right _ List.mem_cons_self
  obtain ⟨s', p', hm', hs', hf'⟩ := h.waits.fits e he
  have hd := hs'.distance
  have hgt := hs'.ahead
  have hat' := hat.2.1
  have hse : s' = s := by omega
  subst hse
  have hp := numbered_unique hm' hm
  subst hp
  exact ⟨hl, hs', hf'⟩

/-- A waiting command may be replaced by one with the same number. -/
theorem Receives.replace {done todo : List Parcel} {c : Channel} (h : Receives done todo c)
    {s : Nat} {p : Parcel} {e e' : IncomingCommand} (hm : (s, p) ∈ numbered (total done) todo)
    {before after : List IncomingCommand} (hl : c.incomingReliableCommands = before ++ e :: after)
    (hn : e'.reliableSequenceNumber = e.reliableSequenceNumber) (hs : Sees (total done) s e)
    (hf : p.Fits e') : Waits (total done) todo (before ++ e' :: after) := by
  have ho := h.waits.ordered
  rw [hl] at ho
  have hd : distance (UInt16.ofNat (total done)) e' = distance (UInt16.ofNat (total done)) e := by
    rw [distance, distance, hn]
  obtain ⟨hb, ha, hba⟩ := List.pairwise_append.mp ho
  obtain ⟨hea, ha⟩ := List.pairwise_cons.mp ha
  refine ⟨List.pairwise_append.mpr ⟨hb, List.pairwise_cons.mpr ⟨?_, ha⟩, ?_⟩, ?_⟩
  · intro a haf
    rw [hd]
    exact hea a haf
  · intro b hbf a haf
    rcases List.mem_cons.mp haf with rfl | haf
    · rw [hd]
      exact hba b hbf e List.mem_cons_self
    · exact hba b hbf a (List.mem_cons_of_mem _ haf)
  · intro a haf
    rcases mem_insert haf with rfl | haf
    · exact ⟨s, p, hm, ⟨hn.trans hs.number, hs.ahead, hs.near⟩, hf⟩
    · refine h.waits.fits a ?_
      rw [hl]
      simp only [List.mem_append, List.mem_cons] at *
      tauto

/-- An incomplete command makes nothing ready. -/
theorem idle_insert {R : Nat} {before after : List IncomingCommand} {e : IncomingCommand}
    (h : Idle R (before ++ after)) (he : e.fragmentsRemaining ≠ 0) :
    Idle R (before ++ e :: after) := by
  cases before with
  | nil =>
    intro e' he'
    cases he'
    exact fun hc => he hc.1
  | cons b before => exact h

theorem idle_replace {R : Nat} {before after : List IncomingCommand} {e e' : IncomingCommand}
    (h : Idle R (before ++ e :: after)) (he : e'.fragmentsRemaining ≠ 0) :
    Idle R (before ++ e' :: after) := by
  cases before with
  | nil =>
    intro a ha
    cases ha
    exact fun hc => he hc.1
  | cons b before => exact h

theorem Arrived.insert {R s j : Nat} {before after : List IncomingCommand} {e : IncomingCommand}
    (h : Arrived R (before ++ after) s j) : Arrived R (before ++ e :: after) s j := by
  refine h.imp id fun ⟨e', he', hs, hf⟩ => ⟨e', ?_, hs, hf⟩
  simp only [List.mem_append, List.mem_cons] at *
  tauto

/-- A fragment that is stored takes nothing away. -/
theorem Arrived.store {R s j : Nat} {before after : List IncomingCommand} {e : IncomingCommand}
    (f : Fragment) (data : List UInt8) (h : Arrived R (before ++ e :: after) s j) :
    Arrived R (before ++ e.store f data :: after) s j := by
  refine h.imp id fun ⟨e', he', hs, hf⟩ => ?_
  by_cases he : e' = e
  · subst he
    refine ⟨e'.store f data, List.mem_append_right _ List.mem_cons_self,
      ⟨hs.number, hs.ahead, hs.near⟩, fun hc => ?_⟩
    exact Finset.mem_insert_of_mem (hf hc)
  · refine ⟨e', ?_, hs, hf⟩
    simp only [List.mem_append, List.mem_cons] at *
    tauto

/-- What a handler of the stream does with the other half of the channel: nothing, or
what a dispatch of reliable commands does with it. -/
def Aside (i : Nat) (c : Channel) (r : Channel × List IncomingCommand) : Prop :=
  (∃ cs, r = ({ c with incomingReliableCommands := cs }, [])) ∨
    ∃ cs, (∀ e ∈ cs, Belongs i .sendReliable e) ∧
      r = { c with incomingReliableCommands := cs }.dispatchReliable

/-- What a handler does to a channel that receives the stream. -/
structure Takes (i : Nat) (done todo : List Parcel) (c : Channel) (mid rest : List Parcel)
    (r : Channel × List IncomingCommand) : Prop where
  split : todo = mid ++ rest
  receives : Receives (done ++ mid) rest r.1
  logged : logged i r.2 = mid.map fun p => p.data
  arrived : ∀ s p j, (s, p) ∈ numbered 0 (done ++ todo) → j < p.count →
    Arrived (total done) c.incomingReliableCommands s j →
    Arrived (total (done ++ mid)) r.1.incomingReliableCommands s j
  aside : Aside i c r
  near : ∀ s p, (s, p) ∈ numbered (total done) mid → s / 4096 < total done / 4096 + 7

theorem Takes.same {i : Nat} {done todo : List Parcel} {c : Channel} (h : Receives done todo c) :
    Takes i done todo c [] todo (c, []) := by
  refine ⟨rfl, ?_, rfl, fun s p j _ _ ha => ?_, .inl ⟨_, rfl⟩, fun s p hm => by cases hm⟩
  · rw [List.append_nil]
    exact h
  · rw [List.append_nil]
    exact ha

theorem Takes.wait {i : Nat} {done todo : List Parcel} {c : Channel} (h : Receives done todo c)
    {cs : List IncomingCommand} (hw : Waits (total done) todo cs) (hi : Idle (total done) cs)
    (ha : ∀ s j, Arrived (total done) c.incomingReliableCommands s j →
      Arrived (total done) cs s j) :
    Takes i done todo c [] todo ({ c with incomingReliableCommands := cs }, []) := by
  refine ⟨rfl, ?_, rfl, fun s p j _ _ harr => ?_, .inl ⟨_, rfl⟩, fun s p hm => by cases hm⟩
  · rw [List.append_nil]
    exact ⟨h.number, hw, hi⟩
  · rw [List.append_nil]
    exact ha s j harr

theorem Takes.dispatch {i : Nat} {done todo : List Parcel} {c : Channel} (h : Receives done todo c)
    (ht : c.Tidy i) {cs : List IncomingCommand} (hw : Waits (total done) todo cs)
    (hb : ∀ e ∈ cs, Belongs i .sendReliable e)
    (ha : ∀ s j, Arrived (total done) c.incomingReliableCommands s j →
      Arrived (total done) cs s j) :
    ∃ mid rest,
      Takes i done todo c mid rest { c with incomingReliableCommands := cs }.dispatchReliable ∧
      ∀ s p j, (s, p) ∈ numbered 0 (done ++ todo) → j < p.count → Arrived (total done) cs s j →
        Arrived (total (done ++ mid))
          { c with incomingReliableCommands := cs }.dispatchReliable.1.incomingReliableCommands
          s j := by
  obtain ⟨mid, rest, hsplit, hr, hl, harr, hnear⟩ := dispatch_receives
    (c := { c with incomingReliableCommands := cs }) h.number hw
    (belongs_withCommands (k := .sendReliable) ht.belongs cs hb)
  exact ⟨mid, rest, ⟨hsplit, hr, hl, fun s p j hm hj h => harr s p j hm hj (ha s j h),
    .inr ⟨cs, hb, rfl⟩, hnear⟩, harr⟩

/-! ## Arrivals -/

/-- A command of the stream. -/
structure Arrival where
  start : Nat
  parcel : Parcel
  index : Nat
  index_lt : index < parcel.count

def Arrival.number (a : Arrival) : Nat := a.start + a.index

/-- The handler of a command of the stream. -/
def receive (p : Inbound) (channelID : UInt8) (a : Arrival) (memory : Option (Nat → UInt8)) :
    Handled :=
  if a.parcel.fragmented then
    protocolHandleSendFragment p channelID (UInt16.ofNat a.start) (a.parcel.fragment a.index)
      (a.parcel.piece a.index) memory
  else
    protocolHandleSendReliable p channelID (UInt16.ofNat a.start) a.parcel.data memory.isSome

/-- The receiver is not too far past the packet to tell that it is old, nor a turn of
the numbers behind it. -/
structure Timely (R : Nat) (a : Arrival) : Prop where
  past : R / 4096 ≤ a.start / 4096 + 9
  future : a.start < R + 65536

/-- What comes of an arrival. -/
def Outcome (i : Nat) (done todo : List Parcel) (p : Inbound) (a : Arrival) (h : Handled) : Prop :=
  ∃ mid rest r, Takes i done todo (p.channels i) mid rest r ∧ p.Became h.peer i r ∧
    (h.error = false → p.state = .connected →
      Arrived (total (done ++ mid)) r.1.incomingReliableCommands a.start a.index ∨
      (p.Became h.peer i (p.channels i, []) ∧ total done / 4096 + 7 ≤ a.start / 4096))

theorem Outcome.error {i : Nat} {done todo : List Parcel} {p : Inbound} {a : Arrival}
    (h : Receives done todo (p.channels i)) : Outcome i done todo p a ⟨p, true⟩ :=
  ⟨[], todo, _, .same h, .same p i, fun he => by cases he⟩

theorem Outcome.same {i : Nat} {done todo : List Parcel} {p : Inbound} {a : Arrival}
    (h : Receives done todo (p.channels i))
    (ha : p.state = .connected →
      Arrived (total done) (p.channels i).incomingReliableCommands a.start a.index ∨
      total done / 4096 + 7 ≤ a.start / 4096) : Outcome i done todo p a ⟨p, false⟩ := by
  refine ⟨[], todo, _, .same h, .same p i, fun _ hs => ?_⟩
  rw [List.append_nil]
  exact (ha hs).imp id fun hfar => ⟨.same p i, hfar⟩

/-- A number outside the window has been dispatched, or it is far ahead. -/
theorem outside {R : Nat} {a : Arrival} {todo done : List Parcel} (hR : R = total done)
    (hm : (a.start, a.parcel) ∈ numbered 0 (done ++ todo))
    (hw : inWindow (UInt16.ofNat a.start) (UInt16.ofNat R) = false) :
    a.start + a.index ≤ R ∨ R / 4096 + 7 ≤ a.start / 4096 := by
  by_cases hle : a.start ≤ R
  · left
    rw [numbered_append, List.mem_append] at hm
    rcases hm with hm | hm
    · have := (numbered_bounds hm).2
      have := a.index_lt
      omega
    · have := (numbered_bounds hm).1
      omega
  · right
    by_contra hnear
    rw [inWindow_of_ahead (by omega) (by omega)] at hw
    cases hw

theorem place_reliable {c : Channel} {h : CommandHeader} {unreliable : UInt16}
    (hc : isReliable h.command = true) :
    c.place h unreliable =
      if h.reliableSequenceNumber = c.incomingReliableSequenceNumber then none
      else
        match search (reliableTurn c.incomingReliableSequenceNumber h.reliableSequenceNumber)
          c.incomingReliableCommands with
        | .between before after => some (before, after)
        | .found .. => none := by
  unfold place
  cases hcommand : h.command <;> rw [hcommand] at hc <;> first | rfl | cases hc

theorem queue_discarded {p : Inbound} {h : CommandHeader} {unreliable : UInt16} {flags : UInt32}
    {fragmentCount : Nat} {memory : Option (List UInt8)}
    (hq : peerQueueIncomingCommand p h unreliable flags fragmentCount memory = .discarded) :
    p.state = .disconnectLater ∨
      inWindow h.reliableSequenceNumber
        (p.channels h.channelID.toNat).incomingReliableSequenceNumber = false ∨
      (p.channels h.channelID.toNat).place h unreliable = none := by
  unfold peerQueueIncomingCommand at hq
  simp only at hq
  split at hq
  · next hs => exact .inl hs
  · split at hq
    · next hw =>
      refine .inr (.inl ?_)
      simpa using hw.2
    · split at hq
      · next hp => exact .inr (.inr hp)
      · split at hq
        · cases hq
        · split at hq
          · cases hq
          · split at hq <;> cases hq

/-- A number that is taken is one that is still to come. -/
theorem Receives.coming {done todo : List Parcel} {c : Channel} (h : Receives done todo c)
    {a : Arrival} (hm : (a.start, a.parcel) ∈ numbered 0 (done ++ todo))
    (ht : Timely (total done) a)
    (hw : inWindow (UInt16.ofNat a.start) c.incomingReliableSequenceNumber = true)
    (hne : UInt16.ofNat a.start ≠ c.incomingReliableSequenceNumber) :
    (a.start, a.parcel) ∈ numbered (total done) todo ∧
      a.start / 4096 < total done / 4096 + 7 := by
  rw [h.number] at hw hne
  obtain ⟨hlt, hnear⟩ := ahead_of_inWindow hw ht.past ht.future hne
  refine ⟨?_, hnear⟩
  have hcoming := numbered_of_lt hm (by omega)
  rwa [Nat.zero_add] at hcoming

theorem receive_whole {i : UInt8} {done todo : List Parcel} {p : Inbound} {a : Arrival}
    (h : Receives done todo (p.channels i.toNat)) (ht : (p.channels i.toNat).Tidy i.toNat)
    (hm : (a.start, a.parcel) ∈ numbered 0 (done ++ todo)) (htime : Timely (total done) a)
    (hf : a.parcel.fragmented = false) (allocates : Bool) :
    Outcome i.toNat done todo p a
      (protocolHandleSendReliable p i (UInt16.ofNat a.start) a.parcel.data allocates) := by
  have hindex : a.index = 0 := by
    have := a.index_lt
    rw [Parcel.count_of_whole hf] at this
    omega
  unfold protocolHandleSendReliable handleSend
  split
  · exact .error h
  · cases hq : peerQueueIncomingCommand p ⟨.sendReliable, i, UInt16.ofNat a.start⟩ 0
      packetFlagReliable 0 (if allocates then some a.parcel.data else none) with
    | error => exact .error h
    | discarded =>
      refine .same h fun hs => ?_
      rcases queue_discarded hq with hd | hw | hp
      · rw [hs] at hd
        cases hd
      · rw [h.number] at hw
        exact (outside rfl hm hw).imp .inl id
      · by_cases hw : inWindow (UInt16.ofNat a.start)
            (p.channels i.toNat).incomingReliableSequenceNumber = true
        · rw [place_reliable rfl] at hp
          by_cases hne : UInt16.ofNat a.start = (p.channels i.toNat).incomingReliableSequenceNumber
          · refine .inl (.inl ?_)
            rw [h.number] at hne
            have hnum := congrArg UInt16.toNat hne
            rw [toNat_ofNat, toNat_ofNat] at hnum
            have h₁ := htime.past
            have h₂ := htime.future
            omega
          · obtain ⟨hcoming, hnear⟩ := h.coming hm htime hw hne
            rw [if_neg hne] at hp
            split at hp
            · cases hp
            · next before e after hsearch =>
              obtain ⟨hl, hs', hfit⟩ := h.found hcoming hnear hsearch
              refine .inl (.inr ⟨e, ?_, hs', fun hc => ?_⟩)
              · rw [hl]
                exact List.mem_append_right _ List.mem_cons_self
              · rw [hfit.command, hf] at hc
                cases hc
        · rw [h.number, Bool.not_eq_true] at hw
          exact (outside rfl hm hw).imp .inl id
    | queued p' =>
      obtain ⟨before, after, data, hmem, hp, hw, hb⟩ := queued_iff hq
      have hw := hw.resolve_left fun hc => by cases hc
      have hdata : data = a.parcel.data := by
        cases allocates with
        | true => exact (Option.some.inj hmem).symm
        | false => cases hmem
      subst hdata
      rw [place_reliable rfl] at hp
      by_cases hne : UInt16.ofNat a.start = (p.channels i.toNat).incomingReliableSequenceNumber
      · rw [if_pos hne] at hp
        cases hp
      · obtain ⟨hcoming, hnear⟩ := h.coming hm htime hw hne
        rw [if_neg hne] at hp
        split at hp
        · next before' after' hsearch =>
          cases hp
          have hnew := Parcel.fits_whole hf ⟨.sendReliable, i, UInt16.ofNat a.start⟩ rfl 0
            packetFlagReliable
          have hsees : Sees (total done) a.start (queuedCommand
              ⟨.sendReliable, i, UInt16.ofNat a.start⟩ 0 packetFlagReliable 0 a.parcel.data) :=
            ⟨rfl, (numbered_bounds hcoming).1, hnear⟩
          have hl := search_between hsearch
          have hwaits := h.insert hcoming hsees hnew hsearch
          have hbelongs : ∀ e ∈ before ++ queuedCommand ⟨.sendReliable, i,
              UInt16.ofNat a.start⟩ 0 packetFlagReliable 0 a.parcel.data :: after,
              Belongs i.toNat .sendReliable e := by
            intro e he
            rcases mem_insert he with rfl | he
            · exact ⟨rfl, rfl⟩
            · refine ht.belongs .sendReliable e ?_
              show e ∈ (p.channels i.toNat).incomingReliableCommands
              rw [hl]
              exact he
          obtain ⟨mid, rest, htakes, harr⟩ := Takes.dispatch h ht hwaits hbelongs (fun s j ha => by
            rw [hl] at ha
            exact ha.insert)
          refine ⟨mid, rest, _, htakes, hb, fun _ _ => .inl ?_⟩
          refine harr _ _ _ hm a.index_lt (.inr ⟨_, List.mem_append_right _ List.mem_cons_self,
            hsees, fun hc => by cases hc⟩)
        · cases hp

theorem dispatchReliable_of_idle {R : Nat} {c : Channel}
    (hn : c.incomingReliableSequenceNumber = UInt16.ofNat R)
    (hi : Idle R c.incomingReliableCommands) : c.dispatchReliable = (c, []) := by
  unfold Channel.dispatchReliable
  rw [hn, loop_of_idle hi]
  rfl

theorem release_of_released {f : IncomingCommand → IncomingCommand} {cs : List IncomingCommand}
    (h : ∀ e ∈ cs, e.held = false) : release f cs = cs := by
  unfold release
  rw [List.map_congr_left (g := id), List.map_id]
  intro e he
  rw [h e he]
  rfl

theorem release_insert {f : IncomingCommand → IncomingCommand}
    {before after : List IncomingCommand} {e : IncomingCommand}
    (h : ∀ e ∈ before ++ after, e.held = false) (he : e.held = true) :
    release f (before ++ e :: after) = before ++ { f e with held := false } :: after := by
  have hb := release_of_released (f := f) fun e he => h e (List.mem_append_left after he)
  have ha := release_of_released (f := f) fun e he => h e (List.mem_append_right before he)
  unfold release at *
  rw [List.map_append, List.map_cons, hb, ha, he]
  rfl

/-- The first number of a packet in pieces is never the last one dispatched. -/
theorem fragmented_ne {R : Nat} {done todo : List Parcel} {a : Arrival} (hR : R = total done)
    (hm : (a.start, a.parcel) ∈ numbered 0 (done ++ todo)) (ht : Timely R a)
    (hf : a.parcel.fragmented = true) : UInt16.ofNat a.start ≠ UInt16.ofNat R := by
  intro he
  have hnum := congrArg UInt16.toNat he
  rw [toNat_ofNat, toNat_ofNat] at hnum
  have h₁ := ht.past
  have h₂ := ht.future
  have hcount := Parcel.one_lt_count hf
  rw [numbered_append, List.mem_append] at hm
  rcases hm with hm | hm
  · have := (numbered_bounds hm).2
    omega
  · have := (numbered_bounds hm).1
    omega

/-- A fragment of a packet that is already there. -/
theorem receive_stored {i : UInt8} {done todo : List Parcel} {p : Inbound} {a : Arrival}
    (h : Receives done todo (p.channels i.toNat)) (ht : (p.channels i.toNat).Tidy i.toNat)
    (hm : (a.start, a.parcel) ∈ numbered 0 (done ++ todo))
    (hcoming : (a.start, a.parcel) ∈ numbered (total done) todo)
    (hf : a.parcel.fragmented = true) {before after : List IncomingCommand} {e : IncomingCommand}
    (hl : (p.channels i.toNat).incomingReliableCommands = before ++ e :: after)
    (hs : Sees (total done) a.start e) (hfit : a.parcel.Fits e) (hnew : a.index ∉ e.fragments)
    {c : Channel} (hc : c = { p.channels i.toNat with
      incomingReliableCommands :=
        before ++ e.store (a.parcel.fragment a.index) (a.parcel.piece a.index) :: after }) :
    Outcome i.toNat done todo p a ⟨p.dispatched i.toNat
      (if (e.store (a.parcel.fragment a.index) (a.parcel.piece a.index)).fragmentsRemaining = 0
        then c.dispatchReliable else (c, [])), false⟩ := by
  subst hc
  have hfit' := hfit.store hf a.index_lt hnew
  have hwaits : Waits (total done) todo
      (before ++ e.store (a.parcel.fragment a.index) (a.parcel.piece a.index) :: after) :=
    h.replace hcoming hl rfl hs hfit'
  have hsees : Sees (total done) a.start
      (e.store (a.parcel.fragment a.index) (a.parcel.piece a.index)) :=
    ⟨hs.number, hs.ahead, hs.near⟩
  have harr : Arrived (total done) (before ++ e.store (a.parcel.fragment a.index)
      (a.parcel.piece a.index) :: after) a.start a.index :=
    .inr ⟨_, List.mem_append_right _ List.mem_cons_self, hsees,
      fun _ => Finset.mem_insert_self _ _⟩
  have hkept : ∀ s j, Arrived (total done) (p.channels i.toNat).incomingReliableCommands s j →
      Arrived (total done) (before ++ e.store (a.parcel.fragment a.index)
        (a.parcel.piece a.index) :: after) s j := by
    intro s j ha
    rw [hl] at ha
    exact ha.store _ _
  split
  · have hbelongs : ∀ e' ∈ before ++ e.store (a.parcel.fragment a.index)
        (a.parcel.piece a.index) :: after, Belongs i.toNat .sendReliable e' := by
      intro e' he'
      have hmem : ∀ e' ∈ before ++ e :: after, Belongs i.toNat .sendReliable e' := fun e' he' =>
        ht.belongs .sendReliable e' (by
          show e' ∈ (p.channels i.toNat).incomingReliableCommands
          rw [hl]
          exact he')
      rcases mem_insert he' with rfl | he'
      · exact hmem e (List.mem_append_right _ List.mem_cons_self)
      · refine hmem e' ?_
        simp only [List.mem_append, List.mem_cons] at *
        tauto
    obtain ⟨mid, rest, htakes, harrived⟩ := Takes.dispatch h ht hwaits hbelongs hkept
    exact ⟨mid, rest, _, htakes, dispatched_became p _ _,
      fun _ _ => .inl (harrived _ _ _ hm a.index_lt harr)⟩
  · next hz =>
    have hidle := h.idle
    rw [hl] at hidle
    refine ⟨[], todo, _, .wait h hwaits (idle_replace hidle hz) hkept, dispatched_became p _ _,
      fun _ _ => .inl ?_⟩
    rw [List.append_nil]
    exact harr

/-- The first fragment of a packet to arrive. -/
theorem receive_opened {i : UInt8} {done todo : List Parcel} {p p' : Inbound} {a : Arrival}
    (h : Receives done todo (p.channels i.toNat)) (ht : (p.channels i.toNat).Tidy i.toNat)
    (hcoming : (a.start, a.parcel) ∈ numbered (total done) todo)
    (hnear : a.start / 4096 < total done / 4096 + 7) (hf : a.parcel.fragmented = true)
    {before after : List IncomingCommand} (hsearch : search (reliableTurn
        (p.channels i.toNat).incomingReliableSequenceNumber (UInt16.ofNat a.start))
      (p.channels i.toNat).incomingReliableCommands = .between before after)
    {memory : List UInt8} (hmemory : memory.length = a.parcel.data.length) {new : IncomingCommand}
    (hnew : new = queuedCommand ⟨.sendFragment, i, UInt16.ofNat a.start⟩ 0 packetFlagReliable
      a.parcel.count memory)
    (hb : p.Became p' i.toNat (((p.channels i.toNat).withCommands .sendFragment
      (before ++ new :: after)).dispatch .sendFragment)) :
    Outcome i.toNat done todo p a ⟨p'.dispatched i.toNat ({ p'.channels i.toNat with
      incomingReliableCommands := release
        (fun e => e.store (a.parcel.fragment a.index) (a.parcel.piece a.index))
        (p'.channels i.toNat).incomingReliableCommands }, []), false⟩ := by
  have hl := search_between hsearch
  have hcount := Parcel.one_lt_count hf
  have hopened : a.parcel.Fits new := by
    rw [hnew]
    exact Parcel.fits_opened hf _ rfl 0 packetFlagReliable memory hmemory
  have hempty : new.fragments = ∅ := by rw [hnew]; rfl
  have hremaining : new.fragmentsRemaining = a.parcel.count := by rw [hnew]; rfl
  have hheld : new.held = true := by
    rw [hnew]
    exact decide_eq_true (by omega)
  have hsees : Sees (total done) a.start new :=
    ⟨by rw [hnew]; rfl, (numbered_bounds hcoming).1, hnear⟩
  have hold := h.idle
  rw [hl] at hold
  -- The new command is incomplete before and after its first fragment.
  have hdispatch := dispatchReliable_of_idle
    (c := (p.channels i.toNat).withCommands .sendFragment (before ++ new :: after)) h.number
    (idle_insert hold (by omega))
  have hchannel : p'.channels i.toNat =
      (p.channels i.toNat).withCommands .sendFragment (before ++ new :: after) :=
    hb.channel_self.trans (congrArg Prod.fst hdispatch)
  have hnothing : p'.dispatchedCommands = p.dispatchedCommands ++ [] :=
    hb.dispatchedCommands.trans (congrArg (p.dispatchedCommands ++ ·) (congrArg Prod.snd hdispatch))
  have hreleased : ∀ e ∈ before ++ after, e.held = false := by
    intro e he
    refine ht.released .sendReliable e ?_
    show e ∈ (p.channels i.toNat).incomingReliableCommands
    rw [hl]
    exact he
  have hrelease := release_insert (e := new)
    (f := fun e => e.store (a.parcel.fragment a.index) (a.parcel.piece a.index)) hreleased hheld
  obtain ⟨stored, hstored⟩ : ∃ e, e = { new.store (a.parcel.fragment a.index)
      (a.parcel.piece a.index) with held := false } := ⟨_, rfl⟩
  rw [← hstored] at hrelease
  have hfit : a.parcel.Fits stored := by
    rw [hstored]
    exact (hopened.store hf a.index_lt (by rw [hempty]; exact Finset.notMem_empty _)).released
  have hsees' : Sees (total done) a.start stored := by
    rw [hstored]
    exact ⟨hsees.number, hsees.ahead, hsees.near⟩
  have hincomplete : stored.fragmentsRemaining ≠ 0 := by
    rw [hstored]
    show new.fragmentsRemaining - 1 ≠ 0
    omega
  have hresult : { p'.channels i.toNat with
      incomingReliableCommands := release
        (fun e => e.store (a.parcel.fragment a.index) (a.parcel.piece a.index))
        (p'.channels i.toNat).incomingReliableCommands } =
      { p.channels i.toNat with incomingReliableCommands := before ++ stored :: after } := by
    rw [hchannel, ← hrelease]
    rfl
  rw [hresult]
  refine ⟨[], todo, _, .wait h (h.insert hcoming hsees' hfit hsearch)
    (idle_insert hold hincomplete) ?_, ⟨?_, ?_, hb.state, hb.channelCount⟩, fun _ _ => .inl ?_⟩
  · intro s j ha
    rw [hl] at ha
    exact ha.insert
  · show Function.update p'.channels i.toNat _ = _
    rw [hb.channels, Function.update_idem]
  · show p'.dispatchedCommands ++ [] = _
    rw [hnothing, List.append_nil]
  · rw [List.append_nil]
    refine .inr ⟨stored, List.mem_append_right _ List.mem_cons_self, hsees', fun _ => ?_⟩
    rw [hstored]
    exact Finset.mem_insert_self _ _

theorem receive_fragment {i : UInt8} {done todo : List Parcel} {p : Inbound} {a : Arrival}
    (h : Receives done todo (p.channels i.toNat)) (ht : (p.channels i.toNat).Tidy i.toNat)
    (hm : (a.start, a.parcel) ∈ numbered 0 (done ++ todo)) (htime : Timely (total done) a)
    (hf : a.parcel.fragmented = true) (memory : Option (Nat → UInt8)) :
    Outcome i.toNat done todo p a (protocolHandleSendFragment p i (UInt16.ofNat a.start)
      (a.parcel.fragment a.index) (a.parcel.piece a.index) memory) := by
  have hne := fragmented_ne rfl hm htime hf
  rw [← h.number] at hne
  unfold protocolHandleSendFragment
  simp only
  split
  · exact .error h
  · split
    · next hw =>
      refine .same h fun _ => ?_
      rw [h.number] at hw
      exact (outside rfl hm (by simpa using hw)).imp .inl id
    · next hw =>
      obtain ⟨hcoming, hnear⟩ := h.coming hm htime (by simpa using hw) hne
      split
      · exact .error h
      · split
        · next before e after hsearch =>
          obtain ⟨hl, hs, hfit⟩ := h.found hcoming hnear hsearch
          split
          · exact .error h
          · split
            · next hbit =>
              refine .same h fun _ => .inl (.inr ⟨e, ?_, hs, fun _ => hbit⟩)
              rw [hl]
              exact List.mem_append_right _ List.mem_cons_self
            · next hbit => exact receive_stored h ht hm hcoming hf hl hs hfit hbit rfl
        · next before after hsearch =>
          split
          · exact .error h
          · exact .error h
          · next p' hq =>
            obtain ⟨before', after', data, hmem, hp, -, hb⟩ := queued_iff hq
            rw [place_reliable rfl, if_neg hne] at hp
            simp only [hsearch, Option.some.injEq, Prod.mk.injEq] at hp
            obtain ⟨rfl, rfl⟩ := hp
            have hcount := Parcel.one_lt_count hf
            rw [if_neg (by
              show a.parcel.count ≠ 1
              omega)]
            refine receive_opened h ht hcoming hnear hf hsearch ?_ rfl hb
            obtain ⟨m, -, hdata⟩ := Option.map_eq_some_iff.mp hmem
            rw [← hdata, List.length_map, List.length_range]
            rfl

/-- A command of the stream that arrives in time keeps the invariant. -/
theorem receive_outcome {i : UInt8} {done todo : List Parcel} {p : Inbound} {a : Arrival}
    (h : Receives done todo (p.channels i.toNat)) (ht : (p.channels i.toNat).Tidy i.toNat)
    (hm : (a.start, a.parcel) ∈ numbered 0 (done ++ todo)) (htime : Timely (total done) a)
    (memory : Option (Nat → UInt8)) :
    Outcome i.toNat done todo p a (receive p i a memory) := by
  unfold receive
  split
  · next hf => exact receive_fragment h ht hm htime hf memory
  · next hf => exact receive_whole h ht hm htime (by simpa using hf) _

end Transport
