import GDNet.Transport.Sequence

/-!
# Receiving the sequence

What each handler does with the packets that wait and are not reliable.  A reliable
packet that comes out lets those behind it come out and ends the waiting of those
before it; an unreliable one comes out as soon as it is complete, or waits.
-/

namespace Transport
open ENet (PeerState Packet ProtocolCommand packetFlagUnreliableFragment packetFlagUnsequenced)
open Search Channel

/-! ## The stream -/

theorem spoken_reliable {i : Nat} {es : List IncomingCommand}
    (h : ∀ e ∈ es, Belongs i .sendReliable e) :
    spoken i es = es.map fun e => (true, e.packet.data) := by
  refine spoken_all fun e he => ?_
  obtain ⟨h₁, h₂⟩ := h e he
  refine ⟨h₁, fun hc => ?_, h₂⟩
  rw [hc] at h₂
  cases h₂

/-- A dispatch of reliable commands, with what it does to the others. -/
theorem dispatchReliable_eq (c : Channel) :
    c.dispatchReliable =
      let r := dispatchReliableLoop c.incomingReliableSequenceNumber c.incomingReliableCommands
      let c' := { c with
        incomingReliableSequenceNumber := r.1
        incomingUnreliableSequenceNumber := 0
        incomingReliableCommands := r.2.2 }
      if r.2.1 = [] then (c, [])
      else (c'.dispatchUnreliable.1, r.2.1 ++ c'.dispatchUnreliable.2) := by
  unfold Channel.dispatchReliable
  simp only
  split
  · rfl
  · split
    · next hnil =>
      rw [dispatchUnreliable_eq]
      simp only [hnil, ready, settle, reached, List.append_nil]
    · rfl

section
variable {i : Nat} {done todo mid rest : List Parcel} {course : List Entry} {c : Channel}
  {r : Channel × List IncomingCommand}

/-- An unreliable packet has a number. -/
theorem placed_unreliable {s p : Nat × Nat} {es : List Entry} {e : Entry}
    (h : (p, e) ∈ placed s es) (he : e.reliably = false) : 0 < p.2 := by
  induction es generalizing s with
  | nil => cases h
  | cons d es ih =>
    rcases List.mem_cons.mp h with heq | h
    · cases heq
      unfold Entry.after
      rw [he]
      exact Nat.succ_pos _
    · exact ih h

theorem Takes.speaks (ht : Takes i done todo c mid rest r)
    (hq : Quiet (total done) (placed (0, 0) course) c) (hplan : reliables course = done ++ todo)
    (hfar : total (done ++ mid) / 4096 ≤ total done / 4096 + 9)
    (hi : ∀ e ∈ c.incomingUnreliableCommands, e.channelID.toNat = i) :
    Speaks i (total done) (total (done ++ mid)) (placed (0, 0) course) c r := by
  have htotal := total_append done mid
  -- Nothing comes out.
  have hidle : ∀ cs, r = ({ c with incomingReliableCommands := cs }, []) →
      Speaks i (total done) (total (done ++ mid)) (placed (0, 0) course) c r := by
    rintro cs rfl
    have hmid : mid = [] := List.map_eq_nil_iff.mp ht.logged.symm
    subst hmid
    rw [List.append_nil]
    exact .silent ⟨hq.number, hq.lingers, hq.partly⟩ rfl rfl
  rcases ht.aside with ⟨cs, hr⟩ | ⟨cs, hb, hr⟩
  · exact hidle cs hr
  · rw [dispatchReliable_eq] at hr
    simp only at hr
    obtain ⟨l, hl⟩ : ∃ l, l = dispatchReliableLoop c.incomingReliableSequenceNumber cs := ⟨_, rfl⟩
    have happend := dispatchReliableLoop_append c.incomingReliableSequenceNumber cs
    rw [← hl] at hr happend
    split at hr
    · exact hidle cs hr
    · next hsome =>
      obtain ⟨c', hc'⟩ : ∃ c' : Channel, c' = { c with
        incomingReliableSequenceNumber := l.1
        incomingUnreliableSequenceNumber := 0
        incomingReliableCommands := l.2.2 } := ⟨_, rfl⟩
      rw [← hc'] at hr
      have hlist : c'.incomingUnreliableCommands = c.incomingUnreliableCommands := by rw [hc']
      have hzero : c'.incomingUnreliableSequenceNumber = 0 := by rw [hc']
      have hnumber : c'.incomingReliableSequenceNumber = UInt16.ofNat (total (done ++ mid)) := by
        rw [← ht.receives.number, hr]
        exact (dispatchUnreliable_number c').symm
      have hspeaks : Speaks i (total (done ++ mid)) (total (done ++ mid)) (placed (0, 0) course) c'
          c'.dispatchUnreliable := by
        refine Lingers.dispatch (R := total done) (hlist ▸ hq.lingers) hnumber (by omega) hfar ?_
          (hlist ▸ hi)
        intro e he _
        rw [hlist] at he
        obtain ⟨p, q, hm, hf, -, -⟩ := hq.lingers.follows e he
        have hpos := placed_unreliable hm rfl
        rw [hzero, hf.unreliable]
        exact hpos
      -- The reliable packets that come out are `mid`.
      have hreliable : ∀ e ∈ l.2.1, Belongs i .sendReliable e := fun e he =>
        hb e (happend ▸ List.mem_append_left _ he)
      have hspoken : spoken i l.2.1 = (ends (total done) mid).map fun o => o.2.said := by
        have hlogged := ht.logged
        rw [hr, logged_append, logged_reliable hreliable, logged_nil, List.append_nil] at hlogged
        · have hmap := congrArg (List.map fun d => (true, d)) hlogged
          rw [List.map_map, List.map_map] at hmap
          rw [ends_said, spoken_reliable hreliable]
          exact hmap
        · intro e he _
          have hmem := dispatchUnreliable_mem c' e (.inr he)
          rw [hlist] at hmem
          obtain ⟨p, q, -, -, -, hk⟩ := hq.lingers.follows e hmem
          rw [hk]
          unfold Parcel.unreliableCommand
          split <;> rfl
      have hmid : 0 < total mid := by
        cases hm : mid with
        | nil =>
          have hnone := hspoken
          rw [hm, spoken_reliable hreliable] at hnone
          exact absurd (List.map_eq_nil_iff.mp hnone) hsome
        | cons q qs =>
          have hpos := q.count_pos
          rw [total]
          omega
      obtain ⟨outs, hsaid, hord, hout⟩ := hspeaks.heard
      have hcursor : cursor (total (done ++ mid)) c' = (total (done ++ mid), 0) := by
        unfold cursor
        rw [hzero]
        rfl
      rw [hr]
      refine ⟨hspeaks.quiet, ⟨ends (total done) mid ++ outs, ?_, ?_, ?_⟩, .inl ?_⟩
      · rw [spoken_append, hspoken, hsaid, List.map_append]
      · refine List.pairwise_append.mpr ⟨ends_ordered _ _, hord, fun o ho o' ho' => ?_⟩
        have hb := ends_bounds ho
        have hlater := (hout o' ho').2.1
        rw [hcursor] at hlater
        refine upto.earlier (b := (total (done ++ mid), 0)) ?_ hlater
        unfold upto
        omega
      · intro o ho
        rcases List.mem_append.mp ho with ho | ho
        · have hb := ends_bounds ho
          obtain ⟨s, p, hm, rfl⟩ := mem_ends ho
          refine ⟨placed_reliable ?_, .inl hb.1, ?_⟩
          · rw [hplan, ht.split, ← List.append_assoc, numbered_append, numbered_append]
            refine List.mem_append_left _ (List.mem_append_right _ ?_)
            rw [Nat.zero_add]
            exact hm
          · refine upto.trans (b := (total (done ++ mid), 0)) ?_ ?_
            · unfold upto
              omega
            · exact .inr ⟨rfl, Nat.zero_le _⟩
        · obtain ⟨hp, hlater, hle⟩ := hout o ho
          refine ⟨hp, ?_, hle⟩
          rw [hcursor] at hlater
          unfold earlier cursor at *
          simp only at *
          omega
      · show total done < total (done ++ mid)
        omega

end

/-! ## Places among what waits -/

/-- The key by which the search compares. -/
def rank (current : UInt16) (e : IncomingCommand) : Nat :=
  distance current e * 65536 + e.unreliableSequenceNumber.toNat

theorem unreliableTurn_eq (current number unreliable : UInt16) (e : IncomingCommand) :
    unreliableTurn current number unreliable e = compareKey (rank current)
      (Serial.offset 65536 current.toNat number.toNat * 65536 + unreliable.toNat) e := by
  have h₁ := current.toNat_lt
  have h₂ := number.toNat_lt
  have h₃ := e.reliableSequenceNumber.toNat_lt
  have h₄ := unreliable.toNat_lt
  have h₅ := e.unreliableSequenceNumber.toNat_lt
  unfold unreliableTurn compareKey rank distance Serial.offset
  simp only [ge_iff_le, gt_iff_lt, UInt16.le_iff_toNat_le, UInt16.lt_iff_toNat_lt]
  split_ifs <;> first | rfl | omega

section
variable {T : Nat} {p : Nat × Nat} {course : List Entry} {c : Channel} {q : Parcel}
  {e : IncomingCommand} {before after : List IncomingCommand}

theorem Follows.rank (h : Follows T p e) : rank (UInt16.ofNat T) e = (p.1 - T) * 65536 + p.2 := by
  have hspot := h.spot
  have hd := congrArg Prod.fst hspot
  change T + distance (UInt16.ofNat T) e = p.1 at hd
  rw [Transport.rank, h.unreliable, show distance (UInt16.ofNat T) e = p.1 - T by omega]

theorem rank_lt_iff {e e' : IncomingCommand} :
    rank (UInt16.ofNat T) e < rank (UInt16.ofNat T) e' ↔ earlier (spot T e) (spot T e') := by
  have h₁ := e.unreliableSequenceNumber.toNat_lt
  have h₂ := e'.unreliableSequenceNumber.toNat_lt
  unfold rank earlier spot
  simp only
  omega

theorem Quiet.search_at (h : Quiet T (placed (0, 0) course) c) (hT : T ≤ p.1)
    (hnear : p.1 / 4096 < T / 4096 + 7) (hp : p.2 < 65536) :
    (search (unreliableTurn c.incomingReliableSequenceNumber (UInt16.ofNat p.1)
      (UInt16.ofNat p.2)) c.incomingUnreliableCommands).At (Transport.rank (UInt16.ofNat T))
        ((p.1 - T) * 65536 + p.2) := by
  have hoff : Serial.offset 65536 (UInt16.ofNat T).toNat (UInt16.ofNat p.1).toNat = p.1 - T := by
    rw [toNat_ofNat, toNat_ofNat]
    exact Serial.offset_of_le hT (by omega)
  have hu : (UInt16.ofNat p.2).toNat = p.2 := by
    rw [toNat_ofNat]
    exact Nat.mod_eq_of_lt hp
  refine Search.search_at (fun e _ => ?_) (h.lingers.ordered.imp fun h => rank_lt_iff.mpr h)
  rw [h.number, unreliableTurn_eq, hoff, hu]

/-- A command put at its place keeps the order. -/
theorem Quiet.insert (h : Quiet T (placed (0, 0) course) c)
    (hm : (p, ⟨false, q⟩) ∈ placed (0, 0) course) (hf : Follows T p e) (hp : p.2 < 65536)
    (hq : q.Holds e) (hk : e.command = q.unreliableCommand)
    (hsearch : search (unreliableTurn c.incomingReliableSequenceNumber (UInt16.ofNat p.1)
      (UInt16.ofNat p.2)) c.incomingUnreliableCommands = .between before after) :
    Lingers T (placed (0, 0) course) (before ++ e :: after) := by
  have hl := search_between hsearch
  have hat := h.search_at hf.ahead hf.near hp
  rw [hsearch, ← hf.rank] at hat
  have ho : Ordered (Transport.rank (UInt16.ofNat T)) (before ++ after) :=
    (hl ▸ h.lingers.ordered).imp fun h => rank_lt_iff.mpr h
  refine ⟨(Ordered.insert ho hat).imp fun h => rank_lt_iff.mp h, fun e' he' => ?_⟩
  rcases mem_insert he' with rfl | he'
  · exact ⟨p, q, hm, hf, hq, hk⟩
  · exact h.lingers.follows e' (hl ▸ he')

/-- The command found is the one of the packet. -/
theorem Quiet.found (h : Quiet T (placed (0, 0) course) c)
    (hm : (p, ⟨false, q⟩) ∈ placed (0, 0) course) (hT : T ≤ p.1)
    (hnear : p.1 / 4096 < T / 4096 + 7) (hp : p.2 < 65536)
    (hsearch : search (unreliableTurn c.incomingReliableSequenceNumber (UInt16.ofNat p.1)
      (UInt16.ofNat p.2)) c.incomingUnreliableCommands = .found before e after) :
    c.incomingUnreliableCommands = before ++ e :: after ∧ Follows T p e ∧ q.Holds e ∧
      e.command = q.unreliableCommand := by
  have hl := search_found hsearch
  have hat := h.search_at hT hnear hp
  rw [hsearch] at hat
  have he : e ∈ c.incomingUnreliableCommands := by
    rw [hl]
    exact List.mem_append_right _ List.mem_cons_self
  obtain ⟨p', q', hm', hf, hq, hk⟩ := h.lingers.follows e he
  have hrank := hf.rank.symm.trans hat.2.1
  have hahead := hf.ahead
  have hlt := e.unreliableSequenceNumber.toNat_lt
  rw [hf.unreliable] at hlt
  have hsame : p' = p := Prod.ext (by omega) (by omega)
  subst hsame
  have hentry := placed_unique hm' hm
  cases hentry
  exact ⟨hl, hf, hq, hk⟩

/-- Commands may change what is not their place. -/
theorem Lingers.map {cs : List IncomingCommand} {f : IncomingCommand → IncomingCommand}
    {places : List ((Nat × Nat) × Entry)} (h : Lingers T places cs)
    (hn : ∀ e, (f e).reliableSequenceNumber = e.reliableSequenceNumber)
    (hu : ∀ e, (f e).unreliableSequenceNumber = e.unreliableSequenceNumber)
    (hk : ∀ e, (f e).command = e.command)
    (hq : ∀ e ∈ cs, ∀ p q, (p, ⟨false, q⟩) ∈ places → Follows T p e → q.Holds e →
      q.Holds (f e)) : Lingers T places (cs.map f) := by
  have hspot : ∀ e, spot T (f e) = spot T e := by
    intro e
    unfold spot distance
    rw [hn, hu]
  refine ⟨List.pairwise_map.mpr (h.ordered.imp fun {a b} hab => ?_), fun e he => ?_⟩
  · rw [hspot, hspot]
    exact hab
  · obtain ⟨e', he', rfl⟩ := List.mem_map.mp he
    obtain ⟨p, q, hm, hf, hh, hc⟩ := h.follows e' he'
    exact ⟨p, q, hm, ⟨(hn e').trans hf.number, (congrArg UInt16.toNat (hu e')).trans hf.unreliable,
      hf.ahead, hf.near⟩, hq e' he' p q hm hf hh, (hk e').trans hc⟩

end

theorem dispatchUnreliable_sublist (c : Channel) :
    c.dispatchUnreliable.1.incomingUnreliableCommands.Sublist c.incomingUnreliableCommands := by
  rw [dispatchUnreliable_eq]
  exact settle_sublist c.incomingReliableSequenceNumber [] c.incomingUnreliableCommands

/-! ## Arrivals -/

/-- A command of a packet that is not sent reliably. -/
structure Stray where
  place : Nat × Nat
  parcel : Parcel
  index : Nat
  index_lt : index < parcel.count

/-- The handler of such a command. -/
def overhear (p : Inbound) (channelID : UInt8) (a : Stray) (memory : Option (Nat → UInt8)) :
    Option Handled :=
  if a.parcel.fragmented then
    protocolHandleSendUnreliableFragment p channelID (UInt16.ofNat a.place.1)
      (UInt16.ofNat a.place.2) (a.parcel.fragment a.index) (a.parcel.piece a.index) memory
  else
    some (protocolHandleSendUnreliable p channelID (UInt16.ofNat a.place.1)
      (UInt16.ofNat a.place.2) a.parcel.data memory.isSome)

/-- It arrives neither nine windows late nor a turn of the numbers early. -/
structure Stray.Timely (T : Nat) (a : Stray) : Prop where
  past : T / 4096 ≤ a.place.1 / 4096 + 9
  future : a.place.1 < T + 65536

theorem Stray.Timely.of_inWindow {T : Nat} {a : Stray} (h : a.Timely T)
    (hw : inWindow (UInt16.ofNat a.place.1) (UInt16.ofNat T) = true) :
    T ≤ a.place.1 ∧ a.place.1 / 4096 < T / 4096 + 7 := by
  have h₁ := h.past
  have h₂ := h.future
  by_cases heq : UInt16.ofNat a.place.1 = UInt16.ofNat T
  · have hmod := congrArg UInt16.toNat heq
    rw [toNat_ofNat, toNat_ofNat] at hmod
    omega
  · have := ahead_of_inWindow hw h₁ h₂ heq
    omega

theorem place_unreliable {c : Channel} {h : CommandHeader} {unreliable : UInt16}
    {before after : List IncomingCommand}
    (hk : h.command = .sendUnreliable ∨ h.command = .sendUnreliableFragment)
    (hp : c.place h unreliable = some (before, after)) :
    ¬(h.reliableSequenceNumber = c.incomingReliableSequenceNumber ∧
        unreliable ≤ c.incomingUnreliableSequenceNumber) ∧
      search (unreliableTurn c.incomingReliableSequenceNumber h.reliableSequenceNumber unreliable)
        c.incomingUnreliableCommands = .between before after := by
  unfold Channel.place at hp
  rcases hk with hk | hk <;> rw [hk] at hp <;> simp only at hp
  all_goals
    split at hp
    · cases hp
    · next hold =>
      refine ⟨hold, ?_⟩
      split at hp
      · next hs =>
        cases hp
        exact hs
      · cases hp

section
variable {T : Nat} {course : List Entry} {i : UInt8} {p : Inbound} {a : Stray}

/-- What is queued, seen from the number of the channel. -/
theorem Stray.follows (hu : a.place.2 < 65536) (hT : T ≤ a.place.1)
    (hnear : a.place.1 / 4096 < T / 4096 + 7) {k : ProtocolCommand} {flags : UInt32} {count : Nat}
    {data : List UInt8} :
    Follows T a.place (queuedCommand ⟨k, i, UInt16.ofNat a.place.1⟩ (UInt16.ofNat a.place.2) flags
      count data) := by
  refine ⟨rfl, ?_, hT, hnear⟩
  show (UInt16.ofNat a.place.2).toNat = a.place.2
  rw [toNat_ofNat]
  exact Nat.mod_eq_of_lt hu

/-- A command is queued and what is ready comes out. -/
theorem queued_speaks (hq : Quiet T (placed (0, 0) course) (p.channels i.toNat))
    (ht : (p.channels i.toNat).Tidy i.toNat)
    (hm : (a.place, ⟨false, a.parcel⟩) ∈ placed (0, 0) course) (hu : a.place.2 < 65536)
    (htime : a.Timely T) {k : ProtocolCommand} (hk : k = a.parcel.unreliableCommand)
    {flags : UInt32} {count : Nat} {data : List UInt8} {before after : List IncomingCommand}
    (hw : inWindow (UInt16.ofNat a.place.1)
      (p.channels i.toNat).incomingReliableSequenceNumber = true)
    (hp : (p.channels i.toNat).place ⟨k, i, UInt16.ofNat a.place.1⟩ (UInt16.ofNat a.place.2) =
      some (before, after)) {new : IncomingCommand}
    (hnew : new = queuedCommand ⟨k, i, UInt16.ofNat a.place.1⟩ (UInt16.ofNat a.place.2) flags count
      data) (hholds : a.parcel.Holds new) :
    Follows T a.place new ∧ (p.channels i.toNat).incomingUnreliableCommands = before ++ after ∧
      Speaks i.toNat T T (placed (0, 0) course) (p.channels i.toNat)
        { p.channels i.toNat with
          incomingUnreliableCommands := before ++ new :: after }.dispatchUnreliable := by
  have hkind : k = .sendUnreliable ∨ k = .sendUnreliableFragment := by
    rw [hk]
    unfold Parcel.unreliableCommand
    split
    · exact .inr rfl
    · exact .inl rfl
  rw [hq.number] at hw
  obtain ⟨hT, hnear⟩ := htime.of_inWindow hw
  have hfollows : Follows T a.place new := hnew ▸ Stray.follows hu hT hnear
  obtain ⟨hold, hsearch⟩ := place_unreliable hkind hp
  have hl := search_between hsearch
  have hlingers := hq.insert hm hfollows hu hholds (by rw [hnew]; exact hk) hsearch
  refine ⟨hfollows, hl, ?_⟩
  have hspeaks := Lingers.dispatch (i := i.toNat) (R := T) (T := T)
    (c := { p.channels i.toNat with incomingUnreliableCommands := before ++ new :: after })
    hlingers hq.number (Nat.le_refl T) (by omega) (fun e he hnum => ?_) fun e he => ?_
  · exact ⟨hspeaks.quiet, hspeaks.heard, hspeaks.onward⟩
  · rcases mem_insert he with rfl | he
    · rw [hnew] at hnum ⊢
      have hnot : ¬UInt16.ofNat a.place.2 ≤
          (p.channels i.toNat).incomingUnreliableSequenceNumber := fun hle =>
        hold ⟨hnum.trans hq.number.symm, hle⟩
      rw [UInt16.le_iff_toNat_le, Nat.not_le] at hnot
      exact hnot
    · exact (hq.partly e (hl ▸ he) hnum).2
  · rcases mem_insert he with rfl | he
    · rw [hnew]
      rfl
    · have hmem : e ∈ (p.channels i.toNat).incomingUnreliableCommands := hl ▸ he
      exact (ht.belongs .sendUnreliable e hmem).1

theorem overhear_whole (hq : Quiet T (placed (0, 0) course) (p.channels i.toNat))
    (ht : (p.channels i.toNat).Tidy i.toNat)
    (hm : (a.place, ⟨false, a.parcel⟩) ∈ placed (0, 0) course) (hu : a.place.2 < 65536)
    (htime : a.Timely T) (hf : a.parcel.fragmented = false) (allocates : Bool) :
    ∃ r, Speaks i.toNat T T (placed (0, 0) course) (p.channels i.toNat) r ∧
      p.Became (protocolHandleSendUnreliable p i (UInt16.ofNat a.place.1) (UInt16.ofNat a.place.2)
        a.parcel.data allocates).peer i.toNat r := by
  have hsame : ∃ r, Speaks i.toNat T T (placed (0, 0) course) (p.channels i.toNat) r ∧
      p.Became p i.toNat r := ⟨_, .silent hq rfl rfl, .same p i.toNat⟩
  unfold protocolHandleSendUnreliable handleSend
  split
  · exact hsame
  · cases hqueue : peerQueueIncomingCommand p ⟨.sendUnreliable, i, UInt16.ofNat a.place.1⟩
      (UInt16.ofNat a.place.2) 0 0 (if allocates then some a.parcel.data else none) with
    | error => exact hsame
    | discarded => exact hsame
    | queued p' =>
      obtain ⟨before, after, data, hmem, hp, hw, hb⟩ := queued_iff hqueue
      have hw := hw.resolve_left fun hc => by cases hc
      have hdata : data = a.parcel.data := by
        cases allocates with
        | true => exact (Option.some.inj hmem).symm
        | false => cases hmem
      subst hdata
      have hkind : ProtocolCommand.sendUnreliable = a.parcel.unreliableCommand := by
        unfold Parcel.unreliableCommand
        rw [hf]
        rfl
      obtain ⟨-, -, hspeaks⟩ := queued_speaks hq ht hm hu htime hkind hw hp rfl
        (Parcel.holds_whole hf _ _ _)
      exact ⟨_, hspeaks, hb⟩

/-- A fragment of a packet that waits. -/
theorem overhear_stored (hq : Quiet T (placed (0, 0) course) (p.channels i.toNat))
    (ht : (p.channels i.toNat).Tidy i.toNat)
    (hm : (a.place, ⟨false, a.parcel⟩) ∈ placed (0, 0) course)
    (hf : a.parcel.fragmented = true) {e : IncomingCommand} {before after : List IncomingCommand}
    (hl : (p.channels i.toNat).incomingUnreliableCommands = before ++ e :: after)
    (hfollows : Follows T a.place e) (hholds : a.parcel.Holds e)
    (hk : e.command = a.parcel.unreliableCommand) (hnew : a.index ∉ e.fragments) {c : Channel}
    (hc : c = { p.channels i.toNat with
      incomingUnreliableCommands :=
        before ++ e.store (a.parcel.fragment a.index) (a.parcel.piece a.index) :: after }) :
    Speaks i.toNat T T (placed (0, 0) course) (p.channels i.toNat)
      (if (e.store (a.parcel.fragment a.index) (a.parcel.piece a.index)).fragmentsRemaining = 0
        then c.dispatchUnreliable else (c, [])) := by
  subst hc
  obtain ⟨stored, hstored⟩ :
    ∃ s, s = e.store (a.parcel.fragment a.index) (a.parcel.piece a.index) := ⟨_, rfl⟩
  have hnumber : stored.reliableSequenceNumber = e.reliableSequenceNumber := by rw [hstored]; rfl
  have hunreliable : stored.unreliableSequenceNumber = e.unreliableSequenceNumber := by
    rw [hstored]
    rfl
  have hrest : ∀ e' ∈ before ++ after, e' ∈ (p.channels i.toNat).incomingUnreliableCommands := by
    intro e' he'
    rw [hl]
    simp only [List.mem_append, List.mem_cons] at *
    tauto
  have hmem : e ∈ (p.channels i.toNat).incomingUnreliableCommands := by
    rw [hl]
    exact List.mem_append_right _ List.mem_cons_self
  have hlingers : Lingers T (placed (0, 0) course) (before ++ stored :: after) := by
    have ho := hq.lingers.ordered
    rw [hl] at ho
    have hspot : spot T stored = spot T e := by
      unfold spot distance
      rw [hnumber, hunreliable]
    obtain ⟨hb, ha, hba⟩ := List.pairwise_append.mp ho
    obtain ⟨hea, ha⟩ := List.pairwise_cons.mp ha
    refine ⟨List.pairwise_append.mpr ⟨hb, List.pairwise_cons.mpr ⟨?_, ha⟩, ?_⟩, fun e' he' => ?_⟩
    · intro e' he'
      rw [hspot]
      exact hea e' he'
    · intro b hbf e' he'
      rcases List.mem_cons.mp he' with rfl | he'
      · rw [hspot]
        exact hba b hbf e List.mem_cons_self
      · exact hba b hbf e' (List.mem_cons_of_mem _ he')
    · rcases mem_insert he' with rfl | he'
      · refine ⟨a.place, a.parcel, hm, ⟨hnumber.trans hfollows.number,
          (congrArg UInt16.toNat hunreliable).trans hfollows.unreliable, hfollows.ahead,
          hfollows.near⟩, ?_, ?_⟩
        · rw [hstored]
          exact hholds.store hf a.index_lt hnew
        · rw [hstored]
          exact hk
      · exact hq.lingers.follows e' (hrest e' he')
  rw [← hstored]
  have hfresh : ∀ e' ∈ before ++ stored :: after, e'.reliableSequenceNumber = UInt16.ofNat T →
      (p.channels i.toNat).incomingUnreliableSequenceNumber.toNat <
        e'.unreliableSequenceNumber.toNat := by
    intro e' he' hnum
    rcases mem_insert he' with rfl | he'
    · rw [hnumber] at hnum
      rw [hunreliable]
      exact (hq.partly e hmem hnum).2
    · exact (hq.partly e' (hrest e' he') hnum).2
  split
  · have hspeaks := Lingers.dispatch (i := i.toNat) (R := T) (T := T)
      (c := { p.channels i.toNat with incomingUnreliableCommands := before ++ stored :: after })
      hlingers hq.number (Nat.le_refl T) (by omega) hfresh fun e' he' => ?_
    · exact ⟨hspeaks.quiet, hspeaks.heard, hspeaks.onward⟩
    · rcases mem_insert he' with rfl | he'
      · rw [hstored]
        exact (ht.belongs .sendUnreliable e hmem).1
      · exact (ht.belongs .sendUnreliable e' (hrest e' he')).1
  · next hz =>
    refine .silent ⟨hq.number, hlingers, fun e' he' hnum => ⟨?_, hfresh e' he' hnum⟩⟩ rfl rfl
    rcases mem_insert he' with rfl | he'
    · exact hz
    · exact (hq.partly e' (hrest e' he') hnum).1

/-- The first fragment of a packet to arrive, if the packet was not freed at once. -/
theorem overhear_opened (ht : (p.channels i.toNat).Tidy i.toNat)
    (hm : (a.place, ⟨false, a.parcel⟩) ∈ placed (0, 0) course)
    (hf : a.parcel.fragmented = true) {new : IncomingCommand}
    {before after : List IncomingCommand} (hfollows : Follows T a.place new)
    (hholds : a.parcel.Holds new) (hempty : new.fragments = ∅)
    (hremaining : new.fragmentsRemaining = a.parcel.count)
    (hl : (p.channels i.toNat).incomingUnreliableCommands = before ++ after)
    {r : Channel × List IncomingCommand}
    (hs : Speaks i.toNat T T (placed (0, 0) course) (p.channels i.toNat) r)
    (hsub : r.1.incomingUnreliableCommands.Sublist (before ++ new :: after)) :
    Speaks i.toNat T T (placed (0, 0) course) (p.channels i.toNat)
      ({ r.1 with
        incomingUnreliableCommands := release
          (fun e => e.store (a.parcel.fragment a.index) (a.parcel.piece a.index))
          r.1.incomingUnreliableCommands }, r.2 ++ []) := by
  have hcount := Parcel.one_lt_count hf
  -- Only the new command is held.
  have hheld : ∀ e ∈ r.1.incomingUnreliableCommands, e.held = true → e = new := by
    intro e he hh
    refine (mem_insert (hsub.subset he)).resolve_right fun hold => ?_
    have hmem : e ∈ (p.channels i.toNat).incomingUnreliableCommands := hl ▸ hold
    rw [ht.released .sendUnreliable e hmem] at hh
    cases hh
  obtain ⟨hquiet, hheard, honward⟩ := hs
  rw [List.append_nil]
  refine ⟨⟨hquiet.number, ?_, fun e he hnum => ?_⟩, hheard, honward⟩
  · refine hquiet.lingers.map ?_ ?_ ?_ ?_
    · intro e
      split <;> rfl
    · intro e
      split <;> rfl
    · intro e
      split <;> rfl
    · intro e he p q hp hfe hqe
      split
      · next hh =>
        have hnew := hheld e he hh
        subst hnew
        have hplace : p = a.place := hfe.spot.symm.trans hfollows.spot
        subst hplace
        have hentry := placed_unique hp hm
        cases hentry
        refine (hqe.store hf a.index_lt ?_).released
        rw [hempty]
        exact Finset.notMem_empty _
      · exact hqe
  · obtain ⟨e', he', rfl⟩ := List.mem_map.mp he
    have hpartly : e'.reliableSequenceNumber = UInt16.ofNat T := by
      split at hnum <;> exact hnum
    obtain ⟨hz, hlt⟩ := hquiet.partly e' he' hpartly
    split
    · next hh =>
      have hnew := hheld e' he' hh
      subst hnew
      refine ⟨?_, hlt⟩
      show e'.fragmentsRemaining - 1 ≠ 0
      omega
    · exact ⟨hz, hlt⟩

theorem overhear_fragment (hq : Quiet T (placed (0, 0) course) (p.channels i.toNat))
    (ht : (p.channels i.toNat).Tidy i.toNat)
    (hm : (a.place, ⟨false, a.parcel⟩) ∈ placed (0, 0) course) (hu : a.place.2 < 65536)
    (htime : a.Timely T) (hf : a.parcel.fragmented = true) {memory : Option (Nat → UInt8)}
    {h : Handled}
    (hh : protocolHandleSendUnreliableFragment p i (UInt16.ofNat a.place.1)
      (UInt16.ofNat a.place.2) (a.parcel.fragment a.index) (a.parcel.piece a.index) memory =
        some h) :
    ∃ r, Speaks i.toNat T T (placed (0, 0) course) (p.channels i.toNat) r ∧
      p.Became h.peer i.toNat r := by
  have hsame : ∀ b, ∃ r, Speaks i.toNat T T (placed (0, 0) course) (p.channels i.toNat) r ∧
      p.Became (⟨p, b⟩ : Handled).peer i.toNat r := fun b =>
    ⟨_, .silent hq rfl rfl, .same p i.toNat⟩
  have hcount := Parcel.one_lt_count hf
  have hkind : ProtocolCommand.sendUnreliableFragment = a.parcel.unreliableCommand := by
    unfold Parcel.unreliableCommand
    rw [hf]
    rfl
  unfold protocolHandleSendUnreliableFragment at hh
  simp only at hh
  split at hh
  · cases hh
    exact hsame _
  · split at hh
    · cases hh
      exact hsame _
    · next hw =>
      have hw : inWindow (UInt16.ofNat a.place.1)
          (p.channels i.toNat).incomingReliableSequenceNumber = true := by simpa using hw
      have hT := hw
      rw [hq.number] at hT
      obtain ⟨hT, hnear⟩ := htime.of_inWindow hT
      split at hh
      · cases hh
        exact hsame _
      · split at hh
        · cases hh
          exact hsame _
        · split at hh
          · next before e after hsearch =>
            obtain ⟨hl, hfe, hqe, hke⟩ := hq.found hm hT hnear hu hsearch
            split at hh
            · cases hh
              exact hsame _
            · split at hh
              · cases hh
                exact hsame _
              · next hbit =>
                cases hh
                exact ⟨_, overhear_stored hq ht hm hf hl hfe hqe hke hbit rfl,
                  dispatched_became p _ _⟩
          · split at hh
            · cases hh
              exact hsame _
            · cases hh
              exact hsame _
            · next p' hqueue =>
              obtain ⟨before, after, data, hmem, hp, -, hb⟩ := queued_iff hqueue
              obtain ⟨m, -, hdata⟩ := Option.map_eq_some_iff.mp hmem
              have hlen : data.length = a.parcel.data.length := by
                rw [← hdata, List.length_map, List.length_range]
                rfl
              obtain ⟨hfe, hl, hspeaks⟩ := queued_speaks hq ht hm hu htime hkind hw hp rfl
                (Parcel.holds_opened hf _ _ _ data hlen)
              split at hh
              · cases hh
                rw [if_neg (show (a.parcel.fragment a.index).fragmentCount ≠ 1 by
                  show a.parcel.count ≠ 1
                  omega), hb.channel_self]
                refine ⟨_, overhear_opened ht hm hf hfe (Parcel.holds_opened hf _ _ _ data hlen)
                  rfl rfl hl hspeaks (dispatchUnreliable_sublist _), ?_⟩
                exact hb.dispatched _
              · cases hh

/-- An unreliable command of the sequence that arrives in time. -/
theorem overhear_speaks (hq : Quiet T (placed (0, 0) course) (p.channels i.toNat))
    (ht : (p.channels i.toNat).Tidy i.toNat)
    (hm : (a.place, ⟨false, a.parcel⟩) ∈ placed (0, 0) course) (hu : a.place.2 < 65536)
    (htime : a.Timely T) {memory : Option (Nat → UInt8)} {h : Handled}
    (hh : overhear p i a memory = some h) :
    ∃ r, Speaks i.toNat T T (placed (0, 0) course) (p.channels i.toNat) r ∧
      p.Became h.peer i.toNat r := by
  unfold overhear at hh
  split at hh
  · next hf => exact overhear_fragment hq ht hm hu htime hf hh
  · next hf =>
    cases hh
    exact overhear_whole hq ht hm hu htime (by simpa using hf) _

end

/-! ## What is not of the sequence -/

/-- An unsequenced packet comes out at once, in front of what is ready. -/
theorem unsequenced_speaks {i T : Nat} {places : List ((Nat × Nat) × Entry)} {c : Channel}
    (hq : Quiet T places c) (hi : ∀ e ∈ c.incomingUnreliableCommands, e.channelID.toNat = i)
    {x : IncomingCommand} (hx : x.command = .sendUnsequenced) :
    Speaks i T T places c
      { c with
        incomingUnreliableCommands := x :: c.incomingUnreliableCommands }.dispatchUnreliable := by
  have hfate : ∀ n, x.fate n = .ready := fun n => if_pos hx
  have hspeaks := Lingers.dispatch (R := T) (T := T) hq.lingers hq.number (Nat.le_refl T)
    (by omega) (fun e he hnum => (hq.partly e he hnum).2) hi
  have heq : { c with
      incomingUnreliableCommands := x :: c.incomingUnreliableCommands }.dispatchUnreliable =
      (c.dispatchUnreliable.1, x :: c.dispatchUnreliable.2) := by
    rw [dispatchUnreliable_eq, dispatchUnreliable_eq]
    simp only [ready, settle, reached, hfate, if_pos hx]
  have hspoken : spoken i [x] = [] := spoken_nil fun e he _ => by
    rw [List.mem_singleton.mp he]
    exact hx
  rw [heq]
  obtain ⟨hquiet, ⟨outs, hsaid, hout⟩, honward⟩ := hspeaks
  refine ⟨hquiet, ⟨outs, ?_, hout⟩, honward⟩
  rw [← List.singleton_append, spoken_append, hspoken]
  exact hsaid

/-- A command that is none of the sequence. -/
theorem Channel.Step.speaks_other {i T : Nat} {places : List ((Nat × Nat) × Entry)} {c : Channel}
    {k : ProtocolCommand} {r : Channel × List IncomingCommand} (hs : c.Step i k r)
    (hk : isReliable k = false) (hu : k ≠ .sendUnreliable) (hf : k ≠ .sendUnreliableFragment)
    (hq : Quiet T places c) (hi : ∀ e ∈ c.incomingUnreliableCommands, e.channelID.toNat = i) :
    Speaks i T T places c r := by
  have hplace : ∀ {h : CommandHeader} {u : UInt16} {x}, h.command = k → k ≠ .sendUnsequenced →
      c.place h u ≠ some x := by
    intro h u x hc hn hp
    unfold Channel.place at hp
    rw [hc] at hp
    cases k with
    | sendReliable | sendFragment => exact Bool.noConfusion hk
    | sendUnreliable => exact hu rfl
    | sendUnreliableFragment => exact hf rfl
    | sendUnsequenced => exact hn rfl
    | _ => cases hp
  cases hs with
  | same => exact .silent hq rfl rfl
  | queued h u flags data hc _ _ hp =>
    by_cases hn : k = .sendUnsequenced
    · subst hn
      unfold Channel.place at hp
      rw [hc] at hp
      cases hp
      exact unsequenced_speaks hq hi hc
    · exact absurd hp (hplace hc hn)
  | opened h u flags f data memory hc hn _ _ hp => exact absurd hp (hplace hc hn)
  | @stored f data before after e hl hc _ _ _ _ =>
    have hmem : e ∈ c.incomingUnreliableCommands := by
      unfold Channel.commands at hl
      rw [hk] at hl
      rw [show c.incomingUnreliableCommands = _ from hl]
      exact List.mem_append_right _ List.mem_cons_self
    obtain ⟨-, q, -, -, -, hkind⟩ := hq.lingers.follows e hmem
    rw [hc] at hkind
    unfold Parcel.unreliableCommand at hkind
    split at hkind
    · exact absurd hkind hf
    · exact absurd hkind hu

end Transport
