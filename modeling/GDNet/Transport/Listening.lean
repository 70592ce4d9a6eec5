import GDNet.Transport.Ordered
import GDNet.Transport.Sequenced

/-!
# What is heard of a channel

A receiver whose channel carries both kinds of packets.  In every run in which the
commands of the sequence arrive timely, what comes out is some of the sequence, in its
order and each packet once at most, and of the reliable packets it is all up to one of
them.  The other commands, and those of other channels, come as they like.
-/

namespace Transport
open ENet (ProtocolCommand)
open Transition Channel

/-! ## How far a dispatch goes -/

/-- The packets of one dispatch started within the window, so that none of three windows
takes the channel far. -/
theorem Takes.far {i : Nat} {done todo mid rest : List Parcel} {c : Channel}
    {r : Channel × List IncomingCommand} (ht : Takes i done todo c mid rest r)
    (hcount : ∀ q ∈ mid, q.count ≤ 12288) :
    total (done ++ mid) / 4096 ≤ total done / 4096 + 9 := by
  rw [total_append]
  rcases List.eq_nil_or_concat mid with rfl | ⟨init, q, rfl⟩
  · exact Nat.le_add_right _ 9
  · rw [List.concat_eq_append] at *
    have hq := hcount q (List.mem_append_right _ List.mem_cons_self)
    have hnear := ht.near (total done + total init + 1) q (by
      rw [numbered_append]
      exact List.mem_append_right _ List.mem_cons_self)
    rw [total_append, total, total]
    omega

/-! ## A run of the receiver -/

/-- A peer, and what the program has taken from it. -/
structure Listener where
  peer : Inbound
  handed : List IncomingCommand

/-- A command comes to its handler, or the program takes what was dispatched first. -/
inductive Listening where
  | arrives (a : Arrival) (memory : Option (Nat → UInt8))
  | strays (a : Stray) (memory : Option (Nat → UInt8))
  | other (m : Message) (memory : Option (Nat → UInt8))
  | receive

namespace Listener

def step (i : UInt8) (s : Listener) : Listening → Option Listener
  | .arrives a memory => some { s with peer := (receive s.peer i a memory).peer }
  | .strays a memory => (overhear s.peer i a memory).map fun h => { s with peer := h.peer }
  | .other m memory => (handleCommand s.peer m memory).map fun h => { s with peer := h.peer }
  | .receive =>
    (peerReceive s.peer).map fun r => ⟨r.1, s.handed ++ s.peer.dispatchedCommands.take 1⟩

/-- Before anything came in. -/
structure Fresh (s : Listener) : Prop where
  channels : s.peer.channels = fun _ => {}
  dispatched : s.peer.dispatchedCommands = []
  handed : s.handed = []

def heard (s : Listener) : List IncomingCommand := s.handed ++ s.peer.dispatchedCommands

/-- The last number of the reliable packets that came out. -/
def position (i : UInt8) (course : List Entry) (s : Listener) : Nat :=
  total ((reliables course).take (logged i.toNat s.heard).length)

/-- The commands of the sequence are neither nine windows late nor a turn of the numbers
early, and the others are none that would be taken for it. -/
def InTime (i : UInt8) (course : List Entry) (s : Listener) : Listening → Prop
  | .arrives a _ => (a.start, a.parcel) ∈ numbered 0 (reliables course) ∧
      Timely (s.position i course) a
  | .strays a _ => (a.place, ⟨false, a.parcel⟩) ∈ placed (0, 0) course ∧ a.place.2 < 65536 ∧
      a.Timely (s.position i course)
  | .other m _ => m.protocol.channelID = i → isReliable m.protocol.command = false ∧
      m.protocol.command ≠ .sendUnreliable ∧ m.protocol.command ≠ .sendUnreliableFragment
  | .receive => True

end Listener

def listening (i : UInt8) : Machine Listener Listening where
  start := Listener.Fresh
  step := Listener.step i

namespace Listener

variable {i : UInt8} {course : List Entry} {s t : Listener} {done todo : List Parcel}

/-- The reliable packets `done` came out, and with them some unreliable ones up to the
place of the channel. -/
structure Listens (i : UInt8) (course : List Entry) (s : Listener) (done todo : List Parcel) :
    Prop where
  split : reliables course = done ++ todo
  receives : Receives done todo (s.peer.channels i.toNat)
  tidy : ∀ j, (s.peer.channels j).Tidy j
  quiet : Quiet (total done) (placed (0, 0) course) (s.peer.channels i.toNat)
  logged : logged i.toNat s.heard = done.map fun q => q.data
  spoken : ∃ outs : List ((Nat × Nat) × Entry),
    spoken i.toNat s.heard = outs.map (fun o => o.2.said) ∧
    outs.Pairwise (fun o o' => earlier o.1 o'.1) ∧
    ∀ o ∈ outs, o ∈ placed (0, 0) course ∧
      upto o.1 (cursor (total done) (s.peer.channels i.toNat))

theorem Listens.position (h : Listens i course s done todo) :
    s.position i course = total done := by
  rw [Listener.position, h.logged, List.length_map, h.split, List.take_left]

theorem Listens.fresh (h : s.Fresh) : Listens i course s [] (reliables course) := by
  refine ⟨rfl, ?_, fun j => ?_, ?_, ?_, [], ?_, List.Pairwise.nil, fun o ho => by cases ho⟩
  · rw [h.channels]
    exact .start _
  · rw [h.channels]
    refine ⟨fun k e he => ?_, fun k e he => ?_⟩
    all_goals
      unfold Channel.commands at he
      split at he <;> cases he
  · rw [h.channels]
    exact ⟨rfl, .nil _ _, fun e he => by cases he⟩
  · rw [heard, h.handed, h.dispatched]
    rfl
  · rw [heard, h.handed, h.dispatched]
    rfl

/-- What a handler that speaks of the sequence does. -/
theorem Listens.speaks (h : Listens i course s done todo) {mid rest : List Parcel}
    {r : Channel × List IncomingCommand} (hsplit : todo = mid ++ rest)
    (hb : s.peer.Became t.peer i.toNat r) (hh : t.handed = s.handed)
    (hr : Receives (done ++ mid) rest r.1) (htidy : r.1.Tidy i.toNat)
    (hs : Speaks i.toNat (total done) (total (done ++ mid)) (placed (0, 0) course)
      (s.peer.channels i.toNat) r)
    (hl : Transport.logged i.toNat r.2 = mid.map fun q => q.data) :
    Listens i course t (done ++ mid) rest := by
  have hheard : t.heard = s.heard ++ r.2 := by
    rw [heard, heard, hh, hb.dispatchedCommands, List.append_assoc]
  obtain ⟨outs, hsaid, hord, hplaces⟩ := h.spoken
  obtain ⟨outs', hsaid', hord', hplaces'⟩ := hs.heard
  refine ⟨?_, ?_, fun j => ?_, ?_, ?_, outs ++ outs', ?_, ?_, fun o ho => ?_⟩
  · rw [h.split, hsplit, List.append_assoc]
  · rw [hb.channel_self]
    exact hr
  · by_cases hj : j = i.toNat
    · rw [hj, hb.channel_self]
      exact htidy
    · rw [hb.channel_of_ne hj]
      exact h.tidy j
  · rw [hb.channel_self]
    exact hs.quiet
  · rw [hheard, logged_append, h.logged, hl, List.map_append]
  · rw [hheard, spoken_append, hsaid, hsaid', List.map_append]
  · refine List.pairwise_append.mpr ⟨hord, hord', fun o ho o' ho' => ?_⟩
    exact (hplaces o ho).2.earlier (hplaces' o' ho').2.1
  · rw [hb.channel_self]
    rcases List.mem_append.mp ho with ho | ho
    · exact ⟨(hplaces o ho).1, (hplaces o ho).2.trans hs.onward⟩
    · exact ⟨(hplaces' o ho).1, (hplaces' o ho).2.2⟩

/-- A handler of unreliable commands leaves the reliable ones alone. -/
theorem Listens.unreliable (h : Listens i course s done todo) {k : ProtocolCommand}
    {r : Channel × List IncomingCommand} (hb : s.peer.Became t.peer i.toNat r)
    (hh : t.handed = s.handed) (hstep : (s.peer.channels i.toNat).Step i.toNat k r)
    (hk : isReliable k = false)
    (hs : Speaks i.toNat (total done) (total done) (placed (0, 0) course)
      (s.peer.channels i.toNat) r) : Listens i course t done todo := by
  obtain ⟨hnumber, hlist⟩ := hstep.unreliable hk
  obtain ⟨htidy, hout⟩ := hstep.tidy (h.tidy _)
  have hnone : Transport.logged i.toNat r.2 = [] :=
    logged_nil fun e he _ => (hout e he).elim (fun hb => hb.2.trans hk) fun hb => hb.2
  have hreceives : Receives (done ++ []) todo r.1 := by
    rw [List.append_nil]
    exact h.receives.congr hnumber hlist
  have hspeaks : Speaks i.toNat (total done) (total (done ++ [])) (placed (0, 0) course)
      (s.peer.channels i.toNat) r := by
    rw [List.append_nil]
    exact hs
  have hend : Listens i course t (done ++ []) todo :=
    h.speaks rfl hb hh hreceives htidy hspeaks hnone
  rwa [List.append_nil] at hend

/-- Nothing of the channel changes. -/
theorem Listens.still (h : Listens i course s done todo)
    (hc : t.peer.channels i.toNat = s.peer.channels i.toNat)
    (ht : ∀ j, (t.peer.channels j).Tidy j)
    (hl : Transport.logged i.toNat t.heard = Transport.logged i.toNat s.heard)
    (hs : Transport.spoken i.toNat t.heard = Transport.spoken i.toNat s.heard) :
    Listens i course t done todo := by
  refine ⟨h.split, ?_, ht, ?_, hl.trans h.logged, ?_⟩
  · rw [hc]
    exact h.receives
  · rw [hc]
    exact h.quiet
  · rw [hs, hc]
    exact h.spoken

/-- A handler has one result. -/
theorem Became.unique {p q : Inbound} {n : Nat} {r r' : Channel × List IncomingCommand}
    (h : p.Became q n r) (h' : p.Became q n r') : r = r' :=
  Prod.ext (h.channel_self.symm.trans h'.channel_self)
    (List.append_cancel_left (h.dispatchedCommands.symm.trans h'.dispatchedCommands))

theorem overhear_step {p : Inbound} {a : Stray} {memory : Option (Nat → UInt8)} {h : Handled}
    (hh : overhear p i a memory = some h) : ∃ k r, isReliable k = false ∧
      (p.channels i.toNat).Step i.toNat k r ∧ p.Became h.peer i.toNat r := by
  unfold overhear at hh
  split at hh
  · obtain ⟨r, hs, hb⟩ := sendUnreliableFragment_step hh
    exact ⟨.sendUnreliableFragment, r, rfl, hs, hb⟩
  · cases hh
    obtain ⟨r, hs, hb⟩ := handleSend_step .sendUnreliable 0 p i (UInt16.ofNat a.place.1)
      (UInt16.ofNat a.place.2) a.parcel.data memory.isSome
    exact ⟨.sendUnreliable, r, rfl, hs, hb⟩

theorem receive_step (p : Inbound) (a : Arrival) (memory : Option (Nat → UInt8)) : ∃ k r,
    (p.channels i.toNat).Step i.toNat k r ∧ p.Became (receive p i a memory).peer i.toNat r := by
  unfold receive
  split
  · obtain ⟨r, hs, hb⟩ := sendFragment_step p i (UInt16.ofNat a.start) (a.parcel.fragment a.index)
      (a.parcel.piece a.index) memory
    exact ⟨_, r, hs, hb⟩
  · obtain ⟨r, hs, hb⟩ := handleSend_step .sendReliable ENet.packetFlagReliable p i
      (UInt16.ofNat a.start) 0 a.parcel.data memory.isSome
    exact ⟨_, r, hs, hb⟩

/-- A command of another channel. -/
theorem Listens.elsewhere (h : Listens i course s done todo) {j : Nat} (hj : j ≠ i.toNat)
    {k : ProtocolCommand} {r : Channel × List IncomingCommand}
    (hstep : (s.peer.channels j).Step j k r) (hb : s.peer.Became t.peer j r)
    (hh : t.handed = s.handed) : Listens i course t done todo := by
  obtain ⟨htidy, hout⟩ := hstep.tidy (h.tidy j)
  have hheard : t.heard = s.heard ++ r.2 := by
    rw [heard, heard, hh, hb.dispatchedCommands, List.append_assoc]
  have hother : ∀ e ∈ r.2, e.channelID.toNat ≠ i.toNat := fun e he hi =>
    hj ((hout e he).elim (fun hb => hb.1.symm.trans hi) fun hb => hb.1.symm.trans hi)
  refine h.still (hb.channel_of_ne (Ne.symm hj)) (fun n => ?_) ?_ ?_
  · by_cases hn : n = j
    · rw [hn, hb.channel_self]
      exact htidy
    · rw [hb.channel_of_ne hn]
      exact h.tidy n
  · rw [hheard, logged_append, logged_nil fun e he hi => absurd hi (hother e he), List.append_nil]
  · rw [hheard, spoken_append, spoken_nil fun e he hi => absurd hi (hother e he), List.append_nil]

theorem Listens.step (h : Listens i course s done todo)
    (hcount : ∀ q ∈ reliables course, q.count ≤ 12288) {a : Listening}
    (htime : s.InTime i course a) (hs : Listener.step i s a = some t) :
    ∃ mid rest, Listens i course t (done ++ mid) rest := by
  have hstill : Listens i course t done todo →
      ∃ mid rest, Listens i course t (done ++ mid) rest := fun hl =>
    ⟨[], todo, by rw [List.append_nil]; exact hl⟩
  have hids : ∀ e ∈ (s.peer.channels i.toNat).incomingUnreliableCommands,
      e.channelID.toNat = i.toNat := fun e he => ((h.tidy i.toNat).belongs .sendUnreliable e he).1
  cases a with
  | arrives a memory =>
    obtain rfl : _ = t := Option.some.inj hs
    obtain ⟨hm, htimely⟩ := htime
    rw [h.split] at hm
    rw [h.position] at htimely
    obtain ⟨mid, rest, r, htakes, hb, -⟩ :=
      receive_outcome h.receives (h.tidy _) hm htimely memory
    have hfar := htakes.far fun q hq => hcount q (by
      rw [h.split, htakes.split]
      exact List.mem_append_right _ (List.mem_append_left _ hq))
    obtain ⟨k, r', hstep, hb'⟩ := receive_step s.peer a memory
    obtain rfl := Became.unique hb hb'
    exact ⟨mid, rest, h.speaks htakes.split hb rfl htakes.receives (hstep.tidy (h.tidy _)).1
      (htakes.speaks h.quiet h.split hfar hids) htakes.logged⟩
  | strays a memory =>
    obtain ⟨handled, hh, rfl⟩ := Option.map_eq_some_iff.mp hs
    obtain ⟨hm, hu, htimely⟩ := htime
    rw [h.position] at htimely
    obtain ⟨r, hspeaks, hb⟩ := overhear_speaks h.quiet (h.tidy _) hm hu htimely hh
    obtain ⟨k, r', hk, hstep, hb'⟩ := overhear_step hh
    obtain rfl := Became.unique hb hb'
    exact hstill (h.unreliable hb rfl hstep hk hspeaks)
  | other m memory =>
    obtain ⟨handled, hh, rfl⟩ := Option.map_eq_some_iff.mp hs
    obtain ⟨r, hstep, hb⟩ := handleCommand_step hh
    by_cases hi : m.protocol.channelID = i
    · obtain ⟨hk, hu, hf⟩ := htime hi
      subst hi
      exact hstill (h.unreliable hb rfl hstep hk (hstep.speaks_other hk hu hf h.quiet hids))
    · exact hstill (h.elsewhere (fun he => hi (UInt8.toNat_inj.mp he)) hstep hb rfl)
  | receive =>
    obtain ⟨r, hr, rfl⟩ := Option.map_eq_some_iff.mp hs
    obtain ⟨e, es, hes, hp⟩ := peerReceive_cases hr
    have hheard : heard ⟨r.1, s.handed ++ s.peer.dispatchedCommands.take 1⟩ = s.heard := by
      unfold heard
      simp only [hp, hes, List.take_succ_cons, List.take_zero]
      rw [List.append_assoc, List.singleton_append]
    refine hstill (h.still ?_ (fun j => ?_) ?_ ?_)
    · rw [hp]
    · rw [hp]
      exact h.tidy j
    · rw [hheard]
    · rw [hheard]

/-- What comes out of the channel is some of the sequence in its order, and all of its
reliable packets up to one. -/
theorem heard_in_order {s₀ : Listener} {as : List Listening} (h₀ : (listening i).start s₀)
    (hcount : ∀ q ∈ reliables course, q.count ≤ 12288)
    (ht : (listening i).Along (InTime i course) s₀ as) (hr : (listening i).run s₀ as = some s) :
    (Transport.spoken i.toNat s.heard).Sublist (course.map Entry.said) ∧
      Transport.logged i.toNat s.heard <+: (reliables course).map fun q => q.data := by
  obtain ⟨done, todo, h⟩ := Machine.run_preserves
    (I := fun s => ∃ done todo, Listens i course s done todo)
    (fun s a t htime ⟨done, todo, h⟩ hs =>
      have ⟨mid, rest, h'⟩ := h.step hcount htime hs
      ⟨done ++ mid, rest, h'⟩) ht ⟨[], reliables course, .fresh h₀⟩ hr
  obtain ⟨outs, hsaid, hord, hplaces⟩ := h.spoken
  refine ⟨?_, ?_⟩
  · rw [hsaid]
    exact said_sublist hord fun o ho => (hplaces o ho).1
  · rw [h.logged, h.split, List.map_append]
    exact List.prefix_append _ _

def oneByte (b : UInt8) : Parcel := ⟨[b], 1400, by decide⟩

/-- The second unreliable packet waits for the reliable one and comes out with it; the
first one is overtaken. -/
example : ((listening 0).run ⟨Exchange.connected.receiver, []⟩
    [.strays ⟨(1, 1), oneByte 3, 0, by decide⟩ (some fun _ => 0),
      .arrives ⟨1, oneByte 2, 0, by decide⟩ (some fun _ => 0), .receive,
      .strays ⟨(0, 1), oneByte 1, 0, by decide⟩ (some fun _ => 0)]).map
        (fun s => Transport.spoken 0 s.heard) = some [(true, [2]), (false, [3])] := by
  decide +kernel

end Listener
end Transport
