import GDNet.Host.Exclusion
import GDNet.Host.Handles

/-!
# Messages for one peer

A message carries the index of a slot, and while it waits the slot can go to
another connection.  The host thread hands over everything it finds before it
polls, and one poll does not both free a slot that had come up and bring a new
connection on it to CONNECTED.  So a message that was written for a connected
slot finds its connection there, or nobody that `enet_peer_send` accepts it for.
-/

namespace GDNet

open Transition

variable {s t : State} {a : Action} {pc pc' : WorkerPc} {q : QueuedMessage}

/-! ## The session of a call -/

/-- A call that needs a session is in the one it started in. -/
def Since (s : State) : Prop :=
  s.game.pc.shape = some .bound → s.game.since = s.world.session

theorem go_since {w w' : World} {g g' : Game} {env : Env} {pc : GamePc} (hg : g.pc = pc)
    (hs : GoStep gameThread w g env pc w' g') (hb : g'.pc.shape = some .bound) :
    pc.shape = some .bound ∧ g'.since = g.since := by
  cases hs with
  | fails hf => exact ⟨hg ▸ hb, rfl⟩
  | _ => first | exact ⟨rfl, rfl⟩ | cases hb

theorem step_since (hi : Since s) (h : Step s a t) : Since t := by
  intro hb
  cases h with
  | worker hpc hs => exact (hi hb).trans (worker_session hs).symm
  | call hpc hp hs =>
    cases hs with
    | bind hn hc => cases hb
    | _ => rfl
  | go hs =>
    obtain ⟨hb', hsince⟩ := go_since rfl hs hb
    rw [hsince, go_session hs]
    exact hi hb'

theorem since (h : system.Reachable s) : Since s := by
  have h₀ : ∀ s, system.start s → Since s := by
    rintro s ⟨events, messages, rfl⟩ hb
    cases hb
  exact h.invariant h₀ fun _ _ _ hi hs => step_since hi (step_cases hs).2

/-! ## What the host thread may do to the slots -/

/-- The host thread polls, and a slot that had come up has not been freed yet. -/
def WorkerPc.polls : WorkerPc → Prop
  | .poll => True
  | .service _ => True
  | _ => False

theorem WorkerPc.polls.critical (h : pc.polls) : pc.place = .critical := by
  cases pc <;> first | rfl | exact h.elim

theorem go_worker {w w' : World} {g g' : Game} {env : Env} {pc : GamePc}
    (hs : GoStep gameThread w g env pc w' g') : w'.worker = w.worker ∨
      pc = .bindThread ∧ w'.worker = some .loopTest ∨ w'.worker = none := by
  cases hs with
  | bindThread => exact Or.inr (Or.inl ⟨rfl, rfl⟩)
  | unbindWait hw => exact Or.inr (Or.inr rfl)
  | _ => exact Or.inl rfl

/-- The thread starts with an empty queue. -/
theorem step_starts (h : Step s a t) (hw : s.world.worker = none)
    (hw' : t.world.worker = some pc') : s.game.pc = .bindThread := by
  cases h with
  | worker hpc hs => rw [hw] at hpc; cases hpc
  | call hpc hp hs =>
    rw [(call_queues hs hpc).2.2.1, hw] at hw'
    cases hw'
  | go hs =>
    rcases go_worker hs with e | ⟨e, _⟩ | e
    · rw [show _ = s.world.worker from e, hw] at hw'
      cases hw'
    · exact e
    · rw [show _ = none from e] at hw'
      cases hw'

/-- The thread polls when it has found no message. -/
theorem step_polls (h : Step s a t) (hpc : s.world.worker = some pc)
    (hpc' : t.world.worker = some pc') (hp : pc'.polls) :
    pc.polls ∨ pc = .isEmpty ∧ s.world.host.messageQueue.isEmpty = true := by
  cases h with
  | worker hw hs =>
    obtain rfl := Option.some.inj (hpc.symm.trans hw)
    cases hs with
    | drained he => exact Or.inr ⟨rfl, he⟩
    | poll => exact Or.inl trivial
    | service hh => exact Or.inl trivial
    | fails hf =>
      obtain rfl := Option.some.inj (hpc.symm.trans hpc')
      exact Or.inl hp
    | check hh =>
      unfold World.polled at hpc'
      split at hpc' <;> cases hpc' <;> contradiction
    | _ => cases hpc'; exact hp.elim
  | call hc hq hs =>
    rw [(call_queues hs hc).2.2.1] at hpc'
    obtain rfl := Option.some.inj (hpc.symm.trans hpc')
    exact Or.inl hp
  | go hs =>
    rcases go_worker hs with e | ⟨_, e⟩ | e
    · rw [show _ = s.world.worker from e] at hpc'
      obtain rfl := Option.some.inj (hpc.symm.trans hpc')
      exact Or.inl hp
    · obtain rfl := Option.some.inj (e.symm.trans hpc')
      exact hp.elim
    · rw [show _ = none from e] at hpc'
      cases hpc'

theorem allow_opens (hl : Life s) (hpc : s.world.worker = some pc) (ho : (s.allow a).opens) :
    pc.polls := by
  cases a with
  | worker input =>
    rw [State.allow, hpc] at ho
    cases pc <;> first | exact trivial | exact ho.elim
  | game input =>
    cases input with
    | call c env => exact ho.elim
    | go env =>
      rw [State.allow] at ho
      split at ho
      · exact ho.elim
      · next hf =>
        have hw := hl.worker_none (by rw [hf]; rfl) rfl
        rw [hpc] at hw
        cases hw
      · exact ho.elim

/-- A poll that frees a slot that had come up is over. -/
theorem allow_frees (hr : system.Reachable s) (h : Step s a t) (hpc : s.world.worker = some pc)
    (hp : pc.polls) (hpc' : t.world.worker = some pc') (hf : (s.allow a).frees) : ¬pc'.polls := by
  cases h with
  | worker hw hs =>
    obtain rfl := Option.some.inj (hpc.symm.trans hw)
    rw [State.allow, hpc] at hf
    cases hs with
    | @service spc h hh =>
      obtain ⟨h', hh', he⟩ := hf
      obtain rfl := Option.some.inj (hh.symm.trans hh')
      generalize (ENet.serviceStep h spc _).2 = outcome at hpc' he
      cases outcome with
      | next spc' => cases he
      | done event =>
        cases event with
        | none => cases he
        | some e => cases hpc'; exact id
    | fails hx =>
      cases hx with
      | service hh =>
        obtain ⟨h', hh', _⟩ := hf
        rw [show s.enet = none from hh] at hh'
        cases hh'
      | _ => exact hp.elim
    | _ => first | exact hf.elim | exact hp.elim
  | call hc hq hs => exact hf.elim
  | go hs =>
    rw [State.allow] at hf
    split at hf
    · next hi => exact absurd (by rw [hi]; rfl) (critical_exclusive hr hpc hp.critical)
    · next hx =>
      have hw := (life hr).worker_none (by rw [hx]; rfl) rfl
      rw [hpc] at hw
      cases hw
    · exact hf.elim

/-! ## What a message finds in its slot -/

/-- The connection `n` has come up in the slot and has not been freed. -/
def Holds (n : Nat) (x : ENet.Slot) : Prop := x.connection = n ∧ 3 ≤ x.state.rank

/-- No other connection is up in the slot, or gets there without a datagram. -/
def Spares (n : Nat) (x : ENet.Slot) : Prop :=
  x.state.rank = 2 ∨ x.state.rank = 3 → x.connection = n

theorem Holds.spares {n : Nat} {x : ENet.Slot} (h : Holds n x) : Spares n x := fun _ => h.1

theorem Holds.moves {n i : Nat} {b : ENet.Allow} {x x' : ENet.Slot} (h : Holds n x)
    (hm : ENet.Moves b i x x') (hf : ¬b.frees) : Holds n x' := by
  refine ⟨hm.connection.trans h.1, ?_⟩
  rcases hm.rank with hd | ⟨_, hle⟩
  · exact absurd (hm.frees h.2 hd) hf
  · exact Nat.le_trans h.2 hle

theorem Holds.receives {n i : Nat} {b : ENet.Allow} {h h' : ENet.Host} (hx : Holds n (h.slot i))
    (hr : ENet.Receives b h h') : Spares n (h'.slot i) := by
  rcases hr.slots i with hm | ⟨_, ht⟩
  · exact fun _ => hm.connection.trans hx.1
  · have := hx.2
    rw [ht.free] at this
    simp [ENet.PeerState.rank] at this

theorem Spares.moves {n i : Nat} {b : ENet.Allow} {x x' : ENet.Slot} (h : Spares n x)
    (hm : ENet.Moves b i x x') (ho : ¬b.opens) : Spares n x' := by
  intro hr
  rw [hm.connection]
  apply h
  rcases hm.rank with hd | ⟨hne, hle⟩
  · rw [hd] at hr
    simp [ENet.PeerState.rank] at hr
  · have h₀ : x.state.rank ≠ 0 := fun e => hne (ENet.PeerState.rank_eq_zero.mp e)
    have h₁ : x.state.rank ≠ 1 := fun e => ho (hm.opens e hr)
    omega

/-- A message is refused unless it finds the connection that it was written for. -/
theorem Spares.refuses {n i : Nat} {h : ENet.Host} (hs : Spares n (h.slot i)) :
    (h.slot i).connection = n ∨ ∀ channelID packet allocates,
      ENet.peerSend h (h.peers i) channelID packet allocates = none := by
  by_cases hc : (h.peers i).state = .connected
  · exact Or.inl (hs (Or.inr (ENet.PeerState.rank_eq_three.mpr hc)))
  · refine Or.inr fun channelID packet allocates => ?_
    cases hsend : ENet.peerSend h (h.peers i) channelID packet allocates with
    | none => rfl
    | some p => exact absurd (ENet.peerSend_accepts hsend).1 hc

def Message.slot (m : Message) : Nat := m.peerId.toNat

/-- What is so of a message on its way that was written for a slot that had come
up.  While the host thread polls, the slot is held, and is none that `connect`
has found free. -/
structure Kept (s : State) (pc : WorkerPc) (q : QueuedMessage) (h : ENet.Host) : Prop where
  session : q.stamp.session = s.world.session
  spares : ∀ x, q.stamp.slot = some x → 3 ≤ x.state.rank →
    Spares x.connection (h.slot q.item.slot)
  holds : ∀ x, q.stamp.slot = some x → 3 ≤ x.state.rank → pc.polls →
    Holds x.connection (h.slot q.item.slot)
  found : ∀ x i args, q.stamp.slot = some x → 3 ≤ x.state.rank → pc.polls →
    s.game.pc = .found i args → q.item.slot ≠ i

theorem slotOf_eq {w : World} {m : Message} {x : ENet.Slot} (h : w.slotOf m = some x) :
    ∃ g, w.host.enetHost = some g ∧ m.broadcast = false ∧ x = g.slot m.slot := by
  unfold World.slotOf at h
  split at h
  · cases h
  · next g hg =>
    simp only [Option.ite_none_right_eq_some] at h
    exact ⟨g, hg, by simpa using h.1.1, (Option.some.inj h.2).symm⟩

/-- A slot that `connect` finds free is held by nobody. -/
theorem step_found_ne (h : Step s a t) {n : Nat} {g : ENet.Host} (hh : t.enet = some g)
    (hx : Holds n (g.slot q.item.slot)) {i : Nat} {args : ConnectArgs}
    (hf : t.game.pc = .found i args) : s.game.pc = .found i args ∨ q.item.slot ≠ i := by
  rcases step_found h hf with hf | ⟨hw, g', hg', hsearch⟩
  · exact Or.inl hf
  · right
    rintro rfl
    rw [State.enet, hw] at hh
    obtain rfl := Option.some.inj (hh.symm.trans hg')
    have hfree : (g.slot q.item.slot).state = .disconnected := (ENet.connectSearch_eq hsearch).2
    have := hx.2
    rw [hfree] at this
    simp [ENet.PeerState.rank] at this

theorem go_written {w w' : World} {g g' : Game} {env : Env} {m : Message}
    (hs : GoStep gameThread w g env (.pushWrite m) w' g') :
    w'.host.enetHost = w.host.enetHost := by
  cases hs <;> rfl

theorem written_enet (h : Step s a t) (hw : q ∈ writtenMessages s a) : t.enet = s.enet := by
  obtain ⟨hpc, _⟩ := written_message hw
  cases h with
  | worker hpc hs => cases hw
  | call hc hp hs => cases hw
  | go hs =>
    rw [hpc] at hs
    exact go_written hs

theorem written_kept (hr : system.Reachable s) (h : Step s a t) (hw : q ∈ writtenMessages s a)
    {g : ENet.Host} (hh : t.enet = some g) : Kept t pc q g := by
  obtain ⟨hpush, hq⟩ := written_message hw
  have hbound : s.game.pc.shape = some .bound := by rw [hpush]; rfl
  obtain ⟨g', hg'⟩ := (life hr).enet hbound
  obtain ⟨_, hsession⟩ := (step_host h).peerCount hg' hh
  have hstamp : q.stamp = ⟨s.game.since, s.world.slotOf q.item⟩ := by rw [hq]; rfl
  have hheld : ∀ x, q.stamp.slot = some x → 3 ≤ x.state.rank →
      Holds x.connection (g.slot q.item.slot) := by
    intro x hx hrank
    rw [hstamp] at hx
    obtain ⟨g'', hg'', _, rfl⟩ := slotOf_eq hx
    obtain rfl := Option.some.inj (hh.symm.trans ((written_enet h hw).trans hg''))
    exact ⟨rfl, hrank⟩
  refine ⟨?_, fun x hx hk => (hheld x hx hk).spares, fun x hx hk _ => hheld x hx hk, ?_⟩
  · rw [hstamp, hsession]
    exact since hr hbound
  · intro x i args hx hk _ hf
    rcases step_found_ne h hh (hheld x hx hk) hf with hf | hne
    · rw [hpush] at hf
      cases hf
    · exact hne

theorem carried_kept (hr : system.Reachable s) (h : Step s a t) (hc : s.Carries q)
    {g g' : ENet.Host}
    (hpc : s.world.worker = some pc) (hh : s.enet = some g) (hk : Kept s pc q g)
    (hpc' : t.world.worker = some pc') (hh' : t.enet = some g') : Kept t pc' q g' := by
  have hst := step_host h
  obtain ⟨_, hsession⟩ := hst.peerCount hh hh'
  -- The thread starts to poll when no message is left.
  have hpolls : pc'.polls → pc.polls := by
    intro hp
    rcases step_polls h hpc hpc' hp with hp | ⟨rfl, he⟩
    · exact hp
    · rcases hc with hc | hc
      · rw [(queues hr).messages.valid.isEmpty_iff.mp he] at hc
        cases hc
      · rw [hpc] at hc
        cases hc
  have hheld : ∀ x, q.stamp.slot = some x → 3 ≤ x.state.rank → pc'.polls →
      Holds x.connection (g'.slot q.item.slot) := by
    intro x hx hrank hp'
    have hp := hpolls hp'
    have hx' := hk.holds x hx hrank hp
    cases hst with
    | keep he _ =>
      obtain rfl := Option.some.inj (hh'.symm.trans (he.trans hh))
      exact hx'
    | receives hg hg' hrec _ =>
      obtain rfl := Option.some.inj (hh.symm.trans hg)
      obtain rfl := Option.some.inj (hh'.symm.trans hg')
      rcases hrec.slots q.item.slot with hm | ⟨_, ht⟩
      · exact hx'.moves hm fun hf => allow_frees hr h hpc hp hpc' hf hp'
      · have := hx'.2
        rw [ht.free] at this
        simp [ENet.PeerState.rank] at this
    | claim hf hg hg' hclaim _ =>
      obtain rfl := Option.some.inj (hh.symm.trans hg)
      obtain rfl := Option.some.inj (hh'.symm.trans hg')
      rw [(ENet.connectClaim_slot hclaim).2.1 _ (hk.found x _ _ hx hrank hp hf)]
      exact hx'
    | create _ hg _ _ _ => rw [hh] at hg; cases hg
    | destroy _ hg _ => rw [hh'] at hg; cases hg
  refine ⟨hk.session.trans hsession.symm, fun x hx hrank => ?_, hheld, ?_⟩
  · have hx' := hk.spares x hx hrank
    cases hst with
    | keep he _ =>
      obtain rfl := Option.some.inj (hh'.symm.trans (he.trans hh))
      exact hx'
    | receives hg hg' hrec _ =>
      obtain rfl := Option.some.inj (hh.symm.trans hg)
      obtain rfl := Option.some.inj (hh'.symm.trans hg')
      by_cases hp : pc.polls
      · exact (hk.holds x hx hrank hp).receives hrec
      · have hopens : ¬(s.allow a).opens := fun ho => hp (allow_opens (life hr) hpc ho)
        rcases hrec.slots q.item.slot with hm | ⟨ho, _⟩
        · exact hx'.moves hm hopens
        · exact absurd ho hopens
    | @claim i args env h₁ h₂ hf hg hg' hclaim _ =>
      obtain rfl := Option.some.inj (hh.symm.trans hg)
      obtain rfl := Option.some.inj (hh'.symm.trans hg')
      obtain ⟨hself, hothers, _⟩ := ENet.connectClaim_slot hclaim
      by_cases hi : q.item.slot = i
      · intro hrank'
        rw [hi, hself] at hrank'
        simp [ENet.PeerState.rank] at hrank'
      · rw [hothers _ hi]
        exact hx'
    | create _ hg _ _ _ => rw [hh] at hg; cases hg
    | destroy _ hg _ => rw [hh'] at hg; cases hg
  · intro x i args hx hrank hp' hf
    rcases step_found_ne h hh' (hheld x hx hrank hp') hf with hf | hne
    · exact hk.found x i args hx hrank (hpolls hp') hf
    · exact hne

theorem kept (hr : system.Reachable t) {g : ENet.Host} (hc : t.Carries q)
    (hpc : t.world.worker = some pc) (hh : t.enet = some g) : Kept t pc q g := by
  have h₀ : ∀ s, system.start s → system.Reachable s ∧ ∀ q pc g, s.Carries q →
      s.world.worker = some pc → s.enet = some g → Kept s pc q g := by
    rintro s ⟨events, messages, rfl⟩
    refine ⟨.start ⟨_, _, rfl⟩, fun q pc g _ hpc _ => ?_⟩
    cases hpc
  refine (hr.invariant h₀ fun s a t hi hst => ⟨hi.1.step hst, fun q pc' g' hc hpc' hh' => ?_⟩).2
    q pc g hc hpc hh
  obtain ⟨hs, hkept⟩ := hi
  have h := (step_cases hst).2
  rcases step_carries (queues hs) h hc with hc | hw
  · cases hpc : s.world.worker with
    | none =>
      have hstart := step_starts h hpc hpc'
      rcases hc with hc | hc
      · rw [(cleared hs hpc).1 (by rw [hstart]; exact id)] at hc
        cases hc
      · rw [hpc] at hc
        cases hc
    | some pc =>
      obtain ⟨g, hh⟩ := Option.isSome_iff_exists.mp ((life hs).worker (by rw [hpc]; rfl)).1
      exact carried_kept hs h hc hpc hh (hkept q pc g hc hpc hh) hpc' hh'
  · exact written_kept hs h hw hh'

/-- The step from `u` to `v` gives a message for one slot to the connection `n`, which
holds the slot before and after, or leaves ENet as it was. -/
def HandedTo (n : Nat) (q : QueuedMessage) (u v : State) : Prop :=
  v.enet = u.enet ∨ ∃ g g', u.enet = some g ∧ v.enet = some g' ∧
    (g.slot q.item.slot).connection = n ∧ (g'.slot q.item.slot).connection = n ∧
    ∀ j, j ≠ q.item.slot → g'.peers j = g.peers j

theorem handed_to {u v : State} {input : WorkerInput} {g : ENet.Host} {n : Nat}
    (hpc : u.world.worker = some (.handing q)) (hone : q.item.broadcast = false)
    (hh : u.enet = some g) (hst : system.step u (.worker input) = some v)
    (hresult : (g.slot q.item.slot).connection = n ∨ ∀ channelID packet allocates,
      ENet.peerSend g (g.peers q.item.slot) channelID packet allocates = none) :
    HandedTo n q u v := by
  cases (step_cases hst).2 with
  | worker hpc' hs =>
    obtain rfl := Option.some.inj (hpc.symm.trans hpc')
    cases hs with
    | fails hx => exact Or.inl rfl
    | @handing _ h g' hg ho =>
      obtain rfl := Option.some.inj (hh.symm.trans hg)
      unfold handOver at ho
      simp only [hone, Bool.false_eq_true, if_false] at ho
      split at ho
      · obtain rfl := Option.some.inj ho
        exact Or.inl hh.symm
      · obtain ⟨_, he⟩ := Option.ite_none_right_eq_some.mp ho
        obtain rfl := Option.some.inj he
        rcases hresult with hn | hrefused
        · refine Or.inr ⟨g, _, hh, rfl, hn, ?_, fun j hj => ENet.Host.update_peers_of_ne _ _ hj⟩
          have hsame : (g.update q.item.slot fun p => (ENet.peerSend g p
              (UInt8.ofInt q.item.channelId) ⟨packetFlags q.item.type, q.item.packet⟩
              (input.allocates q.item.slot)).getD p).slot q.item.slot = g.slot q.item.slot := by
            rw [ENet.Host.slot, ENet.Host.update_peers_self, ENet.peerSend_getD_slot,
              ENet.Host.slot]
          exact (congrArg ENet.Slot.connection hsame).trans hn
        · have hnone := hrefused (UInt8.ofInt q.item.channelId)
            ⟨packetFlags q.item.type, q.item.packet⟩ (input.allocates q.item.peerId.toNat)
          refine Or.inl (Eq.trans ?_ hh.symm)
          show some (g.update q.item.slot _) = some g
          rw [ENet.Host.update, hnone, Option.getD_none, Function.update_eq_self]

/-- A message written for a slot that had come up, when the host thread has it and when
it hands it over. -/
theorem message_delivered (hs : system.Reachable s) (hst : system.step s a = some t)
    (hw : q ∈ writtenMessages s a) {x : ENet.Slot} (hx : s.world.slotOf q.item = some x)
    (hrank : 3 ≤ x.state.rank) {bs : List Action} {u : State} (hr : system.run t bs = some u)
    (hpc : u.world.worker = some (.handing q)) {g : ENet.Host} (hh : u.enet = some g) :
    u.world.session = s.world.session ∧ ((g.slot q.item.slot).connection = x.connection ∨
      ∀ channelID packet allocates,
        ENet.peerSend g (g.peers q.item.slot) channelID packet allocates = none) ∧
      ∀ input v, system.step u (.worker input) = some v → HandedTo x.connection q u v := by
  obtain ⟨hpush, hq⟩ := written_message hw
  have hk := kept ((hs.step hst).run hr) (Or.inr hpc) hpc hh
  have hstamp : q.stamp = ⟨s.game.since, s.world.slotOf q.item⟩ := by rw [hq]; rfl
  have hresult := (hk.spares x (by rw [hstamp, hx]) hrank).refuses
  refine ⟨?_, hresult, fun input v huv => ?_⟩
  · rw [← hk.session, hstamp]
    exact since hs (by rw [hpush]; rfl)
  · obtain ⟨_, _, hone, _⟩ := slotOf_eq hx
    exact handed_to hpc hone hh huv hresult

/-- A message that was written for a connected slot is handed to the connection
that held the slot then, or it is refused. -/
theorem unicast_delivered {x : ENet.Slot} {bs : List Action} {u : State} {g : ENet.Host}
    (hs : system.Reachable s) (hst : system.step s a = some t) (hw : q ∈ writtenMessages s a)
    (hx : s.world.slotOf q.item = some x) (hc : x.state = .connected)
    (hr : system.run t bs = some u) (hpc : u.world.worker = some (.handing q))
    (hh : u.enet = some g) :
    u.world.session = s.world.session ∧ ((g.slot q.item.slot).connection = x.connection ∨
      ∀ channelID packet allocates,
        ENet.peerSend g (g.peers q.item.slot) channelID packet allocates = none) ∧
      ∀ input v, system.step u (.worker input) = some v → HandedTo x.connection q u v :=
  message_delivered hs hst hw hx (by rw [hc]; decide) hr hpc hh

/-! ## A connection comes up -/

/-- A datagram for the first slot. -/
def firstDatagram (address : ENet.Address) (source : address.host ≠ ENet.enetHostBroadcast)
    (body : ENet.Body) : ENet.Datagram where
  address := address
  peerID := some 0
  commands := [{ body := body }]
  source := source

/-- A host with one slot accepts a connection, from one turn of the thread's loop
to the next. -/
def acceptRun (address : ENet.Address) (source : address.host ≠ ENet.enetHostBroadcast) :
    List Action :=
  List.replicate 10 (.worker {}) ++
    [received (connectDatagram address source), .worker {},
      .worker { service := { send := { reliable := [true] } } }, .worker {}, .worker {},
      .worker { service := { arrived := true } }, .worker {}, .worker {}, .worker {},
      received (firstDatagram address source (.acknowledge 1 true))] ++
    List.replicate 4 (.worker {})

def connectRun : List Action :=
  .game (.call (.setMaxPeers 1) {}) :: boundRun ++ acceptRun ⟨1, 1⟩ (by decide)

/-- A packet for the connection, up to the write into the queue. -/
def packetRun : List Action :=
  connectRun ++ [.game (.call (.getPeer 0) {}), .game (.call (.sendPacket ⟨1, 0⟩ [7] 0 2) {}),
    .game (.go {}), .game (.go {})]

theorem unicast_delivered_packet :
    ∃ (s t u : State) (q : QueuedMessage) (x : ENet.Slot) (g : ENet.Host),
      system.run .fresh packetRun = some s ∧ system.step s (.game (.go {})) = some t ∧
      system.run t (List.replicate 7 (.worker {})) = some u ∧
      u.world.worker = some (.handing q) ∧ u.enet = some g ∧ x.state = .connected ∧
      (u.world.session = s.world.session ∧ ((g.slot q.item.slot).connection = x.connection ∨
        ∀ channelID packet allocates,
          ENet.peerSend g (g.peers q.item.slot) channelID packet allocates = none) ∧
        ∀ input v, system.step u (.worker input) = some v → HandedTo x.connection q u v) := by
  let s := (system.run .fresh packetRun).get (by rfl)
  have hs : system.run .fresh packetRun = some s := (Option.some_get _).symm
  let t := (system.step s (.game (.go {}))).get (by rfl)
  have hst : system.step s (.game (.go {})) = some t := (Option.some_get _).symm
  let u := (system.run t (List.replicate 7 (.worker {}))).get (by rfl)
  have hu : system.run t (List.replicate 7 (.worker {})) = some u := (Option.some_get _).symm
  have hslot : (s.world.slotOf ⟨.reliable, false, 0, 0, [7]⟩).map (·.state) = some .connected := by
    rfl
  obtain ⟨x, hx, hc⟩ := Option.map_eq_some_iff.mp hslot
  exact ⟨s, t, u, _, x, _, hs, hst, hu, by rfl, by rfl, hc,
    unicast_delivered (Machine.Reachable.run (.start fresh_start) hs) hst
      (List.mem_singleton.mpr rfl) hx hc hu (by rfl) (by rfl)⟩

end GDNet
