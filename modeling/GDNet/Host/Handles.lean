import GDNet.Host.Slots

/-!
# Peer handles and sessions

A `GDNetPeer` keeps its pointer into the peer array for as long as the script
keeps the object, over any number of `unbind` and `bind`.  The guard of its
methods asks whether some session is bound, not whether it is the session of the
pointer, and `get_address` has no guard.

As long as no method gets past its guard with a pointer of another session, every
pointer a thread uses is into the array of the session, every peer id is an index
of it, and so is the one `send_messages` takes from a message.
-/

namespace GDNet

open Transition

variable {s t : State} {a : Action} {c : Call} {env : Env}

/-! ## What a step uses -/

def GamePc.peer : GamePc → Option PeerPtr
  | .lockAccess _ p => some p
  | .lockHost _ p => some p
  | .unlockAccess _ p => some p
  | .inside _ p => some p
  | .addressHost p _ => some p
  | .sending p _ _ => some p
  | _ => none

/-- The method that does not look at `_host->_host`. -/
def Call.unguarded : Call → Bool
  | .getAddress _ => true
  | _ => false

/-- The `_peer` that a step uses, its guard passed.  A `send_var` counts here, even if its
value cannot be encoded and it returns before it asks for the peer id. -/
def Uses (s : State) : Action → Option PeerPtr
  | .worker _ => none
  | .game (.call c _) => if s.enet.isSome || c.unguarded then c.peer else none
  | .game (.go _) => s.game.pc.peer

/-- A method is called without a session, unless it is `get_address`, or on a
pointer of the session. -/
def Current (s : State) : Action → Prop
  | .game (.call c _) => ∀ p ∈ c.peer,
    (s.enet = none ∧ c.unguarded = false) ∨ (s.enet.isSome ∧ p.session = s.world.session)
  | _ => True

/-- The index of the message is one of `n` peers, if it is for one peer. -/
def Message.InRange (m : Message) (n : Nat) : Prop :=
  m.broadcast = false → 0 ≤ m.peerId ∧ m.peerId < n

/-! ## Where pointers come from -/

structure Handles (s : State) : Prop where
  session : ∀ p ∈ s.game.handles, p.session ≤ s.world.session
  slot : ∀ p ∈ s.game.handles, p.session = s.world.session →
    ∀ h, s.enet = some h → p.slot < h.peerCount
  found : ∀ i args h, s.game.pc = .found i args → s.enet = some h → i < h.peerCount

theorem go_obtains {w' : World} {g' : Game} {env : Env} {pc : GamePc} (hi : Handles s)
    (hpc : s.game.pc = pc) (hs : GoStep gameThread s.world s.game env pc w' g') {p : PeerPtr}
    (hp : p ∈ g'.handles) : p ∈ s.game.handles ∨
      p.session = s.world.session ∧ ∃ h, s.enet = some h ∧ p.slot < h.peerCount := by
  cases hs with
  | found hh hc =>
    rcases List.mem_append.mp hp with hp | hp
    · exact Or.inl hp
    · obtain rfl := List.mem_singleton.mp hp
      exact Or.inr ⟨rfl, _, hh, hi.found _ _ _ hpc hh⟩
  | _ => exact Or.inl hp

theorem call_obtains {w w' : World} {g g' : Game} {env : Env} {c : Call}
    (hs : CallStep w g env c w' g') {p : PeerPtr} (hp : p ∈ g'.handles) : p ∈ g.handles ∨
      p.session = w.session ∧ ∃ h, w.host.enetHost = some h ∧ p.slot < h.peerCount := by
  cases hs with
  | getPeer hh hi =>
    rcases List.mem_append.mp hp with hp | hp
    · exact Or.inl hp
    · obtain rfl := List.mem_singleton.mp hp
      exact Or.inr ⟨rfl, _, hh, hi⟩
  | _ => exact Or.inl hp

/-- A pointer that a step obtains is into the array of the session. -/
theorem step_obtains (hi : Handles s) (h : Step s a t) {p : PeerPtr} (hp : p ∈ t.game.handles) :
    p ∈ s.game.handles ∨
      p.session = s.world.session ∧ ∃ h, s.enet = some h ∧ p.slot < h.peerCount := by
  cases h with
  | worker hpc hs => exact Or.inl hp
  | call hpc hq hs => exact call_obtains hs hp
  | go hs => exact go_obtains hi rfl hs hp

theorem go_found {w w' : World} {g g' : Game} {env : Env} {pc : GamePc} (hg : g.pc = pc)
    (hs : GoStep gameThread w g env pc w' g') {i : Nat} {args : ConnectArgs}
    (hf : g'.pc = .found i args) : g.pc = .found i args ∨
      w' = w ∧ ∃ h, w.host.enetHost = some h ∧ ENet.hostConnectSearch h = some i := by
  cases hs with
  | searching hh hi => cases hf; exact Or.inr ⟨rfl, _, hh, hi⟩
  | fails hx => exact Or.inl hf
  | _ => cases hf

theorem call_found {w w' : World} {g g' : Game} {env : Env} {c : Call}
    (hs : CallStep w g env c w' g') (hg : g.pc = .idle) {i : Nat} {args : ConnectArgs} :
    g'.pc ≠ .found i args := by
  intro hf
  cases hs with
  | returns => rw [hg] at hf; cases hf
  | setMaxPeers => rw [hg] at hf; cases hf
  | setMaxChannels => rw [hg] at hf; cases hf
  | getPeer hh hi => rw [Game.obtain_pc, hg] at hf; cases hf
  | nullAddress => rw [hg] at hf; cases hf
  | danglingPeer hc hl => rw [hg] at hf; cases hf
  | _ => cases hf

/-- The slot that `connect` has found was found in this step or before it. -/
theorem step_found (h : Step s a t) {i : Nat} {args : ConnectArgs}
    (hf : t.game.pc = .found i args) : s.game.pc = .found i args ∨
      t.world = s.world ∧ ∃ h, s.enet = some h ∧ ENet.hostConnectSearch h = some i := by
  cases h with
  | worker hpc hs => exact Or.inl hf
  | call hpc hp hs => exact absurd hf (call_found hs hpc)
  | go hs => exact go_found rfl hs hf

theorem HostStep.session_le (h : HostStep s a t) : s.world.session ≤ t.world.session := by
  cases h <;> omega

theorem step_handles (hi : Handles s) (h : Step s a t) : Handles t := by
  have hst := step_host h
  have hle := hst.session_le
  -- Either the array is the one from before, or there was none.
  have hnew : ∀ h', t.enet = some h' → (∃ g, s.enet = some g ∧ h'.peerCount = g.peerCount ∧
      t.world.session = s.world.session) ∨ s.world.session < t.world.session := by
    intro h' hh'
    cases hs : s.enet with
    | some g => exact Or.inl ⟨g, rfl, hst.peerCount hs hh'⟩
    | none =>
      right
      cases hst with
      | keep hh _ => rw [hs, hh'] at hh; cases hh
      | receives hh _ _ _ => rw [hs] at hh; cases hh
      | claim _ hh _ _ _ => rw [hs] at hh; cases hh
      | create _ _ _ _ hn => omega
      | destroy _ hh _ => rw [hh'] at hh; cases hh
  refine ⟨fun p hp => ?_, fun p hp hps h' hh' => ?_, fun i args h' hf hh' => ?_⟩
  · rcases step_obtains hi h hp with hp | ⟨hp, _⟩
    · exact Nat.le_trans (hi.session p hp) hle
    · omega
  · rcases hnew h' hh' with ⟨g, hg, hcount, hsame⟩ | hlt
    · rcases step_obtains hi h hp with hp | ⟨_, g', hg', hslot⟩
      · rw [hcount]
        exact hi.slot p hp (hps.trans hsame) g hg
      · obtain rfl := Option.some.inj (hg.symm.trans hg')
        rw [hcount]
        exact hslot
    · rcases step_obtains hi h hp with hp | ⟨hp, _⟩
      · have := hi.session p hp
        omega
      · omega
  · rcases step_found h hf with hf | ⟨hw, g, hg, hsearch⟩
    · rcases hnew h' hh' with ⟨g, hg, hcount, _⟩ | hlt
      · rw [hcount]
        exact hi.found i args g hf hg
      · cases hst with
        | create hpc _ _ _ _ => rw [hpc] at hf; cases hf
        | keep _ hn => omega
        | receives _ _ _ hn => omega
        | claim _ _ _ _ hn => omega
        | destroy _ _ hn => omega
    · have hsame : t.enet = s.enet := by rw [State.enet, hw]
      obtain rfl := Option.some.inj (hg.symm.trans (hsame.symm.trans hh'))
      exact (ENet.connectSearch_eq hsearch).1

theorem handles (h : system.Reachable s) : Handles s := by
  have h₀ : ∀ s, system.start s → Handles s := by
    rintro s ⟨events, messages, rfl⟩
    refine ⟨fun p hp => ?_, fun p hp => ?_, fun i args h hf => ?_⟩
    · cases hp
    · cases hp
    · cases hf
  exact h.invariant h₀ fun _ _ _ hi hs => step_handles hi (step_cases hs).2

theorem live_isSome {w : World} {p : PeerPtr} {h : ENet.Host} (hh : w.host.enetHost = some h) :
    (w.live p).isSome ↔ p.session = w.session ∧ p.slot < h.peerCount := by
  rw [World.live, hh]
  show (if _ then _ else _ : Option ENet.Host).isSome ↔ _
  split
  · next hc => exact ⟨fun _ => hc, fun _ => rfl⟩
  · next hc => exact ⟨fun hn => (by cases hn), fun hn => absurd hn hc⟩

theorem Handles.live (hi : Handles s) {p : PeerPtr} (hp : p ∈ s.game.handles)
    (hb : s.enet.isSome) (hs : p.session = s.world.session) : (s.world.live p).isSome := by
  obtain ⟨h, hh⟩ := Option.isSome_iff_exists.mp hb
  exact (live_isSome hh).mpr ⟨hs, hi.slot p hp hs h hh⟩

/-! ## Runs whose methods are called on pointers of the session -/

/-- The points of a call that needs a session to the end. -/
theorem GamePc.peer_bound {pc : GamePc} {p : PeerPtr} (h : pc.peer = some p) :
    pc.shape = some .bound := by
  cases pc <;> first | rfl | cases h

theorem GamePc.message_bound {pc : GamePc} {m : Message} (h : pc.message = some m) :
    pc.shape = some .bound := by
  cases pc <;> first | rfl | cases h

structure Fresh (s : State) : Prop where
  peer : ∀ p, s.game.pc.peer = some p → (s.world.live p).isSome
  message : ∀ m h, s.game.pc.message = some m → s.enet = some h → m.InRange h.peerCount
  carried : ∀ q h, s.Carries q → s.enet = some h → q.item.InRange h.peerCount

/-- A pointer that is live stays so while the host is the same. -/
theorem live_kept {w w' : World} {p : PeerPtr} {h h' : ENet.Host} (hh : w.host.enetHost = some h)
    (hh' : w'.host.enetHost = some h') (hc : h'.peerCount = h.peerCount)
    (hs : w'.session = w.session) (hp : (w.live p).isSome) : (w'.live p).isSome := by
  rw [live_isSome hh', hs, hc]
  exact (live_isSome hh).mp hp

theorem getPeerId_live {w : World} {p : PeerPtr} {h : ENet.Host} (hh : w.host.enetHost = some h)
    (hp : (w.live p).isSome) (env : Env) :
    0 ≤ w.getPeerId p env ∧ w.getPeerId p env < h.peerCount := by
  obtain ⟨hs, hslot⟩ := (live_isSome hh).mp hp
  have hid : w.getPeerId p env = p.slot := by
    rw [World.getPeerId, hh]
    exact if_pos hs
  rw [hid]
  exact ⟨Int.natCast_nonneg _, Int.ofNat_lt.mpr hslot⟩

/-- Where the pointer and the message of a later point of a call come from. -/
theorem go_peer {w w' : World} {g g' : Game} {env : Env} {pc : GamePc} (hg : g.pc = pc)
    (hs : GoStep gameThread w g env pc w' g') {p : PeerPtr} (hp : g'.pc.peer = some p) :
    pc.peer = some p := by
  cases hs with
  | lockAccess hm => exact hp
  | lockHost hm => exact hp
  | unlockAccess hm => exact hp
  | fails hf => rw [← hg]; exact hp
  | _ => cases hp

theorem go_message {w w' : World} {g g' : Game} {env : Env} {pc : GamePc} (hg : g.pc = pc)
    (hs : GoStep gameThread w g env pc w' g') {m : Message} (hm : g'.pc.message = some m) :
    pc.message = some m ∨
      ∃ p draft, pc = .sending p draft true ∧ m = { draft with peerId := w.getPeerId p env } := by
  cases hs with
  | sending => cases hm; exact Or.inr ⟨_, _, rfl, rfl⟩
  | pushTest hf => exact Or.inl hm
  | fails hf => rw [← hg]; exact Or.inl hm
  | _ => cases hm

theorem call_peer {w w' : World} {g g' : Game} {env : Env} {c : Call}
    (hs : CallStep w g env c w' g') (hg : g.pc = .idle) {p : PeerPtr}
    (hp : g'.pc.peer = some p) : c.peer = some p ∧ w.host.enetHost.isSome ∧ w' = w := by
  cases hs with
  | returns => rw [hg] at hp; cases hp
  | setMaxPeers => rw [hg] at hp; cases hp
  | setMaxChannels => rw [hg] at hp; cases hp
  | getPeer hh hi => rw [Game.obtain_pc, hg] at hp; cases hp
  | nullAddress => rw [hg] at hp; cases hp
  | danglingPeer hc hl => rw [hg] at hp; cases hp
  | getAddress hl =>
    cases hp
    refine ⟨rfl, ?_, rfl⟩
    rw [(World.live_eq hl).1]
    rfl
  | locked hb => cases hp; exact ⟨rfl, hb, rfl⟩
  | send hb hq hm => cases hp; exact ⟨hq, hb, rfl⟩
  | _ => cases hp

theorem call_message {w w' : World} {g g' : Game} {env : Env} {c : Call}
    (hs : CallStep w g env c w' g') (hg : g.pc = .idle) {m : Message}
    (hm : g'.pc.message = some m) : m.broadcast = true := by
  cases hs with
  | returns => rw [hg] at hm; cases hm
  | setMaxPeers => rw [hg] at hm; cases hm
  | setMaxChannels => rw [hg] at hm; cases hm
  | getPeer hh hi => rw [Game.obtain_pc, hg] at hm; cases hm
  | nullAddress => rw [hg] at hm; cases hm
  | danglingPeer hc hl => rw [hg] at hm; cases hm
  | broadcast hb hc hp => cases hm; exact hc
  | _ => cases hm

theorem Life.enet (hl : Life s) (hb : s.game.pc.shape = some .bound) : ∃ h, s.enet = some h :=
  Option.isSome_iff_exists.mp (congrArg Shape.enetHost (hl.bound hb))

theorem fresh_peer (hf : Fresh s) (hi : Handles s) (hl : Life s) (hc : Current s a)
    (h : Step s a t) {p : PeerPtr} (hp : t.game.pc.peer = some p) : (t.world.live p).isSome := by
  obtain ⟨h', hh'⟩ := (step_life hl h).enet (GamePc.peer_bound hp)
  have hkept : s.game.pc.peer = some p → (t.world.live p).isSome := by
    intro hs
    obtain ⟨g, hg⟩ := hl.enet (GamePc.peer_bound hs)
    obtain ⟨hcount, hsame⟩ := (step_host h).peerCount hg hh'
    exact live_kept hg hh' hcount hsame (hf.peer p hs)
  cases h with
  | worker hpc hs => exact hkept hp
  | call hpc hq hs =>
    obtain ⟨hcp, hb, rfl⟩ := call_peer hs hpc hp
    rw [hcp] at hq
    rcases hc p hcp with ⟨hn, _⟩ | ⟨_, hps⟩
    · rw [show s.world.host.enetHost = none from hn] at hb
      cases hb
    · exact hi.live (of_decide_eq_true hq) hb hps
  | go hs => exact hkept (go_peer rfl hs hp)

theorem fresh_message (hf : Fresh s) (hl : Life s) (h : Step s a t) {m : Message} {h' : ENet.Host}
    (hm : t.game.pc.message = some m) (hh' : t.enet = some h') : m.InRange h'.peerCount := by
  have hkept : s.game.pc.message = some m → m.InRange h'.peerCount := by
    intro hs
    obtain ⟨g, hg⟩ := hl.enet (GamePc.message_bound hs)
    rw [((step_host h).peerCount hg hh').1]
    exact hf.message m g hs hg
  have hst := step_host h
  cases h with
  | worker hpc hs => exact hkept hm
  | call hpc hp hs =>
    intro hb
    rw [call_message hs hpc hm] at hb
    cases hb
  | go hs =>
    rcases go_message rfl hs hm with hm | ⟨p, draft, hpc, rfl⟩
    · exact hkept hm
    · have hpeer : s.game.pc.peer = some p := by rw [hpc]; rfl
      obtain ⟨g, hg⟩ := hl.enet (GamePc.peer_bound hpeer)
      rw [(hst.peerCount hg hh').1]
      exact fun _ => getPeerId_live hg (hf.peer p hpeer) _

theorem written_message {q : QueuedMessage} (h : q ∈ writtenMessages s a) :
    s.game.pc = .pushWrite q.item ∧ q = s.world.queuedMessage s.game.since q.item := by
  unfold writtenMessages at h
  split at h
  · cases h
  · cases h
  · split at h
    · next m hpc =>
      obtain rfl := List.mem_singleton.mp h
      exact ⟨hpc, rfl⟩
    · cases h

theorem fresh_carried (hf : Fresh s) (hq : Queues s) (hcl : Cleared s) (hl : Life s)
    (h : Step s a t) {q : QueuedMessage} {h' : ENet.Host} (hc : t.Carries q)
    (hh' : t.enet = some h') : q.item.InRange h'.peerCount := by
  have hst := step_host h
  rcases step_carries hq h hc with hc | hw
  · cases hs : s.enet with
    | some g =>
      rw [(hst.peerCount hs hh').1]
      exact hf.carried q g hc hs
    | none =>
      -- A session starts with nothing in the queue and no thread.
      have hworker : s.world.worker = none := by
        cases hw : s.world.worker with
        | none => rfl
        | some pc =>
          have := (hl.worker (by rw [hw]; rfl)).1
          rw [show s.world.host.enetHost = none from hs] at this
          cases this
      cases hst with
      | create hpc _ _ _ _ =>
        rcases hc with hc | hc
        · rw [(hcl hworker).1 (by rw [hpc]; exact id)] at hc
          cases hc
        · rw [hworker] at hc
          cases hc
      | keep hh _ => rw [hs, hh'] at hh; cases hh
      | receives hh _ _ _ => rw [hs] at hh; cases hh
      | claim _ hh _ _ _ => rw [hs] at hh; cases hh
      | destroy _ hh _ => rw [hh'] at hh; cases hh
  · have hm : s.game.pc.message = some q.item := by rw [(written_message hw).1]; rfl
    obtain ⟨g, hg⟩ := hl.enet (GamePc.message_bound hm)
    rw [(hst.peerCount hg hh').1]
    exact hf.message _ g hm hg

theorem step_fresh (hr : system.Reachable s) (hf : Fresh s) (hc : Current s a) (h : Step s a t) :
    Fresh t where
  peer _ := fresh_peer hf (handles hr) (life hr) hc h
  message _ _ := fresh_message hf (life hr) h
  carried _ _ := fresh_carried hf (queues hr) (cleared hr) (life hr) h

/-- `send_messages` leaves the array only with an index beyond it. -/
theorem handOver_inRange {h : ENet.Host} {m : Message} {input : WorkerInput}
    (hm : m.InRange h.peerCount) : handOver h m input ≠ none := by
  unfold handOver
  simp only
  split
  · exact Option.some_ne_none _
  · split
    · exact Option.some_ne_none _
    · next hb =>
      rw [if_pos (hm (Bool.eq_false_iff.mpr hb))]
      exact Option.some_ne_none _

theorem current_live (hi : Handles s) (hc : Current s (.game (.call c env))) {p : PeerPtr}
    (hp : c.peer = some p) (hh : p ∈ s.game.handles) (hg : s.enet.isSome || c.unguarded) :
    (s.world.live p).isSome := by
  rcases hc p hp with ⟨hn, hu⟩ | ⟨hb, hs⟩
  · rw [hn, hu] at hg
    cases hg
  · exact hi.live hh hb hs

theorem call_handle {p : PeerPtr} (hc : c.peer.all (· ∈ s.game.handles)) (hp : c.peer = some p) :
    p ∈ s.game.handles := by
  rw [hp] at hc
  exact of_decide_eq_true hc

theorem uses_live (hf : Fresh s) (hi : Handles s) (hc : Current s a) (h : Step s a t) {p : PeerPtr}
    (hu : Uses s a = some p) : (s.world.live p).isSome := by
  cases h with
  | worker hpc hs => cases hu
  | call hpc hp hs =>
    simp only [Uses, Option.ite_none_right_eq_some] at hu
    exact current_live hi hc hu.2 (call_handle hp hu.2) hu.1
  | go hs => exact hf.peer p hu

def Harmless (w : World) : Prop := w.fault ≠ some .danglingPeer ∧ w.fault ≠ some .badIndex

theorem worker_harmless {w' : World} {input : WorkerInput} {pc : WorkerPc} (hf : Fresh s)
    (hw : s.world.fault = none) (hpc : s.world.worker = some pc)
    (hs : WorkerStep s.world input pc w') : Harmless w' := by
  cases hs with
  | fails hx =>
    refine ⟨fun e => ?_, fun e => ?_⟩
    · obtain rfl := Option.some.inj e
      cases hx
    · obtain rfl := Option.some.inj e
      cases hx with
      | badIndex hh ho => exact handOver_inRange (hf.carried _ _ (Or.inr hpc) hh) ho
  | _ => simp [Harmless, hw]

theorem go_harmless {w' : World} {g' : Game} {pc : GamePc} (hf : Fresh s)
    (hw : s.world.fault = none) (hpc : s.game.pc = pc)
    (hs : GoStep gameThread s.world s.game env pc w' g') : Harmless w' := by
  have hlive : ∀ {p : PeerPtr}, pc.peer = some p → s.world.live p ≠ none := by
    intro p hp e
    have := hf.peer p (by rw [hpc]; exact hp)
    rw [e] at this
    cases this
  cases hs with
  | fails hx =>
    refine ⟨fun e => ?_, fun e => ?_⟩
    · obtain rfl := Option.some.inj e
      cases hx with
      | inside hl => exact hlive rfl hl
      | addressHost hl => exact hlive rfl hl
    · obtain rfl := Option.some.inj e
      cases hx
  | _ => simp [Harmless, hw]

theorem step_harmless (hf : Fresh s) (hi : Handles s) (hc : Current s a)
    (hw : s.world.fault = none) (h : Step s a t) : Harmless t.world := by
  cases h with
  | worker hpc hs => exact worker_harmless hf hw hpc hs
  | go hs => exact go_harmless hf hw rfl hs
  | call hpc hp hs =>
    cases hs with
    | danglingPeer hx hl =>
      refine ⟨fun _ => ?_, fun e => by cases e⟩
      rcases hx with rfl | ⟨rfl, hb⟩
      · have := current_live hi hc rfl (call_handle hp rfl) (by simp [Call.unguarded])
        rw [hl] at this
        cases this
      · have := current_live hi hc rfl (call_handle hp rfl) (by simp [hb])
        rw [hl] at this
        cases this
    | _ => simp [Harmless, hw]

theorem run_fresh {as : List Action} (h₀ : system.start s) (hc : system.Along Current s as)
    (hr : system.run s as = some t) : Fresh t ∧ Harmless t.world := by
  refine (Machine.run_preserves (I := fun u => system.Reachable u ∧ Fresh u ∧ Harmless u.world)
    ?_ hc ?_ hr).2
  · rintro u a v hcu ⟨hu, hf, _⟩ huv
    obtain ⟨hw, hst⟩ := step_cases huv
    exact ⟨hu.step huv, step_fresh hu hf hcu hst, step_harmless hf (handles hu) hcu hw hst⟩
  · refine ⟨.start h₀, ?_⟩
    obtain ⟨events, messages, rfl⟩ := h₀
    refine ⟨⟨fun p hp => ?_, fun m h hm => ?_, fun q h _ hh => ?_⟩, fun e => ?_, fun e => ?_⟩
    · cases hp
    · cases hm
    · cases hh
    · cases e
    · cases e

theorem call_current (hi : Handles s) (h : Step s (.game (.call c env)) t) :
    (∀ p, Uses s (.game (.call c env)) = some p → (s.world.live p).isSome) ↔
      Current s (.game (.call c env)) := by
  constructor
  · intro hu p hp
    cases hb : s.enet with
    | none =>
      left
      refine ⟨rfl, Bool.eq_false_iff.mpr fun hx => ?_⟩
      have hl := hu p (by simp only [Uses, hb, hx]; exact hp)
      rw [World.live, show s.world.host.enetHost = none from hb] at hl
      cases hl
    | some g =>
      right
      have hl := hu p (by simp only [Uses, hb]; exact hp)
      exact ⟨rfl, ((live_isSome hb).mp hl).1⟩
  · exact fun hc p hu => by
      cases h with
      | call hpc hp hs =>
        simp only [Uses, Option.ite_none_right_eq_some] at hu
        exact current_live hi hc hu.2 (call_handle hp hu.2) hu.1

/-- While methods are called on pointers of the session only, no thread uses another
pointer or an index beyond the peers; and only such calls keep to the array. -/
theorem handles_current (s : State) :
    (∀ as t, system.start s → system.Along Current s as → system.run s as = some t →
      (∀ a u p, Current t a → system.step t a = some u → Uses t a = some p →
        ∃ h, t.enet = some h ∧ p.session = t.world.session ∧ p.slot < h.peerCount ∧
          ∀ env, 0 ≤ t.world.getPeerId p env ∧ t.world.getPeerId p env < h.peerCount) ∧
      (∀ q h, t.world.worker = some (.handing q) → t.enet = some h → q.item.broadcast = false →
        0 ≤ q.item.peerId ∧ q.item.peerId < h.peerCount) ∧
      t.world.fault ≠ some .danglingPeer ∧ t.world.fault ≠ some .badIndex) ∧
    (∀ c env t, system.Reachable s → system.step s (.game (.call c env)) = some t →
      ((∀ p, Uses s (.game (.call c env)) = some p → (s.world.live p).isSome) ↔
        Current s (.game (.call c env)))) := by
  refine ⟨fun as t h₀ hc hr => ?_, fun c env t hs hst =>
    call_current (handles hs) (step_cases hst).2⟩
  obtain ⟨hf, hw⟩ := run_fresh h₀ hc hr
  have ht : system.Reachable t := Machine.Reachable.run (.start h₀) hr
  refine ⟨fun a u p hca hst hu => ?_, fun q h hpc hh => hf.carried q h (Or.inr hpc) hh, hw⟩
  have hlive := uses_live hf (handles ht) hca (step_cases hst).2 hu
  obtain ⟨h, hh⟩ := Option.isSome_iff_exists.mp hlive
  obtain ⟨he, hs, hslot⟩ := World.live_eq hh
  exact ⟨h, he, hs, hslot, getPeerId_live he hlive⟩

instance (s : State) (a : Action) : Decidable (Current s a) :=
  match a with
  | .worker _ => .isTrue trivial
  | .game (.go _) => .isTrue trivial
  | .game (.call c _) => inferInstanceAs (Decidable (∀ p ∈ c.peer,
      (s.enet = none ∧ c.unguarded = false) ∨ (s.enet.isSome ∧ p.session = s.world.session)))

/-- A packet for the sixth peer, up to where the host thread hands it over. -/
def sendRun : List Action :=
  boundRun ++ [.game (.call (.getPeer 5) {}), .game (.call (.sendPacket ⟨1, 5⟩ [7] 0 2) {})] ++
    List.replicate 3 (.game (.go {})) ++ List.replicate 7 (.worker {})

theorem handles_current_send :
    ∃ t q h, system.run .fresh sendRun = some t ∧ t.world.worker = some (.handing q) ∧
      t.enet = some h ∧ q.item.broadcast = false ∧ q.item.peerId = 5 ∧
      (0 ≤ q.item.peerId ∧ q.item.peerId < h.peerCount) := by
  have hr : (system.run .fresh sendRun).isSome := by rfl
  have hc : system.Along Current .fresh sendRun := by decide
  have ht := (Option.some_get hr).symm
  exact ⟨_, _, _, ht, by rfl, by rfl, by rfl, by rfl,
    ((handles_current .fresh).1 sendRun _ fresh_start hc ht).2.1 _ _ (by rfl) (by rfl) (by rfl)⟩

/-- The handle is used after `unbind`. -/
def addressRun : List Action :=
  boundRun ++ [.game (.call (.getPeer 5) {})] ++ unbindRun ++
    [.game (.call (.getAddress ⟨1, 5⟩) {})]

/-- The handle is used in the next session, which has one peer. -/
def indexRun : List Action :=
  boundRun ++ [.game (.call (.getPeer 5) {})] ++ unbindRun ++
    [.game (.call (.setMaxPeers 1) {})] ++ boundRun ++
    [.game (.call (.sendPacket ⟨1, 5⟩ [7] 0 2) {}), .game (.go { difference := 1000 })] ++
    List.replicate 2 (.game (.go {})) ++ List.replicate 8 (.worker {})

theorem stale_handle :
    (system.run .fresh addressRun).map (·.world.fault) = some (some .danglingPeer) ∧
      (system.run .fresh indexRun).map (·.world.fault) = some (some .badIndex) := by
  exact ⟨by rfl, by rfl⟩

end GDNet
