import GDNet.Host.Lifecycle

/-!
# Who owns a host

A `GDNetHost` counts the script's references to it and the `GDNetPeer` objects made
from it.  A reference that brings the count to zero deletes the host; the
destructor of a `GDNetPeer` takes its part off the count and goes on.  The host has
no destructor, so deleting it does nothing about a thread that still runs.
-/

namespace GDNet

open Transition

/-- A host with those who refer to it.  The peer objects are the handles of the game
thread. -/
structure Lifetime where
  state : State
  /-- The count of `Reference`. -/
  count : Nat
  refs : Nat
  deleted : Bool

inductive LifetimeAction where
  | act (a : Action)
  | copyRef
  | dropRef
  | dropPeer (p : PeerPtr)

namespace Lifetime

def peers (l : Lifetime) : List PeerPtr := l.state.game.handles

/-- A method of a host needs a reference to it, any other step of a call the host. -/
def allows (l : Lifetime) : Action → Bool
  | .worker _ => true
  | .game (.call c _) => !l.deleted && (c.peer.isSome || 0 < l.refs)
  | .game (.go _) => !l.deleted

/-- `~GDNetPeer`, which does not look at what `unreference` returns. -/
def dropPeer (l : Lifetime) (p : PeerPtr) : Lifetime :=
  { l with
    state := { l.state with game := { l.state.game with handles := l.state.game.handles.erase p } }
    count := l.count - 1 }

/-- The destructor of a `Ref`, which deletes the host if `unreference` says so. -/
def dropRef (l : Lifetime) : Lifetime :=
  { l with refs := l.refs - 1, count := l.count - 1, deleted := l.count - 1 == 0 }

/-- References and peers come and go between calls. -/
def step (l : Lifetime) : LifetimeAction → Option Lifetime
  | .act a =>
    if l.allows a then
      (system.step l.state a).map fun t =>
        -- Every peer object that was made has called `reference`.
        { l with state := t, count := l.count + (t.game.handles.length - l.peers.length) }
    else none
  | .copyRef =>
    if l.state.game.pc = .idle ∧ 0 < l.refs then
      some { l with refs := l.refs + 1, count := l.count + 1 }
    else none
  | .dropRef => if l.state.game.pc = .idle ∧ 0 < l.refs then some l.dropRef else none
  | .dropPeer p => if l.state.game.pc = .idle ∧ p ∈ l.peers then some (l.dropPeer p) else none

/-- A new host, held by the `Ref` it was made for. -/
def machine : Machine Lifetime LifetimeAction where
  start l := ∃ s, system.start s ∧ l = ⟨s, 1, 1, false⟩
  step := step

/-- Nobody refers to the host. -/
def Unowned (l : Lifetime) : Prop := l.refs = 0 ∧ l.peers = []

instance (l : Lifetime) : Decidable l.Unowned := inferInstanceAs (Decidable (_ ∧ _))

variable {l m : Lifetime} {a : LifetimeAction}

theorem step_act {b : Action} (h : machine.step l (.act b) = some m) :
    l.allows b = true ∧ ∃ t, system.step l.state b = some t ∧
      m = { l with state := t, count := l.count + (t.game.handles.length - l.peers.length) } := by
  change l.step (.act b) = some m at h
  rw [step, Option.ite_none_right_eq_some] at h
  obtain ⟨ha, h⟩ := h
  obtain ⟨t, ht, rfl⟩ := Option.map_eq_some_iff.mp h
  exact ⟨ha, t, ht, rfl⟩

theorem step_copyRef (h : machine.step l .copyRef = some m) :
    0 < l.refs ∧ m = { l with refs := l.refs + 1, count := l.count + 1 } := by
  change l.step .copyRef = some m at h
  rw [step, Option.ite_none_right_eq_some] at h
  exact ⟨h.1.2, (Option.some.inj h.2).symm⟩

theorem step_dropRef (h : machine.step l .dropRef = some m) :
    l.state.game.pc = .idle ∧ 0 < l.refs ∧ m = l.dropRef := by
  change l.step .dropRef = some m at h
  rw [step, Option.ite_none_right_eq_some] at h
  exact ⟨h.1.1, h.1.2, (Option.some.inj h.2).symm⟩

theorem step_dropPeer {p : PeerPtr} (h : machine.step l (.dropPeer p) = some m) :
    l.state.game.pc = .idle ∧ p ∈ l.peers ∧ m = l.dropPeer p := by
  change l.step (.dropPeer p) = some m at h
  rw [step, Option.ite_none_right_eq_some] at h
  exact ⟨h.1.1, h.1.2, (Option.some.inj h.2).symm⟩

/-! ## The count -/

theorem go_handles {w w' : World} {g g' : Game} {env : Env} {pc : GamePc}
    (hs : GoStep gameThread w g env pc w' g') :
    g'.handles = g.handles ∨ ∃ p, g'.handles = g.handles ++ [p] := by
  cases hs with
  | found hh hc => exact Or.inr ⟨_, rfl⟩
  | _ => exact Or.inl rfl

theorem call_handles {w w' : World} {g g' : Game} {env : Env} {c : Call}
    (hs : CallStep w g env c w' g') :
    g'.handles = g.handles ∨ (∃ p, g'.handles = g.handles ++ [p]) ∧ c.peer = none := by
  cases hs with
  | getPeer hh hi => exact Or.inr ⟨⟨_, rfl⟩, rfl⟩
  | _ => exact Or.inl rfl

/-- What the count counts, and what is so of a host that was deleted. -/
structure Inv (l : Lifetime) : Prop where
  life : Life l.state
  count : l.count = l.refs + l.peers.length
  deleted : l.deleted = true → l.Unowned ∧ l.state.game.pc = .idle

theorem Inv.counted (hi : l.Inv) : l.count = 0 ↔ l.Unowned := by
  rw [hi.count, Nat.add_eq_zero_iff, List.length_eq_zero_iff]
  rfl

theorem act_inv {t : State} {b : Action} (hi : l.Inv) (ha : l.allows b = true)
    (h : system.step l.state b = some t) :
    Inv { l with state := t, count := l.count + (t.game.handles.length - l.peers.length) } := by
  have hst := (step_cases h).2
  have hgrow : l.peers.length ≤ t.game.handles.length := by
    cases hst with
    | worker hpc hs => exact Nat.le_refl _
    | call hpc hp hs =>
      rcases call_handles hs with e | ⟨⟨p, e⟩, _⟩
      · exact Nat.le_of_eq (congrArg List.length e).symm
      · rw [e, List.length_append]
        exact Nat.le_add_right _ _
    | go hs =>
      rcases go_handles hs with e | ⟨p, e⟩
      · exact Nat.le_of_eq (congrArg List.length e).symm
      · rw [e, List.length_append]
        exact Nat.le_add_right _ _
  refine ⟨step_life hi.life hst, ?_, fun hd => ?_⟩
  · show l.count + (t.game.handles.length - l.peers.length) = l.refs + t.game.handles.length
    rw [hi.count]
    omega
  · -- Only the host thread takes steps on a host that was deleted.
    change l.deleted = true at hd
    obtain ⟨⟨hrefs, hpeers⟩, hidle⟩ := hi.deleted hd
    cases hst with
    | worker hpc hs => exact ⟨⟨hrefs, hpeers⟩, hidle⟩
    | call hpc hp hs => simp [allows, hd] at ha
    | go hs => simp [allows, hd] at ha

theorem step_inv (hi : l.Inv) (h : machine.step l a = some m) : m.Inv := by
  cases a with
  | act b =>
    obtain ⟨ha, t, ht, rfl⟩ := step_act h
    exact act_inv hi ha ht
  | copyRef =>
    obtain ⟨hr, rfl⟩ := step_copyRef h
    refine ⟨hi.life, ?_, fun hd => ?_⟩
    · show l.count + 1 = l.refs + 1 + l.peers.length
      have := hi.count
      omega
    · have := (hi.deleted hd).1.1
      omega
  | dropRef =>
    obtain ⟨hpc, hr, rfl⟩ := step_dropRef h
    have hcount : l.count - 1 = l.refs - 1 + l.peers.length := by
      have := hi.count
      omega
    refine ⟨hi.life, hcount, fun hd => ?_⟩
    have hzero : l.count - 1 = 0 := of_decide_eq_true hd
    have hrefs : l.refs - 1 = 0 := by omega
    have hpeers : l.peers.length = 0 := by omega
    exact ⟨⟨hrefs, List.length_eq_zero_iff.mp hpeers⟩, hpc⟩
  | dropPeer p =>
    obtain ⟨hpc, hp, rfl⟩ := step_dropPeer h
    refine ⟨?_, ?_, fun hd => ?_⟩
    · exact hi.life
    · show l.count - 1 = l.refs + (l.peers.erase p).length
      have hpos := List.length_pos_of_mem hp
      rw [List.length_erase_of_mem hp, hi.count]
      omega
    · rw [(hi.deleted hd).1.2] at hp
      cases hp

theorem reachable_inv (h : machine.Reachable l) : l.Inv := by
  have h₀ : ∀ l, machine.start l → l.Inv := by
    rintro l ⟨s, ⟨events, messages, rfl⟩, rfl⟩
    exact ⟨Or.inr rfl, rfl, fun hd => by cases hd⟩
  exact h.invariant h₀ fun _ _ _ => step_inv

/-! ## Deletion by the last owner -/

/-- The step drops a peer object that was the last to refer to the host. -/
def LastPeer (l : Lifetime) : LifetimeAction → Prop
  | .dropPeer _ => l.count = 1
  | _ => False

instance (l : Lifetime) (a : LifetimeAction) : Decidable (LastPeer l a) :=
  match a with
  | .dropPeer _ => inferInstanceAs (Decidable (l.count = 1))
  | .act _ => .isFalse id
  | .copyRef => .isFalse id
  | .dropRef => .isFalse id

theorem step_deletes (hi : l.Inv) (hd : l.Unowned → l.deleted = true) (hc : ¬LastPeer l a)
    (h : machine.step l a = some m) : m.Unowned → m.deleted = true := by
  have hi' := step_inv hi h
  intro hm
  have hzero := hi'.counted.mpr hm
  cases a with
  | act b =>
    obtain ⟨ha, t, ht, rfl⟩ := step_act h
    have hcount : l.count + (t.game.handles.length - l.peers.length) = 0 := hzero
    exact hd (hi.counted.mp (by omega))
  | copyRef =>
    obtain ⟨_, rfl⟩ := step_copyRef h
    exact absurd hzero (Nat.succ_ne_zero _)
  | dropRef =>
    obtain ⟨_, _, rfl⟩ := step_dropRef h
    exact decide_eq_true hzero
  | dropPeer p =>
    obtain ⟨_, hp, rfl⟩ := step_dropPeer h
    have hpos := List.length_pos_of_mem hp
    have hcount := hi.count
    have hone : l.count ≠ 1 := hc
    have hlast : l.count - 1 = 0 := hzero
    omega

/-- A host that nobody refers to and nobody deleted stays so. -/
structure Orphaned (l : Lifetime) : Prop where
  unowned : l.Unowned
  kept : l.deleted = false
  idle : l.state.game.pc = .idle

theorem step_orphaned (ho : l.Orphaned) (h : machine.step l a = some m) : m.Orphaned := by
  obtain ⟨⟨hrefs, hpeers⟩, hkept, hidle⟩ := ho
  cases a with
  | act b =>
    obtain ⟨ha, t, ht, rfl⟩ := step_act h
    cases (step_cases ht).2 with
    | worker hpc hs => exact ⟨⟨hrefs, hpeers⟩, hkept, hidle⟩
    | @call c env w g hpc hp hs =>
      -- Without a reference only a peer could be asked, and there is none.
      simp only [allows, hkept, hrefs, Bool.not_false, Bool.true_and, Nat.lt_irrefl, decide_false,
        Bool.or_false] at ha
      obtain ⟨p, hc⟩ := Option.isSome_iff_exists.mp ha
      rw [show l.state.game.handles = [] from hpeers, hc] at hp
      cases hp
    | go hs =>
      rw [hidle] at hs
      cases hs with
      | fails hf => cases hf
  | copyRef =>
    have := (step_copyRef h).1
    omega
  | dropRef =>
    have := (step_dropRef h).2.1
    omega
  | dropPeer p =>
    have hp := (step_dropPeer h).2.1
    rw [hpeers] at hp
    cases hp

theorem lastPeer_orphaned (hi : l.Inv) (hl : LastPeer l a) (h : machine.step l a = some m) :
    m.Orphaned := by
  have hi' := step_inv hi h
  cases a with
  | dropPeer p =>
    obtain ⟨hpc, hp, rfl⟩ := step_dropPeer h
    have hone : l.count = 1 := hl
    refine ⟨hi'.counted.mp (by rw [dropPeer, hone]), ?_, hpc⟩
    cases hd : l.deleted with
    | false => exact hd
    | true =>
      rw [(hi.deleted hd).1.2] at hp
      cases hp
  | act b => exact hl.elim
  | copyRef => exact hl.elim
  | dropRef => exact hl.elim

/-- A host lives as long as somebody refers to it, and it is deleted with the last of
them, if that is a reference.  If it is a peer object, the host is never deleted. -/
theorem deleted_with_last (l : Lifetime) :
    (∀ as m, machine.start l → machine.run l as = some m →
      (m.deleted = true → m.Unowned) ∧
      (machine.Along (fun l a => ¬LastPeer l a) l as → (m.Unowned → m.deleted = true))) ∧
    (∀ a m, machine.Reachable l → LastPeer l a → machine.step l a = some m →
      ∀ as u, machine.run m as = some u → u.Unowned ∧ u.deleted = false) := by
  refine ⟨fun as m h₀ hr => ?_, fun a m hl hlast hst as u hr => ?_⟩
  · have hm : machine.Reachable m := Machine.Reachable.run (.start h₀) hr
    refine ⟨fun hd => ((reachable_inv hm).deleted hd).1, fun hc => ?_⟩
    refine (Machine.run_preserves (I := fun l => l.Inv ∧ (l.Unowned → l.deleted = true))
      ?_ hc ?_ hr).2
    · exact fun l a m hc hi h => ⟨step_inv hi.1 h, step_deletes hi.1 hi.2 hc h⟩
    · refine ⟨reachable_inv (.start h₀), fun hu => ?_⟩
      obtain ⟨s, _, rfl⟩ := h₀
      exact absurd hu.1 (Nat.succ_ne_zero 0)
  · have ho := lastPeer_orphaned (reachable_inv hl) hlast hst
    have hu : u.Orphaned := Machine.run_invariant (fun _ _ _ => step_orphaned) ho hr
    exact ⟨hu.unowned, hu.kept⟩

def fresh : Lifetime := ⟨.fresh, 1, 1, false⟩

theorem fresh_start : machine.start fresh := ⟨.fresh, GDNet.fresh_start, rfl⟩

/-- A peer object is made and dropped before the reference. -/
def peerFirstRun : List LifetimeAction :=
  boundRun.map .act ++ [.act (.game (.call (.getPeer 5) {}))] ++ unbindRun.map .act ++
    [.dropPeer ⟨1, 5⟩, .dropRef]

theorem deleted_with_last_ref :
    ∃ m, machine.run fresh peerFirstRun = some m ∧ m.Unowned ∧ m.deleted = true := by
  let m := (machine.run fresh peerFirstRun).get (by rfl)
  have hr : machine.run fresh peerFirstRun = some m := (Option.some_get _).symm
  have hc : machine.Along (fun l a => ¬LastPeer l a) fresh peerFirstRun := by decide
  have hu : m.Unowned := ⟨by rfl, by rfl⟩
  exact ⟨m, hr, hu, (((deleted_with_last fresh).1 peerFirstRun m fresh_start hr).2 hc) hu⟩

/-- The reference is dropped first. -/
def refFirstRun : List LifetimeAction :=
  boundRun.map .act ++ [.act (.game (.call (.getPeer 5) {}))] ++ unbindRun.map .act ++
    [.dropRef, .dropPeer ⟨1, 5⟩]

theorem never_deleted :
    ∃ m, machine.run fresh refFirstRun = some m ∧ m.refs = 0 ∧ m.peers = [] ∧ m.count = 0 ∧
      m.deleted = false := by
  exact ⟨_, (Option.some_get (show (machine.run fresh refFirstRun).isSome by rfl)).symm, by rfl,
    by rfl, by rfl, by rfl⟩

/-! ## Deletion of a host without a thread -/

/-- The step deletes the host while it is bound. -/
def DeletesBound (l : Lifetime) : LifetimeAction → Prop
  | .dropRef => l.count = 1 ∧ l.state.world.host.enetHost.isSome
  | _ => False

instance (l : Lifetime) (a : LifetimeAction) : Decidable (DeletesBound l a) :=
  match a with
  | .dropRef => inferInstanceAs (Decidable (_ ∧ _))
  | .act _ => .isFalse id
  | .copyRef => .isFalse id
  | .dropPeer _ => .isFalse id

/-- The thread was joined, and all that a session has was released. -/
def Released (l : Lifetime) : Prop := l.state.world.shape = .unbound

theorem Released.worker (h : l.Released) : l.state.world.worker = none := by
  have := congrArg Shape.worker (show l.state.world.shape = .unbound from h)
  simpa [World.shape, Shape.unbound] using this

theorem step_released (hi : l.Inv) (hd : l.deleted = true → l.Released) (hc : ¬DeletesBound l a)
    (h : machine.step l a = some m) : m.deleted = true → m.Released := by
  intro hm
  cases a with
  | act b =>
    obtain ⟨ha, t, ht, rfl⟩ := step_act h
    have hrel := hd hm
    cases (step_cases ht).2 with
    | worker hpc hs =>
      rw [hrel.worker] at hpc
      cases hpc
    | call hpc hp hs => simp [allows, show l.deleted = true from hm] at ha
    | go hs => simp [allows, show l.deleted = true from hm] at ha
  | copyRef =>
    obtain ⟨_, rfl⟩ := step_copyRef h
    exact hd hm
  | dropRef =>
    obtain ⟨hpc, hr, rfl⟩ := step_dropRef h
    have hzero : l.count - 1 = 0 := of_decide_eq_true hm
    have hcount := hi.count
    have hone : l.count = 1 := by omega
    rcases hi.life.idle hpc with hb | hu
    · exact absurd ⟨hone, congrArg Shape.enetHost hb⟩ hc
    · exact hu
  | dropPeer p =>
    obtain ⟨_, _, rfl⟩ := step_dropPeer h
    exact hd hm

/-- As long as the last reference to go goes while the host is unbound, a host that was
deleted has no thread and nothing left to release.  A bound host is deleted with its
thread running. -/
theorem outlives_thread (l : Lifetime) :
    (∀ as m, machine.start l → machine.Along (fun l a => ¬DeletesBound l a) l as →
      machine.run l as = some m → m.deleted = true →
      (m.state.world.worker = none ∧ m.state.world.host.thread = false ∧
        m.state.world.host.enetHost = none ∧ m.state.world.host.accessMutex = none ∧
        m.state.world.host.hostMutex = none) ∧
      ∀ input, machine.step m (.act (.worker input)) = none) ∧
    (∀ a m, machine.Reachable l → DeletesBound l a → machine.step l a = some m →
      m.deleted = true ∧ m.state.world.worker.isSome ∧ m.state.world.host.running = true) := by
  refine ⟨fun as m h₀ hc hr hd => ?_, fun a m hl hb hst => ?_⟩
  · have hrun := Machine.run_preserves (I := fun l => l.Inv ∧ (l.deleted = true → l.Released))
      (fun l a m hc hi h => ⟨step_inv hi.1 h, step_released hi.1 hi.2 hc h⟩) hc
      ⟨reachable_inv (.start h₀), fun hd => by
        obtain ⟨s, _, rfl⟩ := h₀
        cases hd⟩ hr
    have hrel : m.state.world.shape = .unbound := hrun.2 hd
    simp only [World.shape, Shape.unbound, Shape.mk.injEq, Option.isSome_eq_false_iff,
      Option.isNone_iff_eq_none] at hrel
    obtain ⟨henet, _, hthread, haccess, hhost, hworker⟩ := hrel
    refine ⟨⟨hworker, hthread, henet, haccess, hhost⟩, fun input => ?_⟩
    cases hst : machine.step m (.act (.worker input)) with
    | none => rfl
    | some u =>
      obtain ⟨_, t, ht, _⟩ := step_act hst
      cases (step_cases ht).2 with
      | worker hpc hs =>
        rw [hworker] at hpc
        cases hpc
  · cases a with
    | dropRef =>
      obtain ⟨hpc, hr, rfl⟩ := step_dropRef hst
      obtain ⟨hone, hbound⟩ := hb
      have hshape := bound_of_host ((reachable_inv hl).life.idle hpc) hbound
      refine ⟨?_, congrArg Shape.worker hshape, congrArg Shape.running hshape⟩
      rw [dropRef, hone]
      rfl
    | act b => exact hb.elim
    | copyRef => exact hb.elim
    | dropPeer p => exact hb.elim

theorem outlives_thread_unbound :
    ∃ m, machine.run fresh (sessionRun.map .act ++ [.dropRef]) = some m ∧ m.deleted = true ∧
      m.state.world.worker = none := by
  let m := (machine.run fresh (sessionRun.map .act ++ [.dropRef])).get (by rfl)
  have hr : machine.run fresh (sessionRun.map .act ++ [.dropRef]) = some m :=
    (Option.some_get _).symm
  have hc : machine.Along (fun l a => ¬DeletesBound l a) fresh
      (sessionRun.map .act ++ [.dropRef]) := by decide
  exact ⟨m, hr, by rfl, ((outlives_thread fresh).1 _ m fresh_start hc hr (by rfl)).1.1⟩

/-- The script lets a bound host go out of scope. -/
theorem deleted_while_running :
    ∃ m u, machine.run fresh (boundRun.map .act ++ [.dropRef]) = some m ∧ m.deleted = true ∧
      m.state.world.worker = some .loopTest ∧
      machine.step m (.act (.worker {})) = some u ∧ u.state.world.worker = some .lockAccess := by
  let m := (machine.run fresh (boundRun.map .act ++ [.dropRef])).get (by rfl)
  let u := (machine.step m (.act (.worker {}))).get (by rfl)
  exact ⟨m, u, (Option.some_get _).symm, by rfl, by rfl, (Option.some_get _).symm, by rfl⟩

end Lifetime
end GDNet
