import Mathlib.Data.List.Nodup
import GDNet.ENet.Origin

/-!
# Checking for events until there are none

`enet_host_check_events` delivers one event of the peers in the dispatch queue,
and may put a peer back that has more to deliver.  Every event uses up a place in
the queue or a packet of a peer in it, as long as no peer is in the queue twice.
-/

namespace ENet

/-- The dispatch queue holds each peer once, and only peers marked for it. -/
structure Host.Marked (h : Host) : Prop where
  nodup : h.dispatchQueue.Nodup
  marked : ∀ i ∈ h.dispatchQueue, (h.peers i).needsDispatch = true

/-- The packets that wait in the peers of a list. -/
def Host.packets (h : Host) : List Nat → Nat
  | [] => 0
  | i :: queue => (h.peers i).dispatchedCommands.length + h.packets queue

/-- The places in the dispatch queue and the packets behind them. -/
def Host.backlog (h : Host) : Nat := h.dispatchQueue.length + h.packets h.dispatchQueue

@[simp] theorem packets_cons (h : Host) (i : Nat) (queue : List Nat) :
    h.packets (i :: queue) = (h.peers i).dispatchedCommands.length + h.packets queue := rfl

theorem packets_append (h : Host) (queue : List Nat) (i : Nat) :
    h.packets (queue ++ [i]) = h.packets queue + (h.peers i).dispatchedCommands.length := by
  induction queue with
  | nil => exact Nat.add_comm _ 0
  | cons j queue ih => rw [List.cons_append, packets_cons, packets_cons, ih, Nat.add_assoc]

theorem packets_congr {h h' : Host} {queue : List Nat}
    (hp : ∀ i ∈ queue, (h'.peers i).dispatchedCommands = (h.peers i).dispatchedCommands) :
    h'.packets queue = h.packets queue := by
  induction queue with
  | nil => rfl
  | cons j queue ih =>
    rw [packets_cons, packets_cons, hp j List.mem_cons_self,
      ih fun i hi => hp i (List.mem_cons_of_mem j hi)]

/-- A host whose queue is what is left of the loop's list. -/
structure Left (h : Host) (queue : List Nat) : Prop where
  rest : h.dispatchQueue = queue
  nodup : queue.Nodup
  marked : ∀ i ∈ queue, (h.peers i).needsDispatch = true

theorem Left.host {h : Host} {queue : List Nat} (hl : Left h queue) :
    h.Marked ∧ h.backlog = queue.length + h.packets queue := by
  obtain ⟨rfl, hn, hm⟩ := hl
  exact ⟨⟨hn, hm⟩, rfl⟩

/-- A change of one peer that is not in the queue any more. -/
theorem Left.others {h h' : Host} {queue : List Nat} {i : Nat} (hl : Left h queue) (hi : i ∉ queue)
    (hq : h'.dispatchQueue = h.dispatchQueue) (hp : ∀ j, j ≠ i → h'.peers j = h.peers j) :
    Left h' queue ∧ h'.packets queue = h.packets queue := by
  have hsame : ∀ j ∈ queue, h'.peers j = h.peers j := fun j hj => hp j fun e => hi (e ▸ hj)
  refine ⟨⟨hq.trans hl.rest, hl.nodup, fun j hj => ?_⟩, packets_congr fun j hj => ?_⟩
  · rw [hsame j hj]
    exact hl.marked j hj
  · rw [hsame j hj]

theorem Left.update {h : Host} {queue : List Nat} {i : Nat} (hl : Left h queue) (hi : i ∉ queue)
    (f : Peer → Peer) :
    Left (h.update i f) queue ∧ (h.update i f).packets queue = h.packets queue :=
  hl.others hi rfl fun _ hj => Host.update_peers_of_ne h f hj

/-- A reset of a peer that is not marked leaves the queue alone. -/
theorem Left.reset {h : Host} {queue : List Nat} {i : Nat} (hl : Left h queue) (hi : i ∉ queue)
    (hd : (h.peers i).needsDispatch = false) :
    Left (peerReset h i) queue ∧ (peerReset h i).packets queue = h.packets queue := by
  refine hl.others hi ?_ fun j hj => ?_
  · simp [peerReset, peerResetQueues, hd]
  · simp only [peerReset, peerResetQueues, Host.update_peers_of_ne _ _ hj]

/-- Taking the first peer off the queue. -/
theorem Left.take {h : Host} {queue : List Nat} {i : Nat} (hl : Left h (i :: queue)) :
    Left (setDispatch h queue i false) queue ∧ i ∉ queue ∧
      (setDispatch h queue i false).packets queue = h.packets queue ∧
      ((setDispatch h queue i false).peers i).dispatchedCommands =
        (h.peers i).dispatchedCommands ∧
      ((setDispatch h queue i false).peers i).needsDispatch = false := by
  obtain ⟨hi, hn⟩ := List.nodup_cons.mp hl.nodup
  have h₀ : Left { h with dispatchQueue := queue } queue :=
    ⟨rfl, hn, fun j hj => hl.marked j (List.mem_cons_of_mem i hj)⟩
  obtain ⟨hleft, hpackets⟩ := h₀.update hi fun p => { p with needsDispatch := false }
  refine ⟨hleft, hi, hpackets.trans (packets_congr fun _ _ => rfl), ?_, ?_⟩
  · simp [setDispatch]
  · simp [setDispatch]

/-- What one check leaves: nothing, or less than there was. -/
structure Checked (n : Nat) (r : Host × Option Event) : Prop where
  marked : r.1.Marked
  done : r.2 = none → r.1.dispatchQueue = []
  less : r.2.isSome → r.1.backlog < n

theorem Checked.event {n : Nat} {h : Host} {queue : List Nat} {e : Event} (hl : Left h queue)
    (hn : queue.length + h.packets queue < n) : Checked n (h, some e) := by
  obtain ⟨hm, hb⟩ := hl.host
  refine ⟨hm, fun he => (by cases he), fun _ => ?_⟩
  rw [hb]
  exact hn

/-- A peer that comes off the queue and has another packet goes to its end. -/
theorem Left.requeue {h : Host} {queue : List Nat} {i : Nat} (hl : Left h queue) (hi : i ∉ queue)
    (hd : (h.peers i).needsDispatch = false) :
    Left (queueDispatch h i) (queue ++ [i]) ∧
      (queueDispatch h i).packets (queue ++ [i]) =
        h.packets queue + (h.peers i).dispatchedCommands.length := by
  have hne : ∀ j ∈ queue, j ≠ i := fun j hj e => hi (e ▸ hj)
  have hq : queueDispatch h i = setDispatch h (queue ++ [i]) i true := by
    rw [queueDispatch, hd, hl.rest]
    rfl
  rw [hq]
  refine ⟨⟨rfl, ?_, fun j hj => ?_⟩, ?_⟩
  · rw [List.nodup_append]
    refine ⟨hl.nodup, List.nodup_singleton i, fun j hj k hk => ?_⟩
    rw [List.mem_singleton.mp hk]
    exact hne j hj
  · rcases List.mem_append.mp hj with hj | hj
    · rw [setDispatch, Host.update_peers_of_ne _ _ (hne j hj)]
      exact hl.marked j hj
    · rw [List.mem_singleton.mp hj]
      simp [setDispatch]
  · rw [packets_append]
    congr 1
    · refine packets_congr fun j hj => ?_
      rw [setDispatch, Host.update_peers_of_ne _ _ (hne j hj)]
    · simp [setDispatch]

theorem dispatchLoop_checked : ∀ (queue : List Nat) (h : Host), Left h queue →
    Checked (queue.length + h.packets queue) (protocolDispatchLoop queue h) := by
  intro queue
  induction queue with
  | nil =>
    intro h hl
    refine ⟨⟨List.nodup_nil, fun i hi => absurd hi List.not_mem_nil⟩, fun _ => rfl, fun he => ?_⟩
    cases he
  | cons i queue ih =>
    intro h hl
    obtain ⟨hleft, hi, hpackets, hcommands, hmark⟩ := hl.take
    have hcons := packets_cons h i queue
    rw [protocolDispatchLoop]
    generalize setDispatch h queue i false = t at hleft hpackets hcommands hmark ⊢
    have hlength : (i :: queue).length = queue.length + 1 := rfl
    -- An event that leaves the packets of the peer alone uses up its place.
    have hplace : ∀ {f : Peer → Peer} {e : Event},
        Checked ((i :: queue).length + h.packets (i :: queue)) (t.update i f, some e) := by
      intro f e
      obtain ⟨hl', hp'⟩ := hleft.update hi f
      exact Checked.event hl' (by omega)
    have hskip : Checked ((i :: queue).length + h.packets (i :: queue))
        (protocolDispatchLoop queue t) := by
      have hrest := ih t hleft
      exact ⟨hrest.marked, hrest.done, fun he => Nat.lt_of_lt_of_le (hrest.less he) (by omega)⟩
    cases hs : (t.peers i).state with
    | connectionPending => exact hplace
    | connectionSucceeded => exact hplace
    | zombie =>
      obtain ⟨hl₁, hp₁⟩ := hleft.reset hi hmark
      exact Checked.event hl₁ (by omega)
    | connected =>
      cases hdc : (t.peers i).dispatchedCommands with
      | nil => exact hskip
      | cons c commands =>
        rw [hdc] at hcommands
        simp only
        have hcount : (h.peers i).dispatchedCommands.length = commands.length + 1 := by
          rw [← hcommands]
          rfl
        obtain ⟨hl', hp'⟩ := hleft.update hi fun p =>
          { p with dispatchedCommands := commands }
        by_cases he : commands.isEmpty = true
        · rw [if_pos he]
          exact Checked.event hl' (by omega)
        · rw [if_neg he]
          obtain ⟨hl'', hp''⟩ := hl'.requeue hi (by rw [Host.update_peers_self]; exact hmark)
          rw [Host.update_peers_self] at hp''
          change _ = _ + commands.length at hp''
          refine Checked.event hl'' ?_
          rw [List.length_append, List.length_singleton]
          omega
    | _ => exact hskip

/-- One check of a host whose queue is in order. -/
theorem dispatch_checked {h : Host} (hm : h.Marked) :
    Checked h.backlog (protocolDispatchIncomingCommands h) :=
  dispatchLoop_checked _ h ⟨rfl, hm.nodup, hm.marked⟩

end ENet
