import GDNet.Transport.Effects

/-!
# What waits and is not reliable

The loop of `enet_peer_dispatch_incoming_unreliable_commands` keeps three positions
in the list that it changes.  What it comes to is simple: the commands that are ready
go out in their order, and of those that are not complete it keeps the last two in a
row, up to the first command that waits for a reliable one.

A fragment handler queues the command of a new packet and uses it afterwards.  The
dispatch in between may have freed it.
-/

namespace Transport
open ENet (PeerState Packet ProtocolCommand packetFlagUnreliableFragment)
open Search Channel

/-- What the loop does with a command. -/
inductive Fate where
  /-- It is dispatched. -/
  | ready
  /-- Some of its fragments are missing. -/
  | partly
  /-- The reliable command before it has not come out yet. -/
  | ahead
  | behind
deriving DecidableEq, Repr

def IncomingCommand.fate (current : UInt16) (c : IncomingCommand) : Fate :=
  if c.command = .sendUnsequenced then .ready
  else if c.reliableSequenceNumber = current then
    if c.fragmentsRemaining = 0 then .ready else .partly
  else if inWindow c.reliableSequenceNumber current then .ahead
  else .behind

/-- The commands that go out. -/
def ready (current : UInt16) : List IncomingCommand → List IncomingCommand
  | [] => []
  | c :: cs =>
    match c.fate current with
    | .ready => c :: ready current cs
    | .ahead => []
    | .partly | .behind => ready current cs

/-- The commands that stay, after `kept` of those in front. -/
def settle (current : UInt16) : List IncomingCommand → List IncomingCommand → List IncomingCommand
  | kept, [] => kept
  | kept, c :: cs =>
    match c.fate current with
    | .ready | .behind => settle current [] cs
    | .partly => settle current (kept.getLast?.toList ++ [c]) cs
    | .ahead => kept ++ c :: cs

/-- The last unreliable number among commands that go out. -/
def reached (unreliable : UInt16) : List IncomingCommand → UInt16
  | [] => unreliable
  | c :: cs =>
    reached (if c.command = .sendUnsequenced then unreliable else c.unreliableSequenceNumber) cs

/-! ## The loop -/

namespace Sweep

/-- How much of what is in front would be dropped if the loop ended here. -/
def cut (s : Sweep) : Nat := if s.run ≠ [] then s.before.length else s.dropped

def kept (s : Sweep) : List IncomingCommand := s.before.drop s.cut

theorem kept_of_run {s : Sweep} (h : s.run ≠ []) : s.kept = [] := by
  rw [kept, cut, if_pos h, List.drop_length]

theorem kept_of_idle {s : Sweep} (h : s.run = []) : s.kept = s.before.drop s.dropped := by
  rw [kept, cut, if_neg (not_not_intro h)]

/-- A command that is not moved stays if it is not dropped. -/
theorem kept_pass (s : Sweep) (c : IncomingCommand) (n : Nat) :
    (s.pass c n).kept = (s.before ++ [c]).drop n := kept_of_idle rfl

/-- What one turn of the loop does. -/
theorem turn_cases (current : UInt16) (s : Sweep) (c : IncomingCommand)
    (h : s.dropped ≤ s.before.length) :
    match c.fate current with
    | .ready => ∃ t, s.turn current c = some t ∧ t.dropped ≤ t.before.length ∧ t.kept = [] ∧
        t.dispatched ++ t.run = s.dispatched ++ s.run ++ [c] ∧
        t.unreliable = reached s.unreliable [c]
    | .partly => ∃ t, s.turn current c = some t ∧ t.dropped ≤ t.before.length ∧
        t.kept = s.kept.getLast?.toList ++ [c] ∧ t.dispatched ++ t.run = s.dispatched ++ s.run ∧
        t.unreliable = s.unreliable
    | .behind => ∃ t, s.turn current c = some t ∧ t.dropped ≤ t.before.length ∧ t.kept = [] ∧
        t.dispatched ++ t.run = s.dispatched ++ s.run ∧ t.unreliable = s.unreliable
    | .ahead => s.turn current c = none := by
  have hlen : (s.before ++ [c]).length = s.before.length + 1 := List.length_append
  have hout : ∀ n, (s.pass c n).dispatched ++ (s.pass c n).run = s.dispatched ++ s.run := fun n =>
    List.append_nil _
  have hnone : s.run ++ [c] ≠ [] := List.append_ne_nil_of_right_ne_nil _ (List.cons_ne_nil _ _)
  unfold IncomingCommand.fate turn
  by_cases hu : c.command = .sendUnsequenced
  · simp only [if_pos hu]
    refine ⟨_, rfl, h, kept_of_run hnone, (List.append_assoc ..).symm, ?_⟩
    rw [reached, if_pos hu, reached]
  · simp only [if_neg hu]
    by_cases hn : c.reliableSequenceNumber = current
    · simp only [if_pos hn]
      by_cases hz : c.fragmentsRemaining = 0
      · simp only [if_pos hz]
        refine ⟨_, rfl, h, kept_of_run hnone, (List.append_assoc ..).symm, ?_⟩
        rw [reached, if_neg hu, reached]
      · simp only [if_neg hz]
        by_cases hr : s.run ≠ []
        · simp only [if_pos hr]
          refine ⟨_, rfl, ?_, ?_, hout _, rfl⟩
          · show s.before.length ≤ (s.before ++ [c]).length
            omega
          · rw [kept_pass, List.drop_left, kept_of_run hr]
            rfl
        · have hidle : s.run = [] := not_not.mp hr
          simp only [if_neg hr]
          rw [kept_of_idle hidle]
          by_cases hd : s.dropped ≠ s.before.length
          · simp only [if_pos hd]
            have hne : s.before ≠ [] := by
              intro he
              rw [he] at h hd
              exact hd (Nat.le_zero.mp h)
            have hlast : s.before.drop (s.before.length - 1) = [s.before.getLast hne] :=
              List.drop_length_sub_one hne
            refine ⟨_, rfl, ?_, ?_, hout _, rfl⟩
            · show s.before.length - 1 ≤ (s.before ++ [c]).length
              omega
            · rw [kept_pass, List.drop_append_of_le_length (Nat.sub_le _ _), hlast,
                List.getLast?_drop, if_neg (by omega), List.getLast?_eq_getLast_of_ne_nil hne]
              rfl
          · have hd : s.dropped = s.before.length := not_not.mp hd
            simp only [not_not.mpr hd, if_false]
            refine ⟨_, rfl, ?_, ?_, hout _, rfl⟩
            · show s.dropped ≤ (s.before ++ [c]).length
              omega
            · rw [kept_pass, hd, List.drop_left, List.drop_length]
              rfl
    · simp only [if_neg hn]
      by_cases hw : inWindow c.reliableSequenceNumber current = true
      · simp only [if_pos hw]
      · simp only [if_neg hw]
        refine ⟨_, rfl, ?_, ?_, hout _, rfl⟩
        · show s.before.length + 1 ≤ (s.before ++ [c]).length
          omega
        · rw [kept_pass, ← hlen, List.drop_length]

theorem loop_eq (current : UInt16) (cs : List IncomingCommand) (s : Sweep)
    (h : s.dropped ≤ s.before.length) :
    ((s.loop current cs).1.before ++ (s.loop current cs).2).drop (s.loop current cs).1.cut =
        settle current s.kept cs ∧
      (s.loop current cs).1.dispatched ++ (s.loop current cs).1.run =
        s.dispatched ++ s.run ++ ready current cs ∧
      (s.loop current cs).1.unreliable = reached s.unreliable (ready current cs) := by
  induction cs generalizing s with
  | nil =>
    rw [Sweep.loop, settle, ready, List.append_nil, List.append_nil]
    exact ⟨rfl, rfl, rfl⟩
  | cons c cs ih =>
    have hturn := turn_cases current s c h
    rw [Sweep.loop, settle, ready]
    cases hf : c.fate current with
    | ready =>
      rw [hf] at hturn
      obtain ⟨t, ht, hle, hkept, hout, hreached⟩ := hturn
      obtain ⟨h₁, h₂, h₃⟩ := ih t hle
      rw [ht]
      rw [hkept] at h₁
      rw [hout, List.append_assoc, List.singleton_append] at h₂
      rw [hreached] at h₃
      exact ⟨h₁, h₂, h₃⟩
    | partly =>
      rw [hf] at hturn
      obtain ⟨t, ht, hle, hkept, hout, hreached⟩ := hturn
      obtain ⟨h₁, h₂, h₃⟩ := ih t hle
      rw [ht]
      rw [hkept] at h₁
      rw [hout] at h₂
      rw [hreached] at h₃
      exact ⟨h₁, h₂, h₃⟩
    | behind =>
      rw [hf] at hturn
      obtain ⟨t, ht, hle, hkept, hout, hreached⟩ := hturn
      obtain ⟨h₁, h₂, h₃⟩ := ih t hle
      rw [ht]
      rw [hkept] at h₁
      rw [hout] at h₂
      rw [hreached] at h₃
      exact ⟨h₁, h₂, h₃⟩
    | ahead =>
      rw [hf] at hturn
      rw [hturn]
      refine ⟨?_, (List.append_nil _).symm, rfl⟩
      have hcut : s.cut ≤ s.before.length := by
        unfold cut
        split
        · exact Nat.le_refl _
        · exact h
      exact List.drop_append_of_le_length hcut

end Sweep

/-- A dispatch of what is not reliable. -/
theorem dispatchUnreliable_eq (c : Channel) :
    c.dispatchUnreliable =
      ({ c with
        incomingUnreliableSequenceNumber := reached c.incomingUnreliableSequenceNumber
          (ready c.incomingReliableSequenceNumber c.incomingUnreliableCommands)
        incomingUnreliableCommands :=
          settle c.incomingReliableSequenceNumber [] c.incomingUnreliableCommands },
        ready c.incomingReliableSequenceNumber c.incomingUnreliableCommands) := by
  obtain ⟨s, hs⟩ : ∃ s : Sweep, s =
    { unreliable := c.incomingUnreliableSequenceNumber, dispatched := [], before := [], run := [],
      dropped := 0 } := ⟨_, rfl⟩
  obtain ⟨h₁, h₂, h₃⟩ := Sweep.loop_eq c.incomingReliableSequenceNumber
    c.incomingUnreliableCommands s (by rw [hs]; exact Nat.le_refl 0)
  have hkept : s.kept = [] := by rw [hs]; exact List.drop_nil
  have hnothing : s.dispatched ++ s.run = [] := by rw [hs]; rfl
  have hnumber : s.unreliable = c.incomingUnreliableSequenceNumber := by rw [hs]
  rw [hkept] at h₁
  rw [hnothing, List.nil_append] at h₂
  rw [hnumber] at h₃
  unfold Channel.dispatchUnreliable
  rw [← hs, ← h₁, ← h₃]
  simp only
  rw [h₂]
  rfl

/-! ## What stays and what goes out -/

section
variable {current : UInt16} {kept cs : List IncomingCommand}

theorem ready_sublist (current : UInt16) (cs : List IncomingCommand) :
    (ready current cs).Sublist cs := by
  induction cs with
  | nil => exact .slnil
  | cons c cs ih =>
    rw [ready]
    cases c.fate current with
    | ready => exact ih.cons_cons c
    | ahead => exact List.nil_sublist _
    | partly => exact ih.cons c
    | behind => exact ih.cons c

theorem mem_ready {e : IncomingCommand} (he : e ∈ ready current cs) : e.fate current = .ready := by
  induction cs with
  | nil => cases he
  | cons c cs ih =>
    rw [ready] at he
    cases hf : c.fate current with
    | ready =>
      rw [hf] at he
      rcases List.mem_cons.mp he with rfl | he
      · exact hf
      · exact ih he
    | ahead =>
      rw [hf] at he
      cases he
    | partly =>
      rw [hf] at he
      exact ih he
    | behind =>
      rw [hf] at he
      exact ih he

theorem getLast?_sublist (cs : List IncomingCommand) : (cs.getLast?.toList).Sublist cs := by
  cases h : cs.getLast? with
  | none => exact List.nil_sublist _
  | some c => exact List.singleton_sublist.mpr (List.mem_of_getLast? h)

theorem settle_sublist (current : UInt16) (kept cs : List IncomingCommand) :
    (settle current kept cs).Sublist (kept ++ cs) := by
  induction cs generalizing kept with
  | nil =>
    rw [settle, List.append_nil]
  | cons c cs ih =>
    have hrest : (settle current [] cs).Sublist (kept ++ c :: cs) :=
      ((ih []).trans (List.sublist_cons_self c cs)).trans (List.sublist_append_right kept _)
    rw [settle]
    cases c.fate current with
    | ready => exact hrest
    | behind => exact hrest
    | ahead => exact List.Sublist.refl _
    | partly =>
      refine (ih _).trans ?_
      rw [List.append_assoc, List.singleton_append]
      exact (getLast?_sublist kept).append_right _

/-- What stays of commands of which none is behind one that is ahead. -/
theorem mem_settle (ho : cs.Pairwise fun a b => a.fate current = .ahead → b.fate current = .ahead)
    {e : IncomingCommand} (he : e ∈ settle current kept cs) :
    e ∈ kept ∨ e.fate current = .partly ∨ e.fate current = .ahead := by
  induction cs generalizing kept with
  | nil => exact .inl he
  | cons c cs ih =>
    obtain ⟨hc, ho⟩ := List.pairwise_cons.mp ho
    rw [settle] at he
    cases hf : c.fate current with
    | ready =>
      rw [hf] at he
      exact .inr ((ih ho he).resolve_left List.not_mem_nil)
    | behind =>
      rw [hf] at he
      exact .inr ((ih ho he).resolve_left List.not_mem_nil)
    | partly =>
      rw [hf] at he
      rcases ih ho he with he | he
      · rcases List.mem_append.mp he with he | he
        · exact .inl ((getLast?_sublist kept).subset he)
        · rw [List.mem_singleton.mp he]
          exact .inr (.inl hf)
      · exact .inr he
    | ahead =>
      rw [hf] at he
      rcases List.mem_append.mp he with he | he
      · exact .inl he
      · rcases List.mem_cons.mp he with rfl | he
        · exact .inr (.inr hf)
        · exact .inr (.inr (hc e he hf))

/-- What stays is behind everything that goes out. -/
theorem ready_before_settle {r : IncomingCommand → IncomingCommand → Prop}
    (kept : List IncomingCommand) (ho : (kept ++ cs).Pairwise r) {e e' : IncomingCommand}
    (he : e ∈ ready current cs) (he' : e' ∈ settle current kept cs) : r e e' := by
  induction cs generalizing kept with
  | nil => cases he
  | cons c cs ih =>
    have hcs := List.pairwise_cons.mp (List.pairwise_append.mp ho).2.1
    rw [ready] at he
    rw [settle] at he'
    cases hf : c.fate current with
    | ready =>
      rw [hf] at he he'
      rcases List.mem_cons.mp he with rfl | he
      · exact hcs.1 e' ((settle_sublist current [] cs).subset he')
      · exact ih [] hcs.2 he he'
    | behind =>
      rw [hf] at he he'
      exact ih [] hcs.2 he he'
    | partly =>
      rw [hf] at he he'
      refine ih _ ?_ he he'
      rw [List.append_assoc, List.singleton_append]
      exact ho.sublist ((getLast?_sublist kept).append_right _)
    | ahead =>
      rw [hf] at he
      cases he

/-- Of incomplete commands in a row the last two stay. -/
theorem settle_partly {after : List IncomingCommand}
    (hcs : ∀ c ∈ cs, c.fate current = .partly) (ha : ∀ c ∈ after, c.fate current = .ahead)
    (hk : kept.length ≤ 2) :
    settle current kept (cs ++ after) = (kept ++ cs).drop ((kept ++ cs).length - 2) ++ after := by
  induction cs generalizing kept with
  | nil =>
    have hzero : (kept ++ []).length - 2 = 0 := by
      rw [List.append_nil]
      omega
    rw [hzero, List.drop_zero, List.append_nil, List.nil_append]
    cases after with
    | nil => rw [settle, List.append_nil]
    | cons c after => rw [settle, ha c List.mem_cons_self]
  | cons c cs ih =>
    obtain ⟨hc, hcs⟩ := List.forall_mem_cons.mp hcs
    have hlast : kept.getLast?.toList ++ [c] = (kept ++ [c]).drop ((kept ++ [c]).length - 2) := by
      rw [List.length_append, List.length_singleton]
      cases hnil : kept with
      | nil => rfl
      | cons k ks =>
        have hne : k :: ks ≠ [] := List.cons_ne_nil k ks
        have hlen : (k :: ks).length + 1 - 2 = (k :: ks).length - 1 := by omega
        rw [hlen, List.drop_append_of_le_length (Nat.sub_le _ _), List.drop_length_sub_one hne,
          List.getLast?_eq_getLast_of_ne_nil hne]
        rfl
    have hwhole : kept ++ c :: cs = kept ++ [c] ++ cs := by
      rw [List.append_assoc, List.singleton_append]
    have hdrop : (kept ++ [c]).drop ((kept ++ [c]).length - 2) ++ cs =
        (kept ++ [c] ++ cs).drop ((kept ++ [c]).length - 2) :=
      (List.drop_append_of_le_length (Nat.sub_le _ _)).symm
    rw [List.cons_append, settle, hc]
    simp only
    rw [ih hcs (by rw [hlast, List.length_drop]; omega), hlast, hdrop, hwhole, List.drop_drop]
    congr 2
    simp only [List.length_drop, List.length_append, List.length_cons, List.length_nil]
    omega

end

end Transport
