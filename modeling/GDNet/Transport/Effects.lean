import GDNet.Transport.Incoming

/-!
# What a handler does to a channel

Every handler of a send command changes one channel and appends to
`dispatchedCommands`.  `Channel.Step` lists what it can do, and the invariants of a
channel are shown of these steps.
-/

namespace Transport
open ENet (PeerState Packet ProtocolCommand packetFlagReliable packetFlagUnsequenced
  packetFlagUnreliableFragment)
open Search

/-! ## Dispatch -/

def isReliable : ProtocolCommand → Bool
  | .sendReliable | .sendFragment => true
  | _ => false

theorem Sweep.turn_mem {current : UInt16} {s s' : Sweep} {c : IncomingCommand}
    (h : s.turn current c = some s') (e : IncomingCommand)
    (he : e ∈ s'.dispatched ++ s'.before ++ s'.run) :
    e ∈ s.dispatched ++ s.before ++ s.run ∨ e = c := by
  unfold Sweep.turn at h
  have hpass : ∀ n, s' = s.pass c n → e ∈ s.dispatched ++ s.before ++ s.run ∨ e = c := by
    rintro n rfl
    simp only [Sweep.pass, Sweep.move, List.mem_append, List.mem_singleton,
      List.not_mem_nil] at he ⊢
    grind
  have hrun : ∀ u, s' = { s with unreliable := u, run := s.run ++ [c] } →
      e ∈ s.dispatched ++ s.before ++ s.run ∨ e = c := by
    rintro u rfl
    simp only [List.mem_append, List.mem_singleton] at he ⊢
    grind
  split at h
  · exact hrun s.unreliable (Option.some.inj h).symm
  · split at h
    · split at h
      · exact hrun _ (Option.some.inj h).symm
      · split at h
        · exact hpass _ (Option.some.inj h).symm
        · split at h <;> exact hpass _ (Option.some.inj h).symm
    · split at h
      · cases h
      · exact hpass _ (Option.some.inj h).symm

theorem Sweep.loop_mem (current : UInt16) (s : Sweep) (cs : List IncomingCommand)
    (e : IncomingCommand)
    (he : e ∈ (s.loop current cs).1.dispatched ++ (s.loop current cs).1.before ++
      (s.loop current cs).1.run ++ (s.loop current cs).2) :
    e ∈ s.dispatched ++ s.before ++ s.run ++ cs := by
  induction cs generalizing s with
  | nil => exact he
  | cons c cs ih =>
    unfold Sweep.loop at he
    cases h : s.turn current c with
    | none =>
      rw [h] at he
      exact he
    | some s' =>
      rw [h] at he
      have := Sweep.turn_mem h e
      have := ih s' he
      simp only [List.mem_append, List.mem_cons] at *
      grind

/-- Nothing comes out of a dispatch that did not wait. -/
theorem dispatchUnreliable_mem (c : Channel) (e : IncomingCommand)
    (he : e ∈ c.dispatchUnreliable.1.incomingUnreliableCommands ∨ e ∈ c.dispatchUnreliable.2) :
    e ∈ c.incomingUnreliableCommands := by
  have h := Sweep.loop_mem c.incomingReliableSequenceNumber
    { unreliable := c.incomingUnreliableSequenceNumber, dispatched := [], before := [], run := [],
      dropped := 0 } c.incomingUnreliableCommands e
  unfold Channel.dispatchUnreliable at he
  simp only [List.mem_append, List.not_mem_nil, false_or] at h he
  rcases he with he | he
  · have := List.mem_of_mem_drop he
    rw [List.mem_append] at this
    grind
  · grind

@[simp] theorem dispatchUnreliable_number (c : Channel) :
    c.dispatchUnreliable.1.incomingReliableSequenceNumber = c.incomingReliableSequenceNumber := rfl

@[simp] theorem dispatchUnreliable_reliable (c : Channel) :
    c.dispatchUnreliable.1.incomingReliableCommands = c.incomingReliableCommands := rfl

theorem dispatchReliableLoop_append (number : UInt16) (cs : List IncomingCommand) :
    cs = (dispatchReliableLoop number cs).2.1 ++ (dispatchReliableLoop number cs).2.2 := by
  induction cs generalizing number with
  | nil => rfl
  | cons c cs ih =>
    unfold dispatchReliableLoop
    split
    · rfl
    · exact congrArg (c :: ·) (ih _)

/-- A dispatch of reliable commands advances the channel over those its loop passes. -/
theorem dispatchReliable_reliable (c : Channel) :
    c.dispatchReliable.1.incomingReliableSequenceNumber =
        (dispatchReliableLoop c.incomingReliableSequenceNumber c.incomingReliableCommands).1 ∧
      c.dispatchReliable.1.incomingReliableCommands =
        (dispatchReliableLoop c.incomingReliableSequenceNumber c.incomingReliableCommands).2.2 ∧
      ∃ u, c.dispatchReliable.2 =
          (dispatchReliableLoop c.incomingReliableSequenceNumber c.incomingReliableCommands).2.1 ++
            u ∧
        ∀ e, e ∈ u ∨ e ∈ c.dispatchReliable.1.incomingUnreliableCommands →
          e ∈ c.incomingUnreliableCommands := by
  have happend := dispatchReliableLoop_append c.incomingReliableSequenceNumber
    c.incomingReliableCommands
  unfold Channel.dispatchReliable
  by_cases hnil : (dispatchReliableLoop c.incomingReliableSequenceNumber
      c.incomingReliableCommands).2.1 = []
  · have hnumber : (dispatchReliableLoop c.incomingReliableSequenceNumber
        c.incomingReliableCommands).1 = c.incomingReliableSequenceNumber := by
      cases hc : c.incomingReliableCommands with
      | nil => rfl
      | cons e es =>
        rw [hc] at hnil
        unfold dispatchReliableLoop at hnil ⊢
        split at hnil
        · next h => rw [if_pos h]
        · cases hnil
    rw [if_pos hnil]
    rw [hnil] at happend
    refine ⟨hnumber.symm, happend, [], ?_, ?_⟩
    · rw [hnil]
      rfl
    · rintro e (he | he)
      · cases he
      · exact he
  · simp only [if_neg hnil]
    split
    · next hu =>
      exact ⟨rfl, rfl, [], (List.append_nil _).symm, fun e he => he.elim (fun h => by cases h) id⟩
    · refine ⟨rfl, rfl, _, rfl, fun e he => ?_⟩
      have hmem := dispatchUnreliable_mem
        { c with
          incomingReliableSequenceNumber := (dispatchReliableLoop
            c.incomingReliableSequenceNumber c.incomingReliableCommands).1
          incomingUnreliableSequenceNumber := 0
          incomingReliableCommands := (dispatchReliableLoop
            c.incomingReliableSequenceNumber c.incomingReliableCommands).2.2 } e
      exact hmem he.symm

/-! ## The lists of a channel by kind -/

namespace Channel

def commands (c : Channel) (command : ProtocolCommand) : List IncomingCommand :=
  if isReliable command then c.incomingReliableCommands else c.incomingUnreliableCommands

def withCommands (c : Channel) (command : ProtocolCommand) (cs : List IncomingCommand) : Channel :=
  if isReliable command then { c with incomingReliableCommands := cs }
  else { c with incomingUnreliableCommands := cs }

def dispatch (c : Channel) (command : ProtocolCommand) : Channel × List IncomingCommand :=
  if isReliable command then c.dispatchReliable else c.dispatchUnreliable

theorem insert_eq (c : Channel) (command : ProtocolCommand) (cs : List IncomingCommand) :
    c.insert command cs = (c.withCommands command cs).dispatch command := by
  cases command <;> rfl

/-- A command found a place, so it is not in its list yet. -/
theorem place_commands {c : Channel} {h : CommandHeader} {unreliable : UInt16}
    {before after : List IncomingCommand} (hp : c.place h unreliable = some (before, after)) :
    c.commands h.command = before ++ after := by
  unfold place at hp
  unfold commands
  cases hc : h.command <;> simp only [hc, isReliable] at hp ⊢ <;> try cases hp
  case sendReliable | sendFragment | sendUnreliable | sendUnreliableFragment =>
    split at hp
    · cases hp
    · split at hp
      · next hb =>
        cases hp
        exact search_between hb
      · cases hp
  case sendUnsequenced => rfl

/-- What a handler can do to a channel: the channel and what goes to
`dispatchedCommands`. -/
inductive Step (i : Nat) (c : Channel) (command : ProtocolCommand) :
    Channel × List IncomingCommand → Prop
  | same : Step i c command (c, [])
  /-- A complete command is queued. -/
  | queued (h : CommandHeader) (unreliable : UInt16) (flags : UInt32) (data : List UInt8)
      {before after : List IncomingCommand} (hc : h.command = command) (hi : h.channelID.toNat = i)
      (hw : command = .sendUnsequenced ∨
        inWindow h.reliableSequenceNumber c.incomingReliableSequenceNumber)
      (hp : c.place h unreliable = some (before, after)) :
      Step i c command
        ((c.withCommands command
          (before ++ queuedCommand h unreliable flags 0 data :: after)).dispatch command)
  /-- The first fragment of a packet is queued. -/
  | opened (h : CommandHeader) (unreliable : UInt16) (flags : UInt32) (f : Fragment)
      (data memory : List UInt8) {before after : List IncomingCommand} (hc : h.command = command)
      (hk : command ≠ .sendUnsequenced) (hi : h.channelID.toNat = i)
      (hw : inWindow h.reliableSequenceNumber c.incomingReliableSequenceNumber)
      (hp : c.place h unreliable = some (before, after)) (hn : f.fragmentNumber < f.fragmentCount)
      {r : Channel × List IncomingCommand}
      (hr : r = (c.withCommands command (before ++
        queuedCommand h unreliable flags f.fragmentCount memory :: after)).dispatch command)
      {s : Channel × List IncomingCommand}
      (hs : s = if f.fragmentCount = 1 then
          (r.1.withCommands command
            (release (fun e => e.store f data) (r.1.commands command))).dispatch command
        else (r.1.withCommands command
          (release (fun e => e.store f data) (r.1.commands command)), [])) :
      Step i c command (s.1, r.2 ++ s.2)
  /-- A fragment is added to its packet. -/
  | stored (f : Fragment) (data : List UInt8) {before after : List IncomingCommand}
      {e : IncomingCommand} (hl : c.commands command = before ++ e :: after)
      (hc : e.command = command) (hk : command ≠ .sendUnsequenced)
      (hf : f.fragmentCount = e.fragmentCount) (hn : f.fragmentNumber < f.fragmentCount)
      (he : f.fragmentNumber ∉ e.fragments) :
      Step i c command
        (if (e.store f data).fragmentsRemaining = 0 then
          (c.withCommands command (before ++ e.store f data :: after)).dispatch command
        else (c.withCommands command (before ++ e.store f data :: after), []))

end Channel

/-! ## Handlers -/

/-- A handler leaves the peer with one channel changed. -/
structure Inbound.Became (p p' : Inbound) (i : Nat) (r : Channel × List IncomingCommand) :
    Prop where
  channels : p'.channels = Function.update p.channels i r.1
  dispatchedCommands : p'.dispatchedCommands = p.dispatchedCommands ++ r.2
  state : p'.state = p.state
  channelCount : p'.channelCount = p.channelCount

namespace Inbound.Became

theorem same (p : Inbound) (i : Nat) : p.Became p i (p.channels i, []) :=
  ⟨(Function.update_eq_self i p.channels).symm, (List.append_nil _).symm, rfl, rfl⟩

theorem channel_self {p p' : Inbound} {i : Nat} {r : Channel × List IncomingCommand}
    (h : p.Became p' i r) : p'.channels i = r.1 := by
  rw [h.channels, Function.update_self]

theorem channel_of_ne {p p' : Inbound} {i j : Nat} {r : Channel × List IncomingCommand}
    (h : p.Became p' i r) (hj : j ≠ i) : p'.channels j = p.channels j := by
  rw [h.channels, Function.update_of_ne hj]

end Inbound.Became

/-- What queueing does. -/
theorem queued_iff {p p' : Inbound} {h : CommandHeader} {unreliable : UInt16} {flags : UInt32}
    {fragmentCount : Nat} {memory : Option (List UInt8)}
    (hq : peerQueueIncomingCommand p h unreliable flags fragmentCount memory = .queued p') :
    ∃ before after data, memory = some data ∧
      (p.channels h.channelID.toNat).place h unreliable = some (before, after) ∧
      (h.command = .sendUnsequenced ∨ inWindow h.reliableSequenceNumber
        (p.channels h.channelID.toNat).incomingReliableSequenceNumber) ∧
      p.Became p' h.channelID.toNat (((p.channels h.channelID.toNat).withCommands h.command
        (before ++ queuedCommand h unreliable flags fragmentCount data :: after)).dispatch
          h.command) := by
  unfold peerQueueIncomingCommand at hq
  have hdiscard : ∀ {n}, discardCommand n ≠ .queued p' := by
    intro n hd
    unfold discardCommand at hd
    split at hd <;> cases hd
  simp only at hq
  split at hq
  · exact absurd hq hdiscard
  · split at hq
    · exact absurd hq hdiscard
    · next hw =>
      split at hq
      · exact absurd hq hdiscard
      · next before after hp =>
        split at hq
        · cases hq
        · cases hm : memory with
          | none =>
            rw [hm] at hq
            cases hq
          | some data =>
            rw [hm] at hq
            simp only at hq
            split at hq
            · cases hq
            · cases hq
              refine ⟨before, after, data, rfl, hp, ?_, ?_⟩
              · rw [not_and_or, not_not] at hw
                simpa using hw
              · rw [Channel.insert_eq]
                exact ⟨rfl, rfl, rfl, rfl⟩

theorem handleSend_step (command : ProtocolCommand) (flags : UInt32) (p : Inbound)
    (channelID : UInt8) (reliable unreliable : UInt16) (data : List UInt8) (allocates : Bool) :
    ∃ r, (p.channels channelID.toNat).Step channelID.toNat command r ∧
      p.Became (handleSend command flags p channelID reliable unreliable data allocates).peer
        channelID.toNat r := by
  unfold handleSend
  split
  · exact ⟨_, .same, .same p _⟩
  · cases hq : peerQueueIncomingCommand p ⟨command, channelID, reliable⟩ unreliable flags 0
      (if allocates then some data else none) with
    | error => exact ⟨_, .same, .same p _⟩
    | discarded => exact ⟨_, .same, .same p _⟩
    | queued p' =>
      obtain ⟨before, after, d, -, hp, hw, hb⟩ := queued_iff hq
      exact ⟨_, .queued _ unreliable flags d rfl rfl hw hp, hb⟩

theorem sendUnsequenced_step (p : Inbound) (channelID : UInt8) (reliable group : UInt16)
    (data : List UInt8) (allocates : Bool) :
    ∃ r, (p.channels channelID.toNat).Step channelID.toNat .sendUnsequenced r ∧
      p.Became (protocolHandleSendUnsequenced p channelID reliable group data allocates).peer
        channelID.toNat r := by
  have hqueue : ∀ (q : Inbound) (index : Nat), p.Became q channelID.toNat
      (p.channels channelID.toNat, []) → q.channels = p.channels →
      ∃ r, (p.channels channelID.toNat).Step channelID.toNat .sendUnsequenced r ∧
        p.Became
          (protocolHandleSendUnsequenced.queue channelID reliable data allocates q index).peer
          channelID.toNat r := by
    intro q index hb hc
    unfold protocolHandleSendUnsequenced.queue
    cases hq : peerQueueIncomingCommand q ⟨.sendUnsequenced, channelID, reliable⟩ 0
      packetFlagUnsequenced 0 (if allocates then some data else none) with
    | error => exact ⟨_, .same, hb⟩
    | discarded => exact ⟨_, .same, hb.1, hb.2, hb.3, hb.4⟩
    | queued p' =>
      obtain ⟨before, after, d, -, hp, hw, hb'⟩ := queued_iff hq
      rw [hc] at hp hw hb'
      have hd : q.dispatchedCommands = p.dispatchedCommands := by
        rw [hb.dispatchedCommands, List.append_nil]
      refine ⟨_, .queued _ 0 packetFlagUnsequenced d rfl rfl hw hp, ?_, ?_, ?_, ?_⟩
      · exact hb'.channels.trans (by rw [hc])
      · exact hb'.dispatchedCommands.trans (by rw [hd])
      · exact hb'.state.trans hb.state
      · exact hb'.channelCount.trans hb.channelCount
  unfold protocolHandleSendUnsequenced
  split
  · exact ⟨_, .same, .same p _⟩
  · simp only
    generalize group.toNat + (if group < p.incomingUnsequencedGroup then 0x10000 else 0) = number
    split
    · exact ⟨_, .same, .same p _⟩
    · split
      · refine hqueue _ _ ?_ rfl
        obtain ⟨h₁, h₂, h₃, h₄⟩ := Inbound.Became.same p channelID.toNat
        exact ⟨h₁, h₂, h₃, h₄⟩
      · split
        · exact ⟨_, .same, .same p _⟩
        · exact hqueue p _ (.same p _) rfl

theorem malformed_number {f : Fragment} {p : Inbound} {n : Nat} (h : f.malformed p n ≠ true) :
    f.fragmentNumber < f.fragmentCount := by
  unfold Fragment.malformed at h
  rw [Ne, decide_eq_true_eq] at h
  omega

theorem conflicts_false {e : IncomingCommand} {command : ProtocolCommand} {f : Fragment}
    (h : e.conflicts command f ≠ true) :
    e.command = command ∧ f.totalLength = e.packet.data.length ∧
      f.fragmentCount = e.fragmentCount := by
  unfold IncomingCommand.conflicts at h
  rw [Ne, decide_eq_true_eq] at h
  refine ⟨?_, ?_, ?_⟩
  · by_contra hc
    exact h (.inl hc)
  · by_contra hc
    exact h (.inr (.inl hc))
  · by_contra hc
    exact h (.inr (.inr hc))

/-- Two changes of one channel, one after the other. -/
theorem Inbound.Became.dispatched {p q : Inbound} {i : Nat} {r : Channel × List IncomingCommand}
    (h : p.Became q i r) (s : Channel × List IncomingCommand) :
    p.Became (q.dispatched i s) i (s.1, r.2 ++ s.2) := by
  refine ⟨?_, ?_, h.state, h.channelCount⟩
  · show Function.update q.channels i s.1 = _
    rw [h.channels, Function.update_idem]
  · show q.dispatchedCommands ++ s.2 = _
    rw [h.dispatchedCommands, List.append_assoc]

theorem dispatched_became (p : Inbound) (i : Nat) (s : Channel × List IncomingCommand) :
    p.Became (p.dispatched i s) i s := (Inbound.Became.same p i).dispatched s

theorem sendFragment_step (p : Inbound) (channelID : UInt8) (start : UInt16) (f : Fragment)
    (data : List UInt8) (memory : Option (Nat → UInt8)) :
    ∃ r, (p.channels channelID.toNat).Step channelID.toNat .sendFragment r ∧
      p.Became (protocolHandleSendFragment p channelID start f data memory).peer
        channelID.toNat r := by
  unfold protocolHandleSendFragment
  simp only
  split
  · exact ⟨_, .same, .same p _⟩
  · split
    · exact ⟨_, .same, .same p _⟩
    · split
      · exact ⟨_, .same, .same p _⟩
      · next hm =>
        have hn := malformed_number hm
        split
        · next before e after hs =>
          split
          · exact ⟨_, .same, .same p _⟩
          · next hc =>
            obtain ⟨hce, -, hcount⟩ := conflicts_false hc
            split
            · exact ⟨_, .same, .same p _⟩
            · next hb =>
              exact ⟨_, .stored f data (search_found hs) hce (fun h => by cases h) hcount hn hb,
                dispatched_became p channelID.toNat _⟩
        · split
          · exact ⟨_, .same, .same p _⟩
          · exact ⟨_, .same, .same p _⟩
          · next p' hq =>
            obtain ⟨before, after, d, -, hp, hw, hb⟩ := queued_iff hq
            have hstep := hb.channel_self
            rw [hstep]
            refine ⟨_, .opened _ 0 packetFlagReliable f data d rfl (fun h => by cases h) rfl
              (hw.resolve_left (fun h => by cases h)) hp hn rfl rfl, ?_⟩
            exact hb.dispatched _

theorem sendUnreliableFragment_step {p : Inbound} {channelID : UInt8} {reliable start : UInt16}
    {f : Fragment} {data : List UInt8} {memory : Option (Nat → UInt8)} {handled : Handled}
    (h : protocolHandleSendUnreliableFragment p channelID reliable start f data memory =
      some handled) :
    ∃ r, (p.channels channelID.toNat).Step channelID.toNat .sendUnreliableFragment r ∧
      p.Became handled.peer channelID.toNat r := by
  unfold protocolHandleSendUnreliableFragment at h
  simp only at h
  split at h
  · cases h
    exact ⟨_, .same, .same p _⟩
  · split at h
    · cases h
      exact ⟨_, .same, .same p _⟩
    · split at h
      · cases h
        exact ⟨_, .same, .same p _⟩
      · split at h
        · cases h
          exact ⟨_, .same, .same p _⟩
        · next hm =>
          have hn := malformed_number hm
          split at h
          · next before e after hs =>
            split at h
            · cases h
              exact ⟨_, .same, .same p _⟩
            · next hc =>
              obtain ⟨hce, -, hcount⟩ := conflicts_false hc
              split at h
              · cases h
                exact ⟨_, .same, .same p _⟩
              · next hb =>
                cases h
                exact ⟨_, .stored f data (search_found hs) hce (fun h => by cases h) hcount hn hb,
                  dispatched_became p channelID.toNat _⟩
          · split at h
            · cases h
              exact ⟨_, .same, .same p _⟩
            · cases h
              exact ⟨_, .same, .same p _⟩
            · next p' hq =>
              obtain ⟨before, after, d, -, hp, hw, hb⟩ := queued_iff hq
              split at h
              · cases h
                rw [hb.channel_self]
                refine ⟨_, .opened _ start packetFlagUnreliableFragment f data d rfl
                  (fun h => by cases h) rfl
                  (hw.resolve_left (fun h => by cases h)) hp hn rfl rfl, ?_⟩
                exact hb.dispatched _
              · cases h

/-! ## Every command is in the list of its channel and kind -/

namespace Channel

theorem withCommands_commands (c : Channel) (k k' : ProtocolCommand) (cs : List IncomingCommand) :
    (c.withCommands k cs).commands k' =
      if isReliable k' = isReliable k then cs else c.commands k' := by
  unfold withCommands commands
  cases isReliable k <;> cases isReliable k' <;> rfl

theorem dispatch_commands {c : Channel} {k k' : ProtocolCommand} {e : IncomingCommand}
    (he : e ∈ (c.dispatch k).1.commands k') : e ∈ c.commands k' := by
  unfold dispatch commands at *
  obtain ⟨-, hlist, u, -, hu⟩ := dispatchReliable_reliable c
  cases hk : isReliable k <;> cases hk' : isReliable k' <;>
    simp only [hk, hk', if_true, if_false, Bool.false_eq_true] at he ⊢
  · exact dispatchUnreliable_mem c e (.inl he)
  · exact he
  · exact hu e (.inr he)
  · rw [hlist] at he
    rw [dispatchReliableLoop_append c.incomingReliableSequenceNumber c.incomingReliableCommands]
    exact List.mem_append_right _ he

theorem dispatch_out {c : Channel} {k : ProtocolCommand} {e : IncomingCommand}
    (he : e ∈ (c.dispatch k).2) : e ∈ c.commands k ∨ e ∈ c.commands .sendUnreliable := by
  unfold dispatch commands at *
  obtain ⟨-, -, u, hout, hu⟩ := dispatchReliable_reliable c
  have hu' : isReliable .sendUnreliable = false := rfl
  cases hk : isReliable k <;> simp only [hk, hu', if_true, if_false, Bool.false_eq_true] at he ⊢
  · exact .inl (dispatchUnreliable_mem c e (.inr he))
  · rw [hout, List.mem_append] at he
    rcases he with he | he
    · refine .inl ?_
      rw [dispatchReliableLoop_append c.incomingReliableSequenceNumber c.incomingReliableCommands]
      exact List.mem_append_left _ he
    · exact .inr (hu e (.inl he))

/-- The command is one of this channel and of this kind. -/
def Belongs (i : Nat) (k : ProtocolCommand) (e : IncomingCommand) : Prop :=
  e.channelID.toNat = i ∧ isReliable e.command = isReliable k

structure Tidy (i : Nat) (c : Channel) : Prop where
  belongs : ∀ k, ∀ e ∈ c.commands k, Belongs i k e
  released : ∀ k, ∀ e ∈ c.commands k, e.held = false

theorem belongs_dispatch {i : Nat} {c : Channel} (h : ∀ k, ∀ e ∈ c.commands k, Belongs i k e)
    (k : ProtocolCommand) : (∀ k', ∀ e ∈ (c.dispatch k).1.commands k', Belongs i k' e) ∧
      ∀ e ∈ (c.dispatch k).2, Belongs i k e ∨ Belongs i .sendUnreliable e :=
  ⟨fun k' e he => h k' e (dispatch_commands he),
    fun e he => (dispatch_out he).imp (h k e) (h _ e)⟩

theorem belongs_withCommands {i : Nat} {c : Channel} {k : ProtocolCommand}
    (h : ∀ k, ∀ e ∈ c.commands k, Belongs i k e) (cs : List IncomingCommand)
    (hcs : ∀ e ∈ cs, Belongs i k e) :
    ∀ k', ∀ e ∈ (c.withCommands k cs).commands k', Belongs i k' e := by
  intro k' e he
  rw [withCommands_commands] at he
  split at he
  · next hk =>
    rw [Belongs, hk]
    exact hcs e he
  · exact h k' e he

theorem belongs_release {i : Nat} {k : ProtocolCommand} {cs : List IncomingCommand}
    (h : ∀ e ∈ cs, Belongs i k e) (f : Fragment) (data : List UInt8) :
    ∀ e ∈ release (fun e => e.store f data) cs, Belongs i k e := by
  intro e he
  obtain ⟨e', he', rfl⟩ := List.mem_map.mp he
  have hb := h e' he'
  split
  · exact hb
  · exact hb

theorem mem_insert {before after : List IncomingCommand} {e e' : IncomingCommand}
    (h : e' ∈ before ++ e :: after) : e' = e ∨ e' ∈ before ++ after := by
  simp only [List.mem_append, List.mem_cons] at *
  tauto

theorem release_held {f : IncomingCommand → IncomingCommand} {cs : List IncomingCommand}
    {e : IncomingCommand} (he : e ∈ release f cs) : e.held = false := by
  obtain ⟨e', he', rfl⟩ := List.mem_map.mp he
  split
  · rfl
  · next h => simpa using h

/-- The lists stay tidy, and what is dispatched is of this channel. -/
theorem Step.tidy {i : Nat} {c : Channel} {k : ProtocolCommand}
    {r : Channel × List IncomingCommand} (hs : c.Step i k r) (ht : c.Tidy i) :
    r.1.Tidy i ∧ ∀ e ∈ r.2, Belongs i k e ∨ Belongs i .sendUnreliable e := by
  cases hs with
  | same => exact ⟨ht, fun e he => by cases he⟩
  | queued h unreliable flags data hc hi hw hp =>
    subst hc
    have hl := place_commands hp
    have hb := belongs_withCommands (k := h.command) ht.belongs
      (_ ++ queuedCommand h unreliable flags 0 data :: _) (by
        intro e he
        rcases mem_insert he with rfl | he
        · exact ⟨hi, rfl⟩
        · exact ht.belongs _ e (hl ▸ he))
    have hd := belongs_dispatch hb h.command
    refine ⟨⟨hd.1, fun k' e he => ?_⟩, hd.2⟩
    have he := dispatch_commands he
    rw [withCommands_commands] at he
    split at he
    · rcases mem_insert he with rfl | he
      · rfl
      · exact ht.released _ e (hl ▸ he)
    · exact ht.released k' e he
  | @opened h unreliable flags f data memory before after hc _ hi hw hp hn r₁ hr r₂ hs =>
    subst hc
    have hl := place_commands hp
    have hb := belongs_withCommands (k := h.command) ht.belongs
      (before ++ queuedCommand h unreliable flags f.fragmentCount memory :: after) (by
        intro e he
        rcases mem_insert he with rfl | he
        · exact ⟨hi, rfl⟩
        · exact ht.belongs _ e (hl ▸ he))
    have hd := belongs_dispatch hb h.command
    rw [← hr] at hd
    have hb' := belongs_withCommands (k := h.command) hd.1 _
      (belongs_release (hd.1 h.command) f data)
    have hheld : ∀ k', ∀ e ∈ (r₁.1.withCommands h.command
        (release (fun e => e.store f data) (r₁.1.commands h.command))).commands k',
        e.held = false := by
      intro k' e he
      rw [withCommands_commands] at he
      split at he
      · exact release_held he
      · next hk =>
        rw [hr] at he
        have he := dispatch_commands he
        rw [withCommands_commands, if_neg hk] at he
        exact ht.released k' e he
    have hd' := belongs_dispatch hb' h.command
    rw [hs]
    split
    · refine ⟨⟨hd'.1, fun k' e he => hheld k' e (dispatch_commands he)⟩, fun e he => ?_⟩
      exact (List.mem_append.mp he).elim (hd.2 e) (hd'.2 e)
    · refine ⟨⟨hb', hheld⟩, fun e he => hd.2 e ?_⟩
      simpa using he
  | @stored f data before after e hl hc _ hf hn he =>
    have hmem : e ∈ c.commands k := by
      rw [hl]
      exact List.mem_append_right _ List.mem_cons_self
    have hrest : ∀ e' ∈ before ++ after, e' ∈ c.commands k := by
      intro e' he'
      rw [hl]
      simp only [List.mem_append, List.mem_cons] at *
      tauto
    have hb := belongs_withCommands (k := k) ht.belongs (before ++ e.store f data :: after) (by
        intro e' he'
        rcases mem_insert he' with rfl | he'
        · exact ht.belongs k e hmem
        · exact ht.belongs k e' (hrest e' he'))
    have hheld : ∀ k', ∀ e' ∈ (c.withCommands k
        (before ++ e.store f data :: after)).commands k', e'.held = false := by
      intro k' e' he'
      rw [withCommands_commands] at he'
      split at he'
      · rcases mem_insert he' with rfl | he'
        · exact ht.released k e hmem
        · exact ht.released k e' (hrest e' he')
      · exact ht.released k' e' he'
    split
    · have hd := belongs_dispatch hb k
      exact ⟨⟨hd.1, fun k' e he => hheld k' e (dispatch_commands he)⟩, hd.2⟩
    · exact ⟨⟨hb, hheld⟩, fun e he => by cases he⟩

/-- What is not reliable leaves the reliable half of a channel alone. -/
theorem Step.unreliable {i : Nat} {c : Channel} {k : ProtocolCommand}
    {r : Channel × List IncomingCommand} (hs : c.Step i k r) (hk : isReliable k = false) :
    r.1.incomingReliableSequenceNumber = c.incomingReliableSequenceNumber ∧
      r.1.incomingReliableCommands = c.incomingReliableCommands := by
  have hwith : ∀ (c : Channel) (cs : List IncomingCommand),
      ((c.withCommands k cs).dispatch k).1.incomingReliableSequenceNumber =
          c.incomingReliableSequenceNumber ∧
        ((c.withCommands k cs).dispatch k).1.incomingReliableCommands =
          c.incomingReliableCommands ∧
        (c.withCommands k cs).incomingReliableSequenceNumber = c.incomingReliableSequenceNumber ∧
        (c.withCommands k cs).incomingReliableCommands = c.incomingReliableCommands := by
    intro c cs
    unfold withCommands dispatch
    rw [hk]
    exact ⟨rfl, rfl, rfl, rfl⟩
  cases hs with
  | same => exact ⟨rfl, rfl⟩
  | queued => exact ⟨(hwith c _).1, (hwith c _).2.1⟩
  | opened h unreliable flags f data memory hc _ hi hw hp hn hr hs =>
    obtain ⟨h₁, h₂, -, -⟩ :=
      hwith c (_ ++ queuedCommand h unreliable flags f.fragmentCount memory :: _)
    rw [← hr] at h₁ h₂
    rw [hs]
    split
    · exact ⟨(hwith _ _).1.trans h₁, (hwith _ _).2.1.trans h₂⟩
    · exact ⟨(hwith _ _).2.2.1.trans h₁, (hwith _ _).2.2.2.trans h₂⟩
  | stored =>
    split
    · exact ⟨(hwith c _).1, (hwith c _).2.1⟩
    · exact ⟨(hwith c _).2.2.1, (hwith c _).2.2.2⟩

end Channel
end Transport
