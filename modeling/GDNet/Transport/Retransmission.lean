import GDNet.Transport.Sender
import Mathlib.Data.List.TakeWhile

/-!
# Sending, and sending again

The loops that move the reliable commands of a peer: into a datagram, back when
their time is over, and away when they are acknowledged.  `Moved` is what the first
two have in common, the commands are the same as before except for what they say
about their attempts.
-/

namespace Transport
open ENet (Packet ProtocolCommand)

/-- What a turn of the loop can do. -/
theorem turn_cases (s : Sending) (c : Outgoing) (t : UInt32) :
    (∃ s', s.turn c t = .skip s' ∧ s'.peer = s.peer ∧ s'.batch = s.batch ∧
      (s'.windowWrap = true ∨ s'.windowExceeded = true)) ∨
    (∃ s', s.turn c t = .stop s' ∧ s'.peer = s.peer ∧ s'.batch.sent = s.batch.sent ∧
      s'.batch.packetSize = s.batch.packetSize ∧ s'.batch.commandCount = s.batch.commandCount ∧
      s'.batch.bufferCount = s.batch.bufferCount) ∨
    s.turn c t = .send (s.send c t) ∧
      (c.channelID.toNat < s.peer.channelCount →
        s.windowWrap = false ∧ windowBlocked (s.peer.channels c.channelID.toNat) c = false) ∧
      (c.packet.isSome = true → s.windowExceeded = false ∧
        s.peer.reliableDataInTransit + c.fragmentLength ≤ s.peer.dataLimit) ∧
      s.peer.full s.batch c = false := by
  unfold Sending.turn
  simp only
  split
  · next hw =>
    rw [Bool.and_eq_true] at hw
    exact .inl ⟨_, rfl, rfl, rfl, .inl hw.2⟩
  · next hw =>
    have hchannel : c.channelID.toNat < s.peer.channelCount →
        s.windowWrap = false ∧ windowBlocked (s.peer.channels c.channelID.toNat) c = false := by
      intro hlt
      rw [decide_eq_true hlt, Bool.true_and, Bool.true_and, Bool.not_eq_true,
        Bool.or_eq_false_iff] at hw
      exact hw
    split
    · next he =>
      rw [Bool.and_eq_true] at he
      exact .inl ⟨_, rfl, rfl, rfl, .inr he.2⟩
    · next he =>
      split
      · exact .inr (.inl ⟨_, rfl, rfl, rfl, rfl, rfl, rfl⟩)
      · next hf =>
        refine .inr (.inr ⟨rfl, hchannel, fun hp => ?_, by simpa using hf⟩)
        rw [hp, Bool.true_and, Bool.true_and, Bool.not_eq_true, Bool.or_eq_false_iff,
          decide_eq_false_iff_not, Nat.not_lt] at he
        exact he

/-- The commands are the same, whatever was tried with them. -/
def Moved (cs ds : List Outgoing) : Prop :=
  (cs.map Outgoing.message).Perm (ds.map Outgoing.message)

namespace Moved

variable {cs ds es : List Outgoing}

theorem refl (cs : List Outgoing) : Moved cs cs := List.Perm.refl _

theorem of_perm (h : cs.Perm ds) : Moved cs ds := h.map _

theorem symm (h : Moved cs ds) : Moved ds cs := List.Perm.symm h

theorem trans (h : Moved cs ds) (h' : Moved ds es) : Moved cs es := List.Perm.trans h h'

theorem append (h : Moved cs ds) (es : List Outgoing) : Moved (cs ++ es) (ds ++ es) := by
  unfold Moved at *
  rw [List.map_append, List.map_append]
  exact h.append_right _

theorem prepend (es : List Outgoing) (h : Moved cs ds) : Moved (es ++ cs) (es ++ ds) := by
  unfold Moved at *
  rw [List.map_append, List.map_append]
  exact h.append_left _

theorem cons {c d : Outgoing} (hm : c.message = d.message) (h : Moved cs ds) :
    Moved (c :: cs) (d :: ds) := by
  unfold Moved at *
  rw [List.map_cons, List.map_cons, hm]
  exact h.cons _

/-- A command there was there before, as far as its message goes. -/
theorem mem (h : Moved cs ds) {c : Outgoing} (hc : c ∈ cs) : ∃ d ∈ ds, d.message = c.message :=
  List.mem_map.mp (h.mem_iff.mp (List.mem_map_of_mem hc))

end Moved

theorem serialsOn_message (i : Nat) (cs : List Outgoing) :
    serialsOn i (cs.map Outgoing.message) = serialsOn i cs := by
  unfold serialsOn
  rw [List.filter_map, List.map_map]
  rfl

theorem Moved.serialsOn {cs ds : List Outgoing} (h : Moved cs ds) (i : Nat) :
    (serialsOn i cs).Perm (serialsOn i ds) := by
  rw [← serialsOn_message i cs, ← serialsOn_message i ds]
  exact (h.filter _).map _

theorem Moved.gap {i w base : Nat} {p q : Outbound} (h : Moved q.reliable p.reliable)
    (hg : Gap i w base p) : Gap i w base q :=
  fun m hpos hle hnot => hg m hpos hle fun hm => hnot ((h.serialsOn i).mem_iff.mpr hm)

/-! ## The loop -/

theorem send_moved (s : Sending) (c : Outgoing) (t : UInt32) (kept cs : List Outgoing) :
    Moved ((s.send c t).peer.queue (kept ++ cs)).reliable
      (s.peer.queue (kept ++ c :: cs)).reliable := by
  show Moved ((s.send c t).peer.sentReliableCommands ++ (kept ++ cs))
    (s.peer.sentReliableCommands ++ (kept ++ c :: cs))
  rw [send_sent, List.append_assoc, List.singleton_append]
  refine Moved.prepend _ ((Moved.cons (message_attempt c s.peer t) (.refl (kept ++ cs))).trans ?_)
  exact .of_perm List.perm_middle.symm

/-- What the loop does to a channel. -/
theorem loop_sound {i base : Nat} {t : UInt32} {s : Sending} {kept cs : List Outgoing}
    (h : Sound i base (s.peer.queue (kept ++ cs)))
    (hw : freshOn i kept ≠ [] → s.windowWrap = true ∨ s.windowExceeded = true) :
    ∃ base', Sound i base' ((Sending.loop t cs s).1.peer.queue
        (kept ++ (Sending.loop t cs s).2)) ∧
      base ≤ base' ∧ ∀ w, Gap i w base (s.peer.queue (kept ++ cs)) → base / 4096 ≤ w + 1 →
        base' / 4096 ≤ w + 1 := by
  induction cs generalizing s kept base with
  | nil => exact ⟨base, h, Nat.le_refl _, fun _ _ hle => hle⟩
  | cons c cs ih =>
    rcases turn_cases s c t with ⟨s', hs', hp, -, hflag⟩ | ⟨s', hs', hp, -⟩ | ⟨hs', hch, hpk, -⟩
    · rw [List.append_cons, ← hp] at h
      obtain ⟨base', hb, hle, hfront⟩ := ih h fun _ => hflag
      rw [hp, ← List.append_cons] at hfront
      refine ⟨base', ?_, hle, hfront⟩
      rw [Sending.loop, hs']
      simp only
      rw [List.append_cons]
      exact hb
    · refine ⟨base, ?_, Nat.le_refl _, fun _ _ hle => hle⟩
      rw [Sending.loop, hs']
      simp only
      rw [hp]
      exact h
    · have hmem : c ∈ (s.peer.queue (kept ++ c :: cs)).reliable :=
        List.mem_append_right _ (List.mem_append_right _ List.mem_cons_self)
      have hfirst : c.onChannel i = true → c.isTried = false →
          freshOn i kept = [] ∧ windowBlocked (s.peer.channels i) c = false := by
        intro hi _
        have hci : c.channelID.toNat = i := of_decide_eq_true hi
        have hlt : c.channelID.toNat < s.peer.channelCount := by
          rw [hci]
          exact h.channel
        obtain ⟨hwrap, hblocked⟩ := hch hlt
        obtain ⟨hexceeded, -⟩ := hpk (h.numbers c hmem hci).2
        rw [hci] at hblocked
        refine ⟨by_contra fun hk => ?_, hblocked⟩
        rcases hw hk with hw | hw
        · rw [hwrap] at hw
          cases hw
        · rw [hexceeded] at hw
          cases hw
      obtain ⟨base₁, hadvance, h₁⟩ := h.send t hfirst
      obtain ⟨base', hb, hle, hfront⟩ := ih h₁ hw
      have hle₁ : base ≤ base₁ := by
        cases hadvance with
        | stay => exact Nat.le_refl _
        | next => exact Nat.le_succ _
      refine ⟨base', ?_, Nat.le_trans hle₁ hle, fun w hg hbase => ?_⟩
      · rw [Sending.loop, hs']
        exact hb
      · obtain ⟨-, hg₁, hw₁⟩ := hadvance.front h hg hbase
        exact hfront w ((send_moved s c t kept cs).gap hg₁) hw₁

/-- The commands that go into the datagram. -/
theorem loop_moved (t : UInt32) (cs : List Outgoing) (s : Sending) :
    ∃ new, (Sending.loop t cs s).1.peer.sentReliableCommands =
        s.peer.sentReliableCommands ++ new ∧
      (Sending.loop t cs s).1.batch.sent = s.batch.sent ++ new ∧
      Moved (new ++ (Sending.loop t cs s).2) cs := by
  induction cs generalizing s with
  | nil => exact ⟨[], (List.append_nil _).symm, (List.append_nil _).symm, .refl _⟩
  | cons c cs ih =>
    rcases turn_cases s c t with ⟨s', hs', hp, hb, -⟩ | ⟨s', hs', hp, hb, -⟩ | ⟨hs', -⟩
    · obtain ⟨new, hsent, hbatch, hmoved⟩ := ih s'
      rw [hp] at hsent
      rw [hb] at hbatch
      refine ⟨new, ?_, ?_, ?_⟩ <;> rw [Sending.loop, hs']
      · exact hsent
      · exact hbatch
      · exact (Moved.of_perm List.perm_middle).trans (.cons rfl hmoved)
    · refine ⟨[], ?_, ?_, ?_⟩ <;> rw [Sending.loop, hs']
      · rw [List.append_nil, hp]
      · rw [List.append_nil, hb]
      · exact .refl _
    · obtain ⟨new, hsent, hbatch, hmoved⟩ := ih (s.send c t)
      refine ⟨c.attempt s.peer t :: new, ?_, ?_, ?_⟩ <;> rw [Sending.loop, hs']
      · simp only
        rw [hsent, send_sent, List.append_assoc, List.singleton_append]
      · simp only
        rw [hbatch]
        show s.batch.sent ++ [c.attempt s.peer t] ++ new = _
        rw [List.append_assoc, List.singleton_append]
      · exact .cons (message_attempt c s.peer t) hmoved

/-- The datagram and `sentReliableCommands` get the same commands. -/
theorem flush_moved (p : Outbound) (b : Batch) (t : UInt32) :
    ∃ new, (protocolSendReliableOutgoingCommands p b t).1.sentReliableCommands =
        p.sentReliableCommands ++ new ∧
      (protocolSendReliableOutgoingCommands p b t).2.1.sent = b.sent ++ new ∧
      Moved (protocolSendReliableOutgoingCommands p b t).1.reliable p.reliable := by
  obtain ⟨new, hsent, hbatch, hmoved⟩ := loop_moved t p.outgoingReliableCommands
    { peer := p, batch := b }
  refine ⟨new, hsent, hbatch, ?_⟩
  show Moved ((Sending.loop t p.outgoingReliableCommands
    { peer := p, batch := b }).1.peer.sentReliableCommands ++
    (Sending.loop t p.outgoingReliableCommands { peer := p, batch := b }).2) _
  rw [hsent, List.append_assoc]
  exact hmoved.prepend _

theorem flush_sound {i base : Nat} {p : Outbound} (h : Sound i base p) (b : Batch) (t : UInt32) :
    ∃ base', Sound i base' (protocolSendReliableOutgoingCommands p b t).1 ∧ base ≤ base' ∧
      ∀ w, Gap i w base p → base / 4096 ≤ w + 1 → base' / 4096 ≤ w + 1 := by
  have h' : Sound i base (p.queue ([] ++ p.outgoingReliableCommands)) := h
  exact loop_sound (s := { peer := p, batch := b }) h' fun hk => absurd rfl hk

/-- The commands of a sound sender may be moved, if those not sent keep their places. -/
theorem Sound.moved {i base : Nat} {p p' : Outbound} (h : Sound i base p)
    (hm : Moved p'.reliable p.reliable) (hcount : p'.channelCount = p.channelCount)
    (hch : p'.channels i = p.channels i) (hsent : ∀ c ∈ p'.sentReliableCommands, c.isTried = true)
    (htried : (triedOn i p.reliable).Perm (triedOn i p'.reliable))
    (hfresh : freshOn i p'.reliable = freshOn i p.reliable) : Sound i base p' := by
  refine h.transfer hcount hch (fun c hc hi => ?_) hsent htried hfresh
  obtain ⟨d, hd, he⟩ := hm.mem hc
  have hchannel : d.channelID = c.channelID := congrArg (fun c => c.channelID) he
  have hnumber : d.reliableSequenceNumber = c.reliableSequenceNumber :=
    congrArg (fun c => c.reliableSequenceNumber) he
  have hserial : d.serial = c.serial := congrArg (fun c => c.serial) he
  have hpacket : d.packet = c.packet := congrArg (fun c => c.packet) he
  have hold := h.numbers d hd (by rw [hchannel]; exact hi)
  rw [hnumber, hserial, hpacket] at hold
  exact hold

/-! ## Timeouts -/

/-- The commands that are late keep their order, and no command is lost. -/
theorem timeouts_moved (serviceTime : UInt32) (cs : List Outgoing) (t : Timeouts) :
    Moved ((Timeouts.loop serviceTime cs t).1.kept ++ (Timeouts.loop serviceTime cs t).2.1 ++
      (Timeouts.loop serviceTime cs t).1.late) (t.kept ++ cs ++ t.late) := by
  induction cs generalizing t with
  | nil => exact .refl _
  | cons c cs ih =>
    unfold Timeouts.loop
    simp only
    split
    · refine (ih _).trans ?_
      simp only [List.append_assoc, List.singleton_append]
      exact .refl _
    · split
      · exact .refl _
      · refine (ih _).trans ?_
        simp only [List.append_assoc]
        refine Moved.prepend _ ?_
        rw [← List.append_assoc]
        refine (Moved.of_perm List.perm_append_comm).trans ?_
        exact .cons rfl (.refl _)

theorem timeouts_tried {serviceTime : UInt32} {cs : List Outgoing} {t : Timeouts}
    (hcs : ∀ c ∈ cs, c.isTried = true) (hk : ∀ c ∈ t.kept, c.isTried = true)
    (hl : ∀ c ∈ t.late, c.isTried = true) :
    (∀ c ∈ (Timeouts.loop serviceTime cs t).1.kept ++ (Timeouts.loop serviceTime cs t).2.1,
      c.isTried = true) ∧ ∀ c ∈ (Timeouts.loop serviceTime cs t).1.late, c.isTried = true := by
  induction cs generalizing t with
  | nil =>
    unfold Timeouts.loop
    rw [List.append_nil]
    exact ⟨hk, hl⟩
  | cons c cs ih =>
    obtain ⟨hc, hcs⟩ := List.forall_mem_cons.mp hcs
    unfold Timeouts.loop
    simp only
    split
    · exact ih hcs (List.forall_mem_append.mpr ⟨hk, List.forall_mem_singleton.mpr hc⟩) hl
    · split
      · exact ⟨List.forall_mem_append.mpr ⟨hk, List.forall_mem_cons.mpr ⟨hc, hcs⟩⟩, hl⟩
      · exact ih hcs hk (List.forall_mem_append.mpr ⟨hl, List.forall_mem_singleton.mpr hc⟩)

theorem timeouts_channels (serviceTime : UInt32) (cs : List Outgoing) (t : Timeouts) :
    (Timeouts.loop serviceTime cs t).1.peer.channels = t.peer.channels ∧
      (Timeouts.loop serviceTime cs t).1.peer.channelCount = t.peer.channelCount := by
  induction cs generalizing t with
  | nil => exact ⟨rfl, rfl⟩
  | cons c cs ih =>
    unfold Timeouts.loop
    simp only
    split
    · exact ih _
    · split
      · exact ⟨rfl, rfl⟩
      · exact ih _

/-- The late commands are put in front of those that wait. -/
theorem checkTimeouts_cases (p : Outbound) (t : UInt32) :
    ∃ late, (protocolCheckTimeouts p t).1.outgoingReliableCommands =
        late ++ p.outgoingReliableCommands ∧
      Moved ((protocolCheckTimeouts p t).1.sentReliableCommands ++ late) p.sentReliableCommands ∧
      ((∀ c ∈ p.sentReliableCommands, c.isTried = true) →
        (∀ c ∈ (protocolCheckTimeouts p t).1.sentReliableCommands, c.isTried = true) ∧
        ∀ c ∈ late, c.isTried = true) := by
  have hmoved := timeouts_moved t p.sentReliableCommands { peer := p }
  rw [List.nil_append, List.append_nil] at hmoved
  refine ⟨_, rfl, hmoved, fun h => ?_⟩
  exact timeouts_tried (t := { peer := p }) h
    (fun c hc => by cases hc) (fun c hc => by cases hc)

theorem checkTimeouts_moved (p : Outbound) (t : UInt32) :
    Moved (protocolCheckTimeouts p t).1.reliable p.reliable := by
  obtain ⟨late, hout, hmoved, -⟩ := checkTimeouts_cases p t
  rw [Outbound.reliable, hout, ← List.append_assoc]
  exact hmoved.append _

theorem checkTimeouts_sound {i base : Nat} {p : Outbound} (h : Sound i base p) (t : UInt32) :
    Sound i base (protocolCheckTimeouts p t).1 := by
  obtain ⟨late, hout, hmoved, htried⟩ := checkTimeouts_cases p t
  obtain ⟨hsent, hlate⟩ := htried h.sent
  obtain ⟨hch, hcount⟩ := timeouts_channels t p.sentReliableCommands { peer := p }
  refine h.moved (checkTimeouts_moved p t) hcount (congrFun hch i) hsent ?_ ?_
  · rw [Outbound.reliable, Outbound.reliable, hout, ← List.append_assoc, triedOn_append,
      triedOn_append, triedOn_of_tried h.sent,
      triedOn_of_tried (List.forall_mem_append.mpr ⟨hsent, hlate⟩)]
    exact (hmoved.serialsOn i).symm.append_right _
  · rw [Outbound.reliable, Outbound.reliable, hout, freshOn_append, freshOn_append, freshOn_append,
      freshOn_eq_nil hsent, freshOn_eq_nil hlate, freshOn_eq_nil h.sent, List.nil_append]

/-! ## Acknowledgements -/

theorem eraseP_split (ds : List Outgoing) {l : List Outgoing} {f : Outgoing → Bool} {c : Outgoing}
    (h : l.find? f = some c) :
    ∃ as bs, l = as ++ c :: bs ∧ f c = true ∧ (l ++ ds).eraseP f = as ++ bs ++ ds := by
  obtain ⟨hc, as, bs, rfl, has⟩ := List.find?_eq_some_iff_append.mp h
  refine ⟨as, bs, rfl, hc, ?_⟩
  rw [List.append_assoc, List.cons_append, List.eraseP_append_right _ (by simpa using has),
    List.eraseP_cons_of_pos hc, List.append_assoc]

/-- What an acknowledgement does: nothing, or one command that was sent is gone. -/
structure Acknowledged (p p' : Outbound) (number : UInt16) (channelID : UInt8) (c : Outgoing)
    (as bs : List Outgoing) : Prop where
  before : p.reliable = as ++ c :: bs
  after : p'.reliable = as ++ bs
  isIt : c.isIt number channelID = true
  tried : c ∈ p.sentReliableCommands ∨ c.isTried = true
  sent : ∀ d ∈ p'.sentReliableCommands, d ∈ p.sentReliableCommands
  channels : p'.channels = (p.freeWindow number channelID).channels
  channelCount : p'.channelCount = p.channelCount

theorem freeWindow_same (p : Outbound) (number : UInt16) (channelID : UInt8) :
    (p.freeWindow number channelID).sentReliableCommands = p.sentReliableCommands ∧
      (p.freeWindow number channelID).outgoingReliableCommands = p.outgoingReliableCommands ∧
      (p.freeWindow number channelID).channelCount = p.channelCount ∧
      (p.freeWindow number channelID).reliableDataInTransit = p.reliableDataInTransit := by
  unfold Outbound.freeWindow
  split <;> exact ⟨rfl, rfl, rfl, rfl⟩

theorem rearm_same (p : Outbound) :
    p.rearm.sentReliableCommands = p.sentReliableCommands ∧
      p.rearm.outgoingReliableCommands = p.outgoingReliableCommands ∧
      p.rearm.channelCount = p.channelCount ∧ p.rearm.channels = p.channels ∧
      p.rearm.reliableDataInTransit = p.reliableDataInTransit := by
  unfold Outbound.rearm
  split <;> exact ⟨rfl, rfl, rfl, rfl, rfl⟩

theorem remove_cases (p : Outbound) (number : UInt16) (channelID : UInt8) :
    (protocolRemoveSentReliableCommand p number channelID).1 = p ∨
      ∃ c as bs, Acknowledged p (protocolRemoveSentReliableCommand p number channelID).1 number
        channelID c as bs := by
  obtain ⟨hs, ho, hcount, -⟩ := freeWindow_same p number channelID
  unfold protocolRemoveSentReliableCommand
  split
  · next c hfind =>
    obtain ⟨as, bs, hsplit, hc, herase⟩ := eraseP_split [] hfind
    rw [List.append_nil, List.append_nil] at herase
    refine .inr ⟨c, as, bs ++ p.outgoingReliableCommands, ?_⟩
    obtain ⟨hs', ho', hcount', hch', -⟩ := rearm_same { p.freeWindow number channelID with
      sentReliableCommands := (p.freeWindow number channelID).sentReliableCommands.eraseP
        (Outgoing.isIt number channelID)
      reliableDataInTransit := (p.freeWindow number channelID).reliableDataInTransit -
        if c.packet.isSome then c.fragmentLength else 0 }
    refine ⟨?_, ?_, hc, .inl ?_, ?_, hch', hcount'.trans hcount⟩
    · rw [Outbound.reliable, hsplit, List.append_assoc, List.cons_append]
    · rw [Outbound.reliable, hs', ho']
      simp only [hs, ho, herase, List.append_assoc]
    · rw [hsplit]
      exact List.mem_append_right _ List.mem_cons_self
    · intro d hd
      rw [hs'] at hd
      simp only [hs, herase] at hd
      rw [hsplit]
      simp only [List.mem_append, List.mem_cons] at *
      tauto
  · split
    · next c hfind =>
      obtain ⟨as, bs, hsplit, hc, herase⟩ := eraseP_split
        (p.outgoingReliableCommands.dropWhile fun c => decide (1 ≤ c.sendAttempts)) hfind
      rw [List.takeWhile_append_dropWhile] at herase
      have hout : p.outgoingReliableCommands = as ++ c :: (bs ++
          p.outgoingReliableCommands.dropWhile fun c => decide (1 ≤ c.sendAttempts)) := by
        have happend := List.takeWhile_append_dropWhile
          (p := fun c : Outgoing => decide (1 ≤ c.sendAttempts)) (l := p.outgoingReliableCommands)
        rw [hsplit, List.append_assoc, List.cons_append] at happend
        exact happend.symm
      have htried : c.isTried = true := by
        refine List.mem_takeWhile_imp (p := fun c => decide (1 ≤ c.sendAttempts))
          (l := p.outgoingReliableCommands) ?_
        rw [hsplit]
        exact List.mem_append_right _ List.mem_cons_self
      refine .inr ⟨c, p.sentReliableCommands ++ as, bs ++
        p.outgoingReliableCommands.dropWhile fun c => decide (1 ≤ c.sendAttempts), ?_⟩
      obtain ⟨hs', ho', hcount', hch', -⟩ := rearm_same { p.freeWindow number channelID with
        outgoingReliableCommands := (p.freeWindow number channelID).outgoingReliableCommands.eraseP
          (Outgoing.isIt number channelID) }
      refine ⟨?_, ?_, hc, .inr htried, ?_, hch', hcount'.trans hcount⟩
      · rw [Outbound.reliable, List.append_assoc]
        exact congrArg _ hout
      · rw [Outbound.reliable, hs', ho']
        simp only [hs, ho, herase, List.append_assoc]
      · intro d hd
        rw [hs'] at hd
        simp only [hs] at hd
        exact hd
    · exact .inl rfl

theorem freeWindow_channel (p : Outbound) (number : UInt16) {channelID : UInt8} {i : Nat}
    (h : i < p.channelCount) :
    (p.freeWindow number channelID).channels i =
      if channelID.toNat = i then (p.channels i).free (number.toNat / 4096) else p.channels i := by
  unfold Outbound.freeWindow
  by_cases hi : channelID.toNat = i
  · subst hi
    rw [if_pos h, if_pos rfl]
    exact Function.update_self ..
  · rw [if_neg hi]
    split
    · exact Function.update_of_ne (Ne.symm hi) _ _
    · rfl

theorem free_same (ch : OutChannel) (w : Nat) :
    (ch.free w).serial = ch.serial ∧
      (ch.free w).outgoingReliableSequenceNumber = ch.outgoingReliableSequenceNumber := by
  unfold OutChannel.free
  split <;> exact ⟨rfl, rfl⟩

theorem isIt_iff {number : UInt16} {channelID : UInt8} {c : Outgoing} :
    c.isIt number channelID = true ↔
      c.reliableSequenceNumber = number ∧ c.channelID = channelID := by
  rw [Outgoing.isIt, Bool.and_eq_true, beq_iff_eq, beq_iff_eq]

theorem Acknowledged.sound {i base : Nat} {p p' : Outbound} {number : UInt16} {channelID : UInt8}
    {c : Outgoing} {as bs : List Outgoing} (h : Sound i base p)
    (ha : Acknowledged p p' number channelID c as bs) : Sound i base p' := by
  obtain ⟨hnumber, hchannel⟩ := isIt_iff.mp ha.isIt
  have htried : c.isTried = true := ha.tried.elim (h.sent c) id
  have hsent : ∀ d ∈ p'.sentReliableCommands, d.isTried = true :=
    fun d hd => h.sent d (ha.sent d hd)
  have hnum : ∀ d ∈ p'.reliable, d.channelID.toNat = i →
      d.reliableSequenceNumber = UInt16.ofNat d.serial ∧ d.packet.isSome = true := by
    intro d hd
    refine h.numbers d ?_
    rw [ha.before]
    rw [ha.after] at hd
    simp only [List.mem_append, List.mem_cons] at *
    tauto
  have hfresh : freshOn i p'.reliable = freshOn i p.reliable := by
    rw [ha.before, ha.after, freshOn_append, freshOn_append, freshOn_cons, htried, Bool.not_true,
      Bool.and_false]
    rfl
  have hch := (congrFun ha.channels i).trans (freeWindow_channel p number h.channel)
  by_cases hi : channelID.toNat = i
  · have hon : c.onChannel i = true := decide_eq_true (by rw [hchannel]; exact hi)
    have hc : c ∈ p.reliable := by
      rw [ha.before]
      exact List.mem_append_right _ List.mem_cons_self
    have hserial := (window_of_number (h.numbers c hc (by rw [hchannel]; exact hi)).1).1
    rw [if_pos hi] at hch
    obtain ⟨hs, hcounter⟩ := free_same (p.channels i) (number.toNat / 4096)
    refine ⟨ha.channelCount ▸ h.channel, ha.channelCount ▸ h.channels, hnum, hsent, ?_, ?_, ?_, ?_⟩
    · have hwindow : number.toNat / 4096 = c.serial / 4096 % 16 := by
        rw [← hserial, ← hnumber]
        rfl
      rw [hch, hwindow, ha.after]
      refine Flight.free (h.flight.perm ?_)
      rw [ha.before, triedOn_append, triedOn_append, triedOn_cons, hon, htried]
      exact List.perm_middle
    · rw [hch, hs, hfresh]
      exact h.fresh
    · rw [hch, hs]
      exact h.base_le
    · rw [hch, hs, hcounter]
      exact h.counter
  · have hoff : c.onChannel i = false := decide_eq_false (by rw [hchannel]; exact hi)
    rw [if_neg hi] at hch
    refine h.transfer ha.channelCount hch hnum hsent ?_ hfresh
    rw [ha.before, ha.after, triedOn_append, triedOn_append, triedOn_cons, hoff]
    exact List.Perm.refl _

theorem remove_sound {i base : Nat} {p : Outbound} (h : Sound i base p) (number : UInt16)
    (channelID : UInt8) :
    Sound i base (protocolRemoveSentReliableCommand p number channelID).1 := by
  rcases remove_cases p number channelID with he | ⟨c, as, bs, ha⟩
  · rw [he]
    exact h
  · exact ha.sound h

end Transport
