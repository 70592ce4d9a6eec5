import GDNet.Transport.Reliable
import GDNet.Transport.Unreliable
import Mathlib.Data.List.Perm.Subperm
import Mathlib.Data.List.Sort

/-!
# The sequence of a channel

What is sent on a channel and not unsequenced keeps its order, reliable or not.  The
place of a packet is the last reliable number up to it, not wrapped, and its number
among the unreliable packets behind that.  A receiver hands out packets of ever later
places; `Lingers` is what it knows of the unreliable ones that wait.
-/

namespace Transport
open ENet (Packet ProtocolCommand)
open Search Channel

/-- A packet of the sequence. -/
structure Entry where
  reliably : Bool
  parcel : Parcel

namespace Entry

/-- The place of a packet behind the place `s`. -/
def after (s : Nat × Nat) (e : Entry) : Nat × Nat :=
  if e.reliably then (s.1 + e.parcel.count, 0) else (s.1, s.2 + 1)

/-- What can be seen of a packet that is handed over. -/
def said (e : Entry) : Bool × List UInt8 := (e.reliably, e.parcel.data)

end Entry

/-- The packets with their places. -/
def placed : Nat × Nat → List Entry → List ((Nat × Nat) × Entry)
  | _, [] => []
  | s, e :: es => (e.after s, e) :: placed (e.after s) es

/-- The place of the last one. -/
def ending : Nat × Nat → List Entry → Nat × Nat
  | s, [] => s
  | s, e :: es => ending (e.after s) es

/-- The parcels of the packets that are sent reliably. -/
def reliables (es : List Entry) : List Parcel :=
  (es.filter fun e => e.reliably).map fun e => e.parcel

/-! ## Places -/

def earlier (a b : Nat × Nat) : Prop := a.1 < b.1 ∨ a.1 = b.1 ∧ a.2 < b.2

def upto (a b : Nat × Nat) : Prop := a.1 < b.1 ∨ a.1 = b.1 ∧ a.2 ≤ b.2

theorem earlier.trans {a b c : Nat × Nat} (h : earlier a b) (h' : earlier b c) : earlier a c := by
  unfold earlier at *
  omega

theorem upto.earlier {a b c : Nat × Nat} (h : upto a b) (h' : earlier b c) : earlier a c := by
  unfold upto Transport.earlier at *
  omega

theorem upto.trans {a b c : Nat × Nat} (h : upto a b) (h' : upto b c) : upto a c := by
  unfold upto at *
  omega

theorem upto.refl (a : Nat × Nat) : upto a a := .inr ⟨rfl, Nat.le_refl _⟩

theorem earlier.irrefl {a : Nat × Nat} : ¬earlier a a := by
  unfold earlier
  omega

theorem earlier_after (s : Nat × Nat) (e : Entry) : earlier s (e.after s) := by
  have hpos := e.parcel.count_pos
  unfold earlier Entry.after
  split
  · exact .inl (by omega)
  · exact .inr ⟨rfl, Nat.lt_succ_self _⟩

theorem placed_later {s : Nat × Nat} {es : List Entry} {o : (Nat × Nat) × Entry}
    (h : o ∈ placed s es) : earlier s o.1 := by
  induction es generalizing s with
  | nil => cases h
  | cons e es ih =>
    rcases List.mem_cons.mp h with rfl | h
    · exact earlier_after s e
    · exact (earlier_after s e).trans (ih h)

theorem placed_ordered (s : Nat × Nat) (es : List Entry) :
    (placed s es).Pairwise fun o o' => earlier o.1 o'.1 := by
  induction es generalizing s with
  | nil => exact List.Pairwise.nil
  | cons e es ih => exact List.pairwise_cons.mpr ⟨fun o ho => placed_later ho, ih _⟩

theorem placed_append (s : Nat × Nat) (es fs : List Entry) :
    placed s (es ++ fs) = placed s es ++ placed (ending s es) fs := by
  induction es generalizing s with
  | nil => rfl
  | cons e es ih => rw [List.cons_append, placed, placed, ih, List.cons_append, ending]

theorem placed_entries (s : Nat × Nat) (es : List Entry) :
    (placed s es).map (fun o => o.2) = es := by
  induction es generalizing s with
  | nil => rfl
  | cons e es ih => rw [placed, List.map_cons, ih]

theorem ending_append (s : Nat × Nat) (es fs : List Entry) :
    ending s (es ++ fs) = ending (ending s es) fs := by
  induction es generalizing s with
  | nil => rfl
  | cons e es ih => exact ih _

theorem reliables_append (es fs : List Entry) :
    reliables (es ++ fs) = reliables es ++ reliables fs := by
  unfold reliables
  rw [List.filter_append, List.map_append]

/-- The first number of a place counts the reliable ones. -/
theorem ending_reliable (s : Nat × Nat) (es : List Entry) :
    (ending s es).1 = s.1 + total (reliables es) := by
  induction es generalizing s with
  | nil => rfl
  | cons e es ih =>
    rw [ending, ih]
    unfold Entry.after reliables
    rw [List.filter_cons]
    split
    · rw [List.map_cons, total, Nat.add_assoc]
    · rfl

/-- A place is that of one packet only. -/
theorem placed_unique {s p : Nat × Nat} {es : List Entry} {e e' : Entry}
    (h : (p, e) ∈ placed s es) (h' : (p, e') ∈ placed s es) : e = e' := by
  induction es generalizing s with
  | nil => cases h
  | cons d es ih =>
    rcases List.mem_cons.mp h with heq | h
    · rcases List.mem_cons.mp h' with heq' | h'
      · cases heq
        cases heq'
        rfl
      · cases heq
        exact absurd (placed_later h') earlier.irrefl
    · rcases List.mem_cons.mp h' with heq' | h'
      · cases heq'
        exact absurd (placed_later h) earlier.irrefl
      · exact ih h h'

/-- Packets of places in order are some of the sequence, in its order. -/
theorem said_sublist {s : Nat × Nat} {es : List Entry} {outs : List ((Nat × Nat) × Entry)}
    (ho : outs.Pairwise fun o o' => earlier o.1 o'.1) (hm : ∀ o ∈ outs, o ∈ placed s es) :
    (outs.map fun o => o.2.said).Sublist (es.map Entry.said) := by
  have : Std.Antisymm fun o o' : (Nat × Nat) × Entry => earlier o.1 o'.1 :=
    ⟨fun _ _ h h' => absurd (h.trans h') earlier.irrefl⟩
  have hnodup : outs.Nodup := ho.imp fun {a b} h he => by
    rw [he] at h
    exact earlier.irrefl h
  have hsub : outs.Sublist (placed s es) :=
    List.sublist_of_subperm_of_pairwise (List.subperm_of_subset hnodup hm) ho (placed_ordered s es)
  calc (outs.map fun o => o.2.said).Sublist ((placed s es).map fun o => o.2.said) := hsub.map _
    _ = ((placed s es).map fun o => o.2).map Entry.said := by
      rw [List.map_map]
      rfl
    _ = es.map Entry.said := by rw [placed_entries]

/-- The reliable parcels with the places where they end. -/
def ends (n : Nat) (ps : List Parcel) : List ((Nat × Nat) × Entry) :=
  (numbered n ps).map fun s => ((s.1 + s.2.count - 1, 0), ⟨true, s.2⟩)

theorem ends_said (n : Nat) (ps : List Parcel) :
    (ends n ps).map (fun o => o.2.said) = ps.map fun p => (true, p.data) := by
  induction ps generalizing n with
  | nil => rfl
  | cons p ps ih =>
    have htail := ih (n + p.count)
    unfold ends at htail ⊢
    rw [numbered, List.map_cons, List.map_cons, htail]
    rfl

theorem mem_ends {n : Nat} {ps : List Parcel} {o : (Nat × Nat) × Entry} (h : o ∈ ends n ps) :
    ∃ s p, (s, p) ∈ numbered n ps ∧ o = ((s + p.count - 1, 0), ⟨true, p⟩) := by
  obtain ⟨⟨s, p⟩, hm, rfl⟩ := List.mem_map.mp h
  exact ⟨s, p, hm, rfl⟩

theorem ends_bounds {n : Nat} {ps : List Parcel} {o : (Nat × Nat) × Entry} (h : o ∈ ends n ps) :
    n < o.1.1 ∧ o.1.1 ≤ n + total ps ∧ o.1.2 = 0 := by
  obtain ⟨s, p, hm, rfl⟩ := mem_ends h
  have hb := numbered_bounds hm
  have hp := p.count_pos
  refine ⟨?_, ?_, rfl⟩
  · show n < s + p.count - 1
    omega
  · show s + p.count - 1 ≤ n + total ps
    omega

theorem ends_ordered (n : Nat) (ps : List Parcel) :
    (ends n ps).Pairwise fun o o' => earlier o.1 o'.1 := by
  induction ps generalizing n with
  | nil => exact List.Pairwise.nil
  | cons p ps ih =>
    unfold ends
    rw [numbered, List.map_cons]
    refine List.pairwise_cons.mpr ⟨fun o ho => ?_, ih (n + p.count)⟩
    have hb := ends_bounds ho
    have hp := p.count_pos
    refine .inl ?_
    show n + 1 + p.count - 1 < o.1.1
    omega

/-- A parcel that is sent reliably has its place in the sequence. -/
theorem placed_reliable {s : Nat × Nat} {es : List Entry} {m : Nat} {p : Parcel}
    (h : (m, p) ∈ numbered s.1 (reliables es)) :
    ((m + p.count - 1, 0), ⟨true, p⟩) ∈ placed s es := by
  induction es generalizing s with
  | nil => cases h
  | cons e es ih =>
    unfold reliables at h
    rw [List.filter_cons] at h
    rw [placed]
    by_cases he : e.reliably = true
    · rw [if_pos he, List.map_cons, numbered] at h
      rcases List.mem_cons.mp h with heq | h
      · obtain ⟨rfl, rfl⟩ := Prod.mk.inj heq
        refine List.mem_cons.mpr (.inl ?_)
        obtain ⟨reliably, parcel⟩ := e
        subst he
        have hend : s.1 + 1 + parcel.count - 1 = s.1 + parcel.count := by omega
        rw [hend]
        rfl
      · refine List.mem_cons_of_mem _ (ih ?_)
        unfold Entry.after
        rw [if_pos he]
        exact h
    · rw [if_neg he] at h
      refine List.mem_cons_of_mem _ (ih ?_)
      unfold Entry.after
      rw [if_neg he]
      exact h

/-! ## What a receiver makes of an unreliable command -/

/-- The place of a command that is not behind the number `R`. -/
def spot (R : Nat) (e : IncomingCommand) : Nat × Nat :=
  (R + distance (UInt16.ofNat R) e, e.unreliableSequenceNumber.toNat)

/-- Seen from `R`, the command has the place `p`. -/
structure Follows (R : Nat) (p : Nat × Nat) (e : IncomingCommand) : Prop where
  number : e.reliableSequenceNumber = UInt16.ofNat p.1
  unreliable : e.unreliableSequenceNumber.toNat = p.2
  ahead : R ≤ p.1
  near : p.1 / 4096 < R / 4096 + 7

theorem Follows.spot {R : Nat} {p : Nat × Nat} {e : IncomingCommand} (h : Follows R p e) :
    spot R e = p := by
  have hahead := h.ahead
  have hnear := h.near
  have hd : distance (UInt16.ofNat R) e = p.1 - R := by
    rw [distance, h.number, toNat_ofNat, toNat_ofNat]
    exact Serial.offset_of_le hahead (by omega)
  refine Prod.ext ?_ h.unreliable
  show R + distance (UInt16.ofNat R) e = p.1
  omega

/-- The kind of the commands of a parcel that is not sent reliably. -/
def Parcel.unreliableCommand (q : Parcel) : ProtocolCommand :=
  if q.fragmented then .sendUnreliableFragment else .sendUnreliable

theorem Parcel.unreliableCommand_ne (q : Parcel) : q.unreliableCommand ≠ .sendUnsequenced := by
  unfold unreliableCommand
  split <;> exact fun h => by cases h

/-- What the receiver does with a command when its number is `T`. -/
theorem Follows.fate {R T : Nat} {p : Nat × Nat} {e : IncomingCommand} (h : Follows R p e)
    (he : e.command ≠ .sendUnsequenced) (hR : R ≤ T) (hT : T / 4096 ≤ R / 4096 + 9) :
    e.fate (UInt16.ofNat T) =
      if p.1 < T then .behind
      else if p.1 = T then if e.fragmentsRemaining = 0 then .ready else .partly
      else .ahead := by
  have hahead := h.ahead
  have hnear := h.near
  unfold IncomingCommand.fate
  rw [if_neg he, h.number]
  by_cases heq : p.1 = T
  · rw [heq, if_pos rfl, if_neg (Nat.lt_irrefl T), if_pos rfl]
  · have hne : UInt16.ofNat p.1 ≠ UInt16.ofNat T := by
      intro hc
      have hn := congrArg UInt16.toNat hc
      rw [toNat_ofNat, toNat_ofNat] at hn
      omega
    rw [if_neg hne]
    by_cases hlt : p.1 < T
    · have hw : ¬inWindow (UInt16.ofNat p.1) (UInt16.ofNat T) = true := fun hc => by
        have := ahead_of_inWindow hc (by omega) (by omega) hne
        omega
      rw [if_pos hlt, if_neg hw]
    · have hw := inWindow_of_ahead (R := T) (s := p.1) (by omega) (by omega)
      rw [if_neg hlt, if_neg heq, if_pos hw]

/-- The unreliable packets that wait: they are some of the sequence, in its order, and
none is behind `R`. -/
structure Lingers (R : Nat) (places : List ((Nat × Nat) × Entry)) (cs : List IncomingCommand) :
    Prop where
  ordered : cs.Pairwise fun e e' => earlier (spot R e) (spot R e')
  follows : ∀ e ∈ cs, ∃ p q, (p, ⟨false, q⟩) ∈ places ∧ Follows R p e ∧ q.Holds e ∧
    e.command = q.unreliableCommand

/-- A channel of which the last packet came out at the number `T`. -/
structure Quiet (T : Nat) (places : List ((Nat × Nat) × Entry)) (c : Channel) : Prop where
  number : c.incomingReliableSequenceNumber = UInt16.ofNat T
  lingers : Lingers T places c.incomingUnreliableCommands
  /-- What follows the last reliable packet waits for its own fragments. -/
  partly : ∀ e ∈ c.incomingUnreliableCommands, e.reliableSequenceNumber = UInt16.ofNat T →
    e.fragmentsRemaining ≠ 0 ∧
      c.incomingUnreliableSequenceNumber.toNat < e.unreliableSequenceNumber.toNat

/-- The place of the last packet that came out. -/
def cursor (T : Nat) (c : Channel) : Nat × Nat := (T, c.incomingUnreliableSequenceNumber.toNat)

namespace Lingers

variable {R T : Nat} {places : List ((Nat × Nat) × Entry)} {cs cs' : List IncomingCommand}

theorem nil (R : Nat) (places : List ((Nat × Nat) × Entry)) : Lingers R places [] :=
  ⟨List.Pairwise.nil, fun e he => by cases he⟩

theorem sublist (h : Lingers R places cs) (hs : cs'.Sublist cs) : Lingers R places cs' :=
  ⟨h.ordered.sublist hs, fun e he => h.follows e (hs.subset he)⟩

theorem more (h : Lingers R places cs) (ps : List ((Nat × Nat) × Entry)) :
    Lingers R (places ++ ps) cs := by
  refine ⟨h.ordered, fun e he => ?_⟩
  obtain ⟨p, q, hm, hf⟩ := h.follows e he
  exact ⟨p, q, List.mem_append_left _ hm, hf⟩

/-- Seen from a later number, of which none is behind. -/
theorem onward (h : Lingers R places cs) (hR : R ≤ T)
    (hT : ∀ e ∈ cs, ∀ p, Follows R p e → T ≤ p.1) : Lingers T places cs := by
  have hdiv : R / 4096 ≤ T / 4096 := Nat.div_le_div_right hR
  have hfollows : ∀ e ∈ cs, ∃ p q, (p, ⟨false, q⟩) ∈ places ∧ Follows R p e ∧ Follows T p e ∧
      q.Holds e ∧ e.command = q.unreliableCommand := by
    intro e he
    obtain ⟨p, q, hm, hf, hq⟩ := h.follows e he
    have hnear := hf.near
    exact ⟨p, q, hm, hf, ⟨hf.number, hf.unreliable, hT e he p hf, by omega⟩, hq⟩
  refine ⟨h.ordered.imp_of_mem fun {a b} ha hb hab => ?_, fun e he => ?_⟩
  · obtain ⟨p, _, _, hp, hp', _⟩ := hfollows a ha
    obtain ⟨p', _, _, hq, hq', _⟩ := hfollows b hb
    rw [hp.spot, hq.spot] at hab
    rw [hp'.spot, hq'.spot]
    exact hab
  · obtain ⟨p, q, hm, -, hf, hq⟩ := hfollows e he
    exact ⟨p, q, hm, hf, hq⟩

end Lingers

/-! ## What comes out -/

/-- The packets of the sequence among commands. -/
def spoken (i : Nat) (es : List IncomingCommand) : List (Bool × List UInt8) :=
  (es.filter fun e => decide (e.channelID.toNat = i) && e.command != .sendUnsequenced).map
    fun e => (isReliable e.command, e.packet.data)

theorem spoken_append (i : Nat) (es es' : List IncomingCommand) :
    spoken i (es ++ es') = spoken i es ++ spoken i es' := by
  unfold spoken
  rw [List.filter_append, List.map_append]

theorem spoken_nil {i : Nat} {es : List IncomingCommand}
    (h : ∀ e ∈ es, e.channelID.toNat = i → e.command = .sendUnsequenced) : spoken i es = [] := by
  unfold spoken
  rw [List.filter_eq_nil_iff.mpr, List.map_nil]
  intro e he hc
  rw [Bool.and_eq_true, decide_eq_true_eq] at hc
  rw [h e he hc.1] at hc
  exact Bool.false_ne_true hc.2

theorem spoken_all {i : Nat} {es : List IncomingCommand} {b : Bool}
    (h : ∀ e ∈ es, e.channelID.toNat = i ∧ e.command ≠ .sendUnsequenced ∧
      isReliable e.command = b) : spoken i es = es.map fun e => (b, e.packet.data) := by
  unfold spoken
  rw [List.filter_eq_self.mpr]
  · refine List.map_congr_left fun e he => ?_
    rw [(h e he).2.2]
  · intro e he
    obtain ⟨h₁, h₂, -⟩ := h e he
    rw [decide_eq_true h₁, Bool.true_and, bne_iff_ne]
    exact h₂

/-- What a handler made of a channel at `T`, which is at `T'` now: the packets that it
dispatched are of the sequence and later than the last one before. -/
structure Speaks (i T T' : Nat) (places : List ((Nat × Nat) × Entry)) (c : Channel)
    (r : Channel × List IncomingCommand) : Prop where
  quiet : Quiet T' places r.1
  heard : ∃ outs : List ((Nat × Nat) × Entry), spoken i r.2 = outs.map (fun o => o.2.said) ∧
    outs.Pairwise (fun o o' => earlier o.1 o'.1) ∧
    ∀ o ∈ outs, o ∈ places ∧ earlier (cursor T c) o.1 ∧ upto o.1 (cursor T' r.1)
  onward : upto (cursor T c) (cursor T' r.1)

theorem Speaks.silent {i T : Nat} {places : List ((Nat × Nat) × Entry)} {c c' : Channel}
    {es : List IncomingCommand} (h : Quiet T places c')
    (hu : c'.incomingUnreliableSequenceNumber = c.incomingUnreliableSequenceNumber)
    (hs : spoken i es = []) : Speaks i T T places c (c', es) := by
  refine ⟨h, ⟨[], hs, List.Pairwise.nil, fun o ho => by cases ho⟩, ?_⟩
  unfold cursor
  rw [hu]
  exact .refl _

section
variable {places : List ((Nat × Nat) × Entry)} {T : Nat} {u : UInt16} {rs : List IncomingCommand}

theorem reached_cons {u : UInt16} {e : IncomingCommand} {rs : List IncomingCommand}
    (h : e.command ≠ .sendUnsequenced) :
    reached u (e :: rs) = reached e.unreliableSequenceNumber rs := by
  rw [reached, if_neg h]

/-- The last number is one of those that went out, and not less than any of them. -/
theorem reached_spec (hs : ∀ e ∈ rs, e.command ≠ .sendUnsequenced)
    (ho : rs.Pairwise fun e e' =>
      e.unreliableSequenceNumber.toNat < e'.unreliableSequenceNumber.toNat)
    (hu : ∀ e ∈ rs, u.toNat < e.unreliableSequenceNumber.toNat) :
    (reached u rs = u ∨ ∃ e ∈ rs, reached u rs = e.unreliableSequenceNumber) ∧
      u.toNat ≤ (reached u rs).toNat ∧
      ∀ e ∈ rs, e.unreliableSequenceNumber.toNat ≤ (reached u rs).toNat := by
  induction rs generalizing u with
  | nil => exact ⟨.inl rfl, Nat.le_refl _, fun e he => by cases he⟩
  | cons e rs ih =>
    obtain ⟨hse, hs⟩ := List.forall_mem_cons.mp hs
    obtain ⟨hoe, ho⟩ := List.pairwise_cons.mp ho
    obtain ⟨hlast, hle, hall⟩ := ih (u := e.unreliableSequenceNumber) hs ho hoe
    have hue := hu e List.mem_cons_self
    rw [reached_cons hse]
    refine ⟨.inr ?_, by omega, ?_⟩
    · rcases hlast with hlast | ⟨e', he', hlast⟩
      · exact ⟨e, List.mem_cons_self, hlast⟩
      · exact ⟨e', List.mem_cons_of_mem e he', hlast⟩
    · intro e' he'
      rcases List.mem_cons.mp he' with rfl | he'
      · exact hle
      · exact hall e' he'

/-- The packets of commands in order. -/
theorem exists_outs (h : ∀ e ∈ rs, ∃ q : Parcel,
      ((T, e.unreliableSequenceNumber.toNat), ⟨false, q⟩) ∈ places ∧ e.packet.data = q.data)
    (ho : rs.Pairwise fun e e' =>
      e.unreliableSequenceNumber.toNat < e'.unreliableSequenceNumber.toNat) :
    ∃ outs : List ((Nat × Nat) × Entry),
      rs.map (fun e => (false, e.packet.data)) = outs.map (fun o => o.2.said) ∧
      outs.Pairwise (fun o o' => earlier o.1 o'.1) ∧
      ∀ o ∈ outs, o ∈ places ∧ ∃ e ∈ rs, o.1 = (T, e.unreliableSequenceNumber.toNat) := by
  induction rs with
  | nil => exact ⟨[], rfl, List.Pairwise.nil, fun o ho => by cases ho⟩
  | cons e rs ih =>
    obtain ⟨⟨q, hm, hq⟩, h⟩ := List.forall_mem_cons.mp h
    obtain ⟨hoe, ho⟩ := List.pairwise_cons.mp ho
    obtain ⟨outs, hsaid, hord, hall⟩ := ih h ho
    refine ⟨((T, e.unreliableSequenceNumber.toNat), ⟨false, q⟩) :: outs, ?_, ?_, ?_⟩
    · rw [List.map_cons, List.map_cons, hsaid, hq]
      rfl
    · refine List.pairwise_cons.mpr ⟨fun o hmem => ?_, hord⟩
      obtain ⟨-, e', he', hspot⟩ := hall o hmem
      rw [hspot]
      exact .inr ⟨rfl, hoe e' he'⟩
    · intro o hmem
      rcases List.mem_cons.mp hmem with rfl | hmem
      · exact ⟨hm, e, List.mem_cons_self, rfl⟩
      · obtain ⟨hp, e', he', hspot⟩ := hall o hmem
        exact ⟨hp, e', List.mem_cons_of_mem e he', hspot⟩

end

/-- A dispatch of unreliable commands, of which some may be behind already. -/
theorem Lingers.dispatch {i R T : Nat} {places : List ((Nat × Nat) × Entry)} {c : Channel}
    (h : Lingers R places c.incomingUnreliableCommands)
    (hn : c.incomingReliableSequenceNumber = UInt16.ofNat T) (hR : R ≤ T)
    (hT : T / 4096 ≤ R / 4096 + 9)
    (hu : ∀ e ∈ c.incomingUnreliableCommands, e.reliableSequenceNumber = UInt16.ofNat T →
      c.incomingUnreliableSequenceNumber.toNat < e.unreliableSequenceNumber.toNat)
    (hi : ∀ e ∈ c.incomingUnreliableCommands, e.channelID.toNat = i) :
    Speaks i T T places c c.dispatchUnreliable := by
  obtain ⟨cs, hcs⟩ : ∃ cs, cs = c.incomingUnreliableCommands := ⟨_, rfl⟩
  have hsplit := dispatchUnreliable_eq c
  rw [hn, ← hcs] at hsplit
  rw [← hcs] at h hu hi
  -- What each command of the list is.
  have hsequenced : ∀ e ∈ cs, e.command ≠ .sendUnsequenced := by
    intro e he
    obtain ⟨-, q, -, -, -, hk⟩ := h.follows e he
    rw [hk]
    exact q.unreliableCommand_ne
  have hfate : ∀ e ∈ cs, ∀ p, Follows R p e → e.fate (UInt16.ofNat T) =
      if p.1 < T then .behind
      else if p.1 = T then if e.fragmentsRemaining = 0 then .ready else .partly
      else .ahead := fun e he p hf => hf.fate (hsequenced e he) hR hT
  have hahead : cs.Pairwise fun a b =>
      a.fate (UInt16.ofNat T) = .ahead → b.fate (UInt16.ofNat T) = .ahead := by
    refine h.ordered.imp_of_mem fun {a b} ha hb hab hfa => ?_
    obtain ⟨p, -, -, hp, -⟩ := h.follows a ha
    obtain ⟨q, -, -, hq, -⟩ := h.follows b hb
    rw [hp.spot, hq.spot] at hab
    rw [hfate a ha p hp] at hfa
    rw [hfate b hb q hq]
    unfold earlier at hab
    split at hfa
    · cases hfa
    · split at hfa
      · split at hfa <;> cases hfa
      · rw [if_neg (by omega), if_neg (by omega)]
  have hstays : (settle (UInt16.ofNat T) [] cs).Sublist cs := settle_sublist _ [] cs
  have hgoes : (ready (UInt16.ofNat T) cs).Sublist cs := ready_sublist _ cs
  -- What goes out follows the reliable number `T`.
  have hready : ∀ e ∈ ready (UInt16.ofNat T) cs, ∃ q : Parcel,
      ((T, e.unreliableSequenceNumber.toNat), ⟨false, q⟩) ∈ places ∧ e.packet.data = q.data ∧
      isReliable e.command = false ∧ spot R e = (T, e.unreliableSequenceNumber.toNat) ∧
      c.incomingUnreliableSequenceNumber.toNat < e.unreliableSequenceNumber.toNat := by
    intro e he
    have hmem := hgoes.subset he
    obtain ⟨p, q, hm, hf, hq, hk⟩ := h.follows e hmem
    have hfe := mem_ready he
    rw [hfate e hmem p hf] at hfe
    split at hfe
    · cases hfe
    · split at hfe
      · next hp =>
        split at hfe
        · next hz =>
          have hspot : p = (T, e.unreliableSequenceNumber.toNat) :=
            Prod.ext hp hf.unreliable.symm
          refine ⟨q, hspot ▸ hm, hq.data hz, ?_, hf.spot.trans hspot, hu e hmem ?_⟩
          · rw [hk]
            unfold Parcel.unreliableCommand
            split <;> rfl
          · rw [hf.number, hp]
        · cases hfe
      · cases hfe
  have hrising : (ready (UInt16.ofNat T) cs).Pairwise fun e e' =>
      e.unreliableSequenceNumber.toNat < e'.unreliableSequenceNumber.toNat := by
    refine (h.ordered.sublist hgoes).imp_of_mem fun {a b} ha hb hab => ?_
    obtain ⟨-, -, -, -, hsa, -⟩ := hready a ha
    obtain ⟨-, -, -, -, hsb, -⟩ := hready b hb
    rw [hsa, hsb] at hab
    unfold earlier at hab
    simp only [Nat.lt_irrefl, true_and, false_or] at hab
    exact hab
  obtain ⟨hlast, hle, hall⟩ := reached_spec (u := c.incomingUnreliableSequenceNumber)
    (fun e he => hsequenced e (hgoes.subset he)) hrising
    fun e he => (hready e he).choose_spec.2.2.2.2
  rw [hsplit]
  refine ⟨⟨rfl, ?_, ?_⟩, ?_, .inr ⟨rfl, hle⟩⟩
  · -- What stays is not behind any more.
    refine (h.sublist hstays).onward hR fun e he p hf => ?_
    have hmem := hstays.subset he
    have hf' := (mem_settle hahead he).resolve_left List.not_mem_nil
    rw [hfate e hmem p hf] at hf'
    split at hf'
    · rcases hf' with hf' | hf' <;> cases hf'
    · next hlt => exact Nat.le_of_not_lt hlt
  · intro e he hnum
    have hmem := hstays.subset he
    obtain ⟨p, q, -, hf, -, -⟩ := h.follows e hmem
    have hnear := hf.near
    have hpast := hf.ahead
    have hp : p.1 = T := by
      have hmod := congrArg UInt16.toNat (hf.number.symm.trans hnum)
      rw [toNat_ofNat, toNat_ofNat] at hmod
      omega
    refine ⟨fun hz => ?_, ?_⟩
    · have hf' := (mem_settle hahead he).resolve_left List.not_mem_nil
      rw [hfate e hmem p hf, if_neg (by omega), if_pos hp, if_pos hz] at hf'
      rcases hf' with hf' | hf' <;> cases hf'
    · rcases hlast with hlast | ⟨e', he', hlast⟩
      · show (reached _ _).toNat < _
        rw [hlast]
        exact hu e hmem hnum
      · show (reached _ _).toNat < _
        rw [hlast]
        have hbefore := ready_before_settle [] h.ordered he' he
        obtain ⟨-, -, -, -, hs', -⟩ := hready e' he'
        rw [hs', hf.spot] at hbefore
        unfold earlier at hbefore
        have hpu := hf.unreliable
        simp only at hbefore
        omega
  · obtain ⟨outs, hsaid, hord, hout⟩ := exists_outs
      (fun e he => ⟨_, (hready e he).choose_spec.1, (hready e he).choose_spec.2.1⟩) hrising
    refine ⟨outs, ?_, hord, fun o ho => ?_⟩
    · rw [← hsaid]
      refine spoken_all fun e he => ⟨hi e (hgoes.subset he), hsequenced e (hgoes.subset he), ?_⟩
      exact (hready e he).choose_spec.2.2.1
    · obtain ⟨hm, e, he, hspot⟩ := hout o ho
      rw [hspot]
      exact ⟨hm, .inr ⟨rfl, (hready e he).choose_spec.2.2.2.2⟩, .inr ⟨rfl, hall e he⟩⟩

end Transport
