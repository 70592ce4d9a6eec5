import GDNet.Transport.Effects
import GDNet.ENet.Peer
import Mathlib.Data.Finset.Card
import Mathlib.Data.Finset.Range

/-!
# Packets in pieces

`Parcel` is a packet as `enet_peer_send` queues it: whole, or in pieces of one
length of which the last may be shorter.  `Parcel.Fits` is what a receiver knows of
it after some of its fragments: the bits that are set, and the data in their places.
-/

namespace Transport
open ENet (Packet ProtocolCommand fragmentPieces)

structure Parcel where
  data : List UInt8
  pieceLength : Nat
  pieceLength_pos : 0 < pieceLength

namespace Parcel

def fragmented (p : Parcel) : Bool := decide (p.pieceLength < p.data.length)

/-- The number of its commands, each with a number of its own. -/
def count (p : Parcel) : Nat :=
  if p.fragmented then (p.data.length + p.pieceLength - 1) / p.pieceLength else 1

def piece (p : Parcel) (i : Nat) : List UInt8 :=
  (p.data.drop (i * p.pieceLength)).take p.pieceLength

/-- The numbers in the command of a fragment. -/
def fragment (p : Parcel) (i : Nat) : Fragment :=
  { fragmentCount := p.count
    fragmentNumber := i
    totalLength := p.data.length
    fragmentOffset := i * p.pieceLength }

variable {p : Parcel} {i k : Nat}

theorem fragmented_iff : p.fragmented = true ↔ p.pieceLength < p.data.length := by
  rw [fragmented, decide_eq_true_eq]

theorem count_of_whole (h : p.fragmented = false) : p.count = 1 := by
  rw [count, h]
  rfl

theorem lt_count_iff (h : p.fragmented = true) :
    i < p.count ↔ i * p.pieceLength < p.data.length := by
  have hpos := p.pieceLength_pos
  have hlen := fragmented_iff.mp h
  rw [count, if_pos h, Nat.lt_iff_add_one_le, Nat.le_div_iff_mul_le hpos, Nat.add_mul, Nat.one_mul]
  omega

theorem div_lt_count (h : p.fragmented = true) (hk : k < p.data.length) :
    k / p.pieceLength < p.count := by
  rw [lt_count_iff h]
  have := Nat.div_mul_le_self k p.pieceLength
  omega

theorem one_lt_count (h : p.fragmented = true) : 1 < p.count := by
  rw [lt_count_iff h, Nat.one_mul]
  exact fragmented_iff.mp h

theorem count_pos (p : Parcel) : 0 < p.count := by
  cases h : p.fragmented with
  | false => rw [count_of_whole h]; exact Nat.one_pos
  | true => exact Nat.lt_of_succ_lt (one_lt_count h)

theorem piece_length (p : Parcel) (i : Nat) :
    (p.piece i).length = min p.pieceLength (p.data.length - i * p.pieceLength) := by
  rw [piece, List.length_take, List.length_drop]

/-- A byte of the piece is the byte of the packet in its place. -/
theorem piece_getElem? (hk : k / p.pieceLength = i) :
    (p.piece i)[k - i * p.pieceLength]? = p.data[k]? := by
  have hpos := p.pieceLength_pos
  have hdiv := Nat.div_add_mod k p.pieceLength
  have hmod := Nat.mod_lt k hpos
  rw [hk, Nat.mul_comm] at hdiv
  rw [piece, List.getElem?_take_of_lt (by omega), List.getElem?_drop]
  congr 1
  omega

/-- The pieces of the sender's loop are those of the parcel. -/
theorem fragmentPieces_eq (h : p.fragmented = true) (n fuel : Nat)
    (hf : p.data.length ≤ n * p.pieceLength + fuel) :
    fragmentPieces p.data.length p.pieceLength fuel (n * p.pieceLength) =
      (List.range' n (p.count - n)).map fun i => (i * p.pieceLength, (p.piece i).length) := by
  have hpos := p.pieceLength_pos
  induction fuel generalizing n with
  | zero =>
    have hn : ¬n < p.count := by
      rw [lt_count_iff h]
      omega
    rw [show p.count - n = 0 by omega]
    rfl
  | succ fuel ih =>
    unfold fragmentPieces
    by_cases hlt : n * p.pieceLength < p.data.length
    · have hn := (lt_count_iff h).mpr hlt
      rw [if_pos hlt, show p.count - n = (p.count - (n + 1)) + 1 by omega, List.range'_succ,
        List.map_cons, piece_length]
      dsimp only
      by_cases hlast : p.pieceLength ≤ p.data.length - n * p.pieceLength
      · rw [Nat.min_eq_left hlast]
        have hnext : n * p.pieceLength + p.pieceLength = (n + 1) * p.pieceLength := by
          rw [Nat.add_mul, Nat.one_mul]
        rw [hnext, ih (n + 1) (by rw [Nat.add_mul, Nat.one_mul]; omega)]
      · rw [Nat.min_eq_right (by omega)]
        have hdone : ¬n + 1 < p.count := by
          rw [lt_count_iff h, Nat.add_mul, Nat.one_mul]
          omega
        rw [show p.count - (n + 1) = 0 by omega]
        have hend : n * p.pieceLength + (p.data.length - n * p.pieceLength) = p.data.length := by
          omega
        rw [hend]
        congr 1
        cases fuel with
        | zero => rfl
        | succ fuel =>
          unfold fragmentPieces
          rw [if_neg (Nat.lt_irrefl _)]
          rfl
    · have hn : ¬n < p.count := by
        rw [lt_count_iff h]
        exact hlt
      rw [if_neg hlt, show p.count - n = 0 by omega]
      rfl

/-! ## What a receiver has of a parcel -/

/-- The waiting command holds this parcel as far as it arrived. -/
structure Holds (p : Parcel) (e : IncomingCommand) : Prop where
  fragmentCount : e.fragmentCount = if p.fragmented then p.count else 0
  remaining : e.fragmentsRemaining + e.fragments.card = e.fragmentCount
  fragments : ∀ i ∈ e.fragments, i < p.count
  length : e.packet.data.length = p.data.length
  whole : p.fragmented = false → e.packet.data = p.data
  pieces : ∀ k, k / p.pieceLength ∈ e.fragments → e.packet.data[k]? = p.data[k]?

/-- The command waits for nothing. -/
theorem Holds.complete_iff {e : IncomingCommand} (h : p.Holds e) :
    e.fragmentsRemaining = 0 ↔ p.fragmented = true → ∀ i, i < p.count → i ∈ e.fragments := by
  have hcount := h.fragmentCount
  have hrem := h.remaining
  have hsub : e.fragments ⊆ Finset.range p.count := fun i hi =>
    Finset.mem_range.mpr (h.fragments i hi)
  cases hf : p.fragmented with
  | false =>
    rw [hf] at hcount
    simp only [Bool.false_eq_true, if_false] at hcount
    constructor
    · intro _ hc
      cases hc
    · intro _
      omega
  | true =>
    rw [hf, if_pos rfl] at hcount
    constructor
    · intro hz _ i hi
      have hcard : (Finset.range p.count).card ≤ e.fragments.card := by
        rw [Finset.card_range]
        omega
      rw [Finset.eq_of_subset_of_card_le hsub hcard]
      exact Finset.mem_range.mpr hi
    · intro hall
      have heq : e.fragments = Finset.range p.count :=
        Finset.Subset.antisymm hsub fun i hi => hall rfl i (Finset.mem_range.mp hi)
      rw [heq, Finset.card_range] at hrem
      omega

/-- A complete command has the data that was sent. -/
theorem Holds.data {e : IncomingCommand} (h : p.Holds e) (hz : e.fragmentsRemaining = 0) :
    e.packet.data = p.data := by
  cases hf : p.fragmented with
  | false => exact h.whole hf
  | true =>
    refine List.ext_getElem? fun k => ?_
    by_cases hk : k < p.data.length
    · exact h.pieces k (h.complete_iff.mp hz hf _ (div_lt_count hf hk))
    · rw [List.getElem?_eq_none (by rw [h.length]; omega), List.getElem?_eq_none (by omega)]

/-- The new number of the channel is that of the last command of the packet. -/
theorem Holds.advance {e : IncomingCommand} (h : p.Holds e) {n : Nat}
    (he : e.reliableSequenceNumber = UInt16.ofNat (n + 1)) :
    (if e.fragmentCount > 0 then e.reliableSequenceNumber + UInt16.ofNat (e.fragmentCount - 1)
      else e.reliableSequenceNumber) = UInt16.ofNat (n + p.count) := by
  have hpos := p.count_pos
  rw [h.fragmentCount, he]
  cases hf : p.fragmented with
  | false =>
    rw [count_of_whole hf]
    rfl
  | true =>
    simp only [if_true]
    rw [if_pos hpos, ← UInt16.ofNat_add]
    congr 1
    omega

theorem getElem?_writeAt (data bytes : List UInt8) (offset k : Nat)
    (h : offset + bytes.length ≤ data.length) :
    (writeAt data offset bytes)[k]? =
      if offset ≤ k ∧ k < offset + bytes.length then bytes[k - offset]? else data[k]? := by
  have htake : (data.take offset).length = offset := List.length_take_of_le (by omega)
  unfold writeAt
  rw [List.append_assoc]
  by_cases h₁ : k < offset
  · rw [List.getElem?_append_left (by omega), List.getElem?_take_of_lt h₁, if_neg (by omega)]
  · rw [List.getElem?_append_right (by omega), htake]
    by_cases h₂ : k < offset + bytes.length
    · rw [List.getElem?_append_left (by omega), if_pos (by omega)]
    · rw [List.getElem?_append_right (by omega), List.getElem?_drop, if_neg (by omega)]
      congr 1
      omega

theorem length_writeAt (data bytes : List UInt8) (offset : Nat)
    (h : offset + bytes.length ≤ data.length) :
    (writeAt data offset bytes).length = data.length := by
  unfold writeAt
  rw [List.length_append, List.length_append, List.length_drop, List.length_take_of_le (by omega)]
  omega

/-- A fragment that arrives is kept. -/
theorem Holds.store {e : IncomingCommand} (h : p.Holds e) (hf : p.fragmented = true)
    (hi : i < p.count) (hnew : i ∉ e.fragments) :
    p.Holds (e.store (p.fragment i) (p.piece i)) := by
  have hoff := (lt_count_iff hf).mp hi
  have hpl := piece_length p i
  have hlen := h.length
  have hcount := h.fragmentCount
  have hroom : i * p.pieceLength + (p.piece i).length ≤ e.packet.data.length := by omega
  have hdata : (e.store (p.fragment i) (p.piece i)).packet.data =
      writeAt e.packet.data (i * p.pieceLength) (p.piece i) := by
    show writeAt e.packet.data (i * p.pieceLength) (if i * p.pieceLength + (p.piece i).length >
      e.packet.data.length then _ else _) = _
    rw [if_neg (by omega)]
  have hcard : (insert i e.fragments).card = e.fragments.card + 1 :=
    Finset.card_insert_of_notMem hnew
  have hsub : e.fragments.card < p.count := by
    have hss : insert i e.fragments ⊆ Finset.range p.count := by
      intro j hj
      rcases Finset.mem_insert.mp hj with rfl | hj
      · exact Finset.mem_range.mpr hi
      · exact Finset.mem_range.mpr (h.fragments j hj)
    have := Finset.card_le_card hss
    rw [hcard, Finset.card_range] at this
    omega
  have hrem := h.remaining
  rw [hf, if_pos rfl] at hcount
  refine ⟨h.fragmentCount, ?_, ?_, ?_, ?_, ?_⟩
  · show e.fragmentsRemaining - 1 + (insert i e.fragments).card = e.fragmentCount
    omega
  · intro j hj
    rcases Finset.mem_insert.mp hj with rfl | hj
    · exact hi
    · exact h.fragments j hj
  · rw [hdata, length_writeAt _ _ _ hroom, hlen]
  · intro hw
    rw [hw] at hf
    cases hf
  · intro k hk
    rw [hdata, getElem?_writeAt _ _ _ _ hroom]
    have hpos := p.pieceLength_pos
    have hdiv := Nat.div_add_mod k p.pieceLength
    have hmod := Nat.mod_lt k hpos
    by_cases hki : k / p.pieceLength = i
    · rw [hki, Nat.mul_comm] at hdiv
      split
      · exact piece_getElem? hki
      · next hout =>
        have hend : p.data.length ≤ k := by omega
        rw [List.getElem?_eq_none (by omega), List.getElem?_eq_none hend]
    · have hother : k / p.pieceLength ∈ e.fragments := (Finset.mem_insert.mp hk).resolve_left hki
      rw [if_neg, h.pieces k hother]
      rintro ⟨hlo, hhi⟩
      apply hki
      have h₁ : i * p.pieceLength + p.pieceLength = (i + 1) * p.pieceLength := by
        rw [Nat.add_mul, Nat.one_mul]
      exact Nat.div_eq_of_lt_le hlo (by omega)

theorem Holds.released {e : IncomingCommand} (h : p.Holds e) : p.Holds { e with held := false } :=
  ⟨h.fragmentCount, h.remaining, h.fragments, h.length, h.whole, h.pieces⟩

/-- A whole packet that is queued. -/
theorem holds_whole (hf : p.fragmented = false) (h : CommandHeader) (unreliable : UInt16)
    (flags : UInt32) : p.Holds (queuedCommand h unreliable flags 0 p.data) := by
  refine ⟨?_, rfl, ?_, rfl, fun _ => rfl, fun _ _ => rfl⟩
  · rw [hf]
    rfl
  · intro i hi
    exact absurd hi (Finset.notMem_empty i)

/-- A packet of which nothing arrived yet. -/
theorem holds_opened (hf : p.fragmented = true) (h : CommandHeader) (unreliable : UInt16)
    (flags : UInt32) (memory : List UInt8) (hm : memory.length = p.data.length) :
    p.Holds (queuedCommand h unreliable flags p.count memory) := by
  refine ⟨?_, rfl, ?_, hm, ?_, ?_⟩
  · rw [hf]
    rfl
  · intro i hi
    exact absurd hi (Finset.notMem_empty i)
  · intro hw
    rw [hf] at hw
    cases hw
  · intro k hk
    exact absurd hk (Finset.notMem_empty _)

/-- The command is one of the parcel sent reliably. -/
structure Fits (p : Parcel) (e : IncomingCommand) : Prop extends Holds p e where
  command : e.command = if p.fragmented then .sendFragment else .sendReliable

theorem Fits.store {e : IncomingCommand} (h : p.Fits e) (hf : p.fragmented = true)
    (hi : i < p.count) (hnew : i ∉ e.fragments) :
    p.Fits (e.store (p.fragment i) (p.piece i)) := ⟨h.toHolds.store hf hi hnew, h.command⟩

theorem Fits.released {e : IncomingCommand} (h : p.Fits e) : p.Fits { e with held := false } :=
  ⟨h.toHolds.released, h.command⟩

/-- A whole packet fits when it is queued. -/
theorem fits_whole (hf : p.fragmented = false) (h : CommandHeader) (hc : h.command = .sendReliable)
    (unreliable : UInt16) (flags : UInt32) :
    p.Fits (queuedCommand h unreliable flags 0 p.data) := by
  refine ⟨holds_whole hf h unreliable flags, ?_⟩
  rw [hf]
  exact hc

theorem fits_opened (hf : p.fragmented = true) (h : CommandHeader) (hc : h.command = .sendFragment)
    (unreliable : UInt16) (flags : UInt32) (memory : List UInt8)
    (hm : memory.length = p.data.length) :
    p.Fits (queuedCommand h unreliable flags p.count memory) := by
  refine ⟨holds_opened hf h unreliable flags memory hm, ?_⟩
  rw [hf]
  exact hc

end Parcel
end Transport
