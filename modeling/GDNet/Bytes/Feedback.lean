import Mathlib.Data.List.Basic
import Mathlib.Data.BitVec

/-!
# Shift registers with feedback

A register is shifted to the right, and a one that falls out is fed back through the
taps.  The bits of a message go in at the right end, one at each shift; what is in
the register in the end is the remainder of the message.

If the leftmost place is a tap, a shift can be taken back: the leftmost bit says what
fell out.  So two messages that differ in no more places than the register has, from
the first difference to the last, leave different remainders.  Shifts are linear,
which is why a number of them can be looked up in a table.
-/

namespace Feedback

variable {w : Nat} {taps : BitVec w}

def bit (b : Bool) : BitVec w := (BitVec.ofBool b).setWidth w

def shift (taps r : BitVec w) : BitVec w :=
  if r.getLsbD 0 then (r >>> 1) ^^^ taps else r >>> 1

def shifts (taps : BitVec w) : Nat → BitVec w → BitVec w
  | 0, r => r
  | n + 1, r => shifts taps n (shift taps r)

def feed (taps r : BitVec w) (b : Bool) : BitVec w := shift taps (r ^^^ bit b)

def remainder (taps r : BitVec w) (bits : List Bool) : BitVec w := bits.foldl (feed taps) r

theorem getLsbD_bit (b : Bool) (i : Nat) :
    (bit b : BitVec w).getLsbD i = (decide (i < w) && decide (i = 0) && b) := by
  unfold bit
  rw [BitVec.getLsbD_setWidth, BitVec.getLsbD_ofBool, Bool.and_assoc]

theorem getLsbD_shift (r : BitVec w) (i : Nat) :
    (shift taps r).getLsbD i = (r.getLsbD (i + 1) ^^ (r.getLsbD 0 && taps.getLsbD i)) := by
  unfold shift
  cases h : r.getLsbD 0 <;> simp [Nat.add_comm 1 i]

theorem getLsbD_feed (r : BitVec w) (b : Bool) {i : Nat} (hi : i < w) :
    (feed taps r b).getLsbD i =
      (r.getLsbD (i + 1) ^^ ((r.getLsbD 0 ^^ b) && taps.getLsbD i)) := by
  have hw : 0 < w := by omega
  rw [feed, getLsbD_shift, BitVec.getLsbD_xor, BitVec.getLsbD_xor, getLsbD_bit, getLsbD_bit]
  simp [hw]

/-! ## Bursts -/

/-- The registers agree from the place `k` on. -/
def Agree (k : Nat) (r s : BitVec w) : Prop := ∀ i, k ≤ i → r.getLsbD i = s.getLsbD i

theorem Agree.eq {r s : BitVec w} (h : Agree 0 r s) : r = s :=
  BitVec.eq_of_getLsbD_eq fun i _ => h i (Nat.zero_le i)

theorem Agree.refl (k : Nat) (r : BitVec w) : Agree k r r := fun _ _ => rfl

/-- A shift is taken back: what fell out was the same, and one place less is known. -/
theorem Agree.feed {k : Nat} {r s : BitVec w} {b c : Bool} (htop : taps.getLsbD (w - 1) = true)
    (hk : k < w) (h : Agree k (feed taps r b) (feed taps s c)) :
    (r.getLsbD 0 ^^ b) = (s.getLsbD 0 ^^ c) ∧ Agree (k + 1) r s := by
  have hfell : (r.getLsbD 0 ^^ b) = (s.getLsbD 0 ^^ c) := by
    have htop' := h (w - 1) (by omega)
    have hsucc : w - 1 + 1 = w := by omega
    rw [getLsbD_feed r b (by omega), getLsbD_feed s c (by omega), htop, hsucc] at htop'
    simpa using htop'
  refine ⟨hfell, fun i hi => ?_⟩
  by_cases hlt : i < w
  · have hprev := h (i - 1) (by omega)
    have hsucc : i - 1 + 1 = i := by omega
    rw [getLsbD_feed r b (by omega), getLsbD_feed s c (by omega), hfell, hsucc] at hprev
    simpa using hprev
  · rw [BitVec.getLsbD_of_ge r i (by omega), BitVec.getLsbD_of_ge s i (by omega)]

theorem remainder_agree {k : Nat} {r s : BitVec w} {bits bits' : List Bool}
    (htop : taps.getLsbD (w - 1) = true) (hlen : bits.length = bits'.length)
    (hk : k + bits.length ≤ w) (h : Agree k (remainder taps r bits) (remainder taps s bits')) :
    Agree (k + bits.length) r s ∧ (r = s → bits = bits') := by
  induction bits generalizing r s bits' with
  | nil =>
    rw [List.eq_nil_of_length_eq_zero hlen.symm] at *
    exact ⟨h, fun _ => rfl⟩
  | cons b bits ih =>
    cases bits' with
    | nil => cases hlen
    | cons c bits' =>
      rw [List.length_cons] at hk hlen ⊢
      obtain ⟨hagree, hrest⟩ := ih (Nat.succ_inj.mp hlen) (by omega) h
      obtain ⟨hfell, hback⟩ := hagree.feed htop (by omega)
      refine ⟨hback, fun he => ?_⟩
      subst he
      have hbc : b = c := by simpa using hfell
      subst hbc
      rw [hrest rfl]

/-- Equal messages take different registers to different remainders. -/
theorem remainder_inj {r s : BitVec w} {bits : List Bool} (htop : taps.getLsbD (w - 1) = true)
    (h : remainder taps r bits = remainder taps s bits) : r = s := by
  induction bits generalizing r s with
  | nil => exact h
  | cons b bits ih =>
    have hfeed := ih h
    by_cases hw : 0 < w
    · have hagree : Agree 0 (feed taps r b) (feed taps s b) := by
        rw [hfeed]
        exact .refl 0 _
      obtain ⟨hfell, hback⟩ := hagree.feed htop hw
      refine Agree.eq fun i hi => ?_
      cases i with
      | zero => simpa using hfell
      | succ i => exact hback (i + 1) (by omega)
    · have hzero : w = 0 := by omega
      subst hzero
      exact Subsingleton.elim r s

/-- A burst no longer than the register is detected. -/
theorem remainder_burst {r : BitVec w} {front back bits bits' : List Bool}
    (htop : taps.getLsbD (w - 1) = true) (hlen : bits.length = bits'.length)
    (hw : bits.length ≤ w)
    (h : remainder taps r (front ++ bits ++ back) = remainder taps r (front ++ bits' ++ back)) :
    bits = bits' := by
  unfold remainder at h
  simp only [List.foldl_append] at h
  have hburst := remainder_inj htop h
  have hagree : Agree 0 (remainder taps (front.foldl (feed taps) r) bits)
      (remainder taps (front.foldl (feed taps) r) bits') := by
    unfold remainder
    rw [hburst]
    exact .refl 0 _
  exact (remainder_agree htop hlen (by omega) hagree).2 rfl

/-! ## Tables -/

theorem shift_xor (r s : BitVec w) : shift taps (r ^^^ s) = shift taps r ^^^ shift taps s := by
  refine BitVec.eq_of_getLsbD_eq fun i _ => ?_
  rw [BitVec.getLsbD_xor, getLsbD_shift, getLsbD_shift, getLsbD_shift,
    BitVec.getLsbD_xor, BitVec.getLsbD_xor]
  cases r.getLsbD 0 <;> cases s.getLsbD 0 <;> cases taps.getLsbD i <;> simp

theorem shifts_xor (n : Nat) (r s : BitVec w) :
    shifts taps n (r ^^^ s) = shifts taps n r ^^^ shifts taps n s := by
  induction n generalizing r s with
  | zero => rfl
  | succ n ih => rw [shifts, shift_xor, ih, shifts, shifts]

/-- Zeros that fall out leave the rest. -/
theorem shifts_low {n : Nat} {r : BitVec w} (h : ∀ i, i < n → r.getLsbD i = false) :
    shifts taps n r = r >>> n := by
  induction n generalizing r with
  | zero => exact (BitVec.ushiftRight_zero r).symm
  | succ n ih =>
    have hshift : shift taps r = r >>> 1 := by
      unfold shift
      rw [h 0 (by omega)]
      rfl
    rw [shifts, hshift, ih, ← BitVec.shiftRight_add, Nat.add_comm 1 n]
    intro i hi
    rw [BitVec.getLsbD_ushiftRight]
    exact h (1 + i) (by omega)

/-- The places below `n`. -/
def low (n : Nat) (r : BitVec w) : BitVec w := (r.setWidth n).setWidth w

theorem getLsbD_low (n : Nat) (r : BitVec w) (i : Nat) :
    (low n r).getLsbD i = (decide (i < n) && r.getLsbD i) := by
  unfold low
  rw [BitVec.getLsbD_setWidth, BitVec.getLsbD_setWidth]
  by_cases hi : i < w
  · simp [hi]
  · simp [hi, BitVec.getLsbD_of_ge r i (by omega)]

/-- What falls out of a register decides what is fed back. -/
theorem shifts_eq (n : Nat) (r : BitVec w) :
    shifts taps n r = (r >>> n) ^^^ shifts taps n (low n r) := by
  have hsplit : r = (r ^^^ low n r) ^^^ low n r := by
    rw [BitVec.xor_assoc, BitVec.xor_self, BitVec.xor_zero]
  have hhigh : ∀ i, i < n → (r ^^^ low n r).getLsbD i = false := by
    intro i hi
    rw [BitVec.getLsbD_xor, getLsbD_low]
    simp [hi]
  have hshift : (r ^^^ low n r) >>> n = r >>> n := by
    refine BitVec.eq_of_getLsbD_eq fun i _ => ?_
    have hnot : ¬n + i < n := by omega
    rw [BitVec.getLsbD_ushiftRight, BitVec.getLsbD_ushiftRight, BitVec.getLsbD_xor, getLsbD_low,
      decide_eq_false hnot, Bool.false_and, Bool.xor_false]
  calc shifts taps n r = shifts taps n ((r ^^^ low n r) ^^^ low n r) := by rw [← hsplit]
    _ = (r >>> n) ^^^ shifts taps n (low n r) := by rw [shifts_xor, shifts_low hhigh, hshift]

/-- Bits as a number, the first one lowest. -/
def pack : List Bool → BitVec w
  | [] => 0#w
  | b :: bits => (pack bits <<< 1) ^^^ bit b

theorem getLsbD_pack (bits : List Bool) (i : Nat) :
    (pack bits : BitVec w).getLsbD i = (decide (i < w) && bits.getD i false) := by
  induction bits generalizing i with
  | nil => simp [pack]
  | cons b bits ih =>
    rw [pack, BitVec.getLsbD_xor, BitVec.getLsbD_shiftLeft, ih, getLsbD_bit]
    cases i with
    | zero => simp
    | succ i =>
      by_cases hi : i + 1 < w
      · simp [hi, show i < w by omega]
      · simp [hi]

/-- Bits can go in all at once. -/
theorem remainder_eq_shifts {r : BitVec w} {bits : List Bool} (h : bits.length ≤ w) :
    remainder taps r bits = shifts taps bits.length (r ^^^ pack bits) := by
  induction bits generalizing r with
  | nil =>
    show r = r ^^^ 0#w
    rw [BitVec.xor_zero]
  | cons b bits ih =>
    rw [List.length_cons] at h
    have hback : shift taps (pack bits <<< 1 : BitVec w) = pack bits := by
      refine BitVec.eq_of_getLsbD_eq fun i _ => ?_
      rw [getLsbD_shift, BitVec.getLsbD_shiftLeft, BitVec.getLsbD_shiftLeft, getLsbD_pack]
      by_cases hi' : i + 1 < w
      · simp [hi', getLsbD_pack]
      · have hout : bits.length ≤ i := by omega
        simp [hi', getLsbD_pack, hout]
    show remainder taps (feed taps r b) bits = _
    rw [ih (by omega), List.length_cons, shifts, pack, BitVec.xor_comm _ (bit b),
      ← BitVec.xor_assoc, shift_xor, hback]
    rfl

end Feedback
