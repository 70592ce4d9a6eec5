import GDNet.Transport.Outgoing
import Mathlib.Data.List.Perm.Subperm

/-!
# The windows of a sender

A channel counts, for each of its sixteen windows, the commands that were sent and
not acknowledged, and a window is not started while one of the eight windows that
come up to it again is in use.  `Flight` is what these counts say about the numbers
that are on their way: they are exact, and all numbers are within nine windows.
-/

namespace Transport

/-- The last number sent is `base`, and `tried` are those not acknowledged. -/
structure Flight (ch : OutChannel) (base : Nat) (tried : List Nat) : Prop where
  nodup : tried.Nodup
  le : ∀ n ∈ tried, n ≤ base
  span : ∀ n ∈ tried, base / 4096 ≤ n / 4096 + 8
  counts : ∀ w, w < 16 → ch.reliableWindows w = tried.countP fun n => n / 4096 % 16 = w
  bits : ∀ w, w < 16 → (ch.usedReliableWindows.testBit w = true ↔ 0 < ch.reliableWindows w)
  used : ch.usedReliableWindows < 65536

namespace Flight

variable {ch : OutChannel} {base : Nat} {tried tried' : List Nat}

theorem start : Flight {} 0 [] := by
  refine ⟨List.nodup_nil, ?_, ?_, ?_, ?_, by decide⟩
  · intro n hn
    cases hn
  · intro n hn
    cases hn
  · intro w _
    rfl
  · intro w _
    simp

theorem perm (h : Flight ch base tried) (hp : tried.Perm tried') : Flight ch base tried' := by
  refine ⟨hp.nodup_iff.mp h.nodup, fun n hn => h.le n (hp.mem_iff.mpr hn),
    fun n hn => h.span n (hp.mem_iff.mpr hn), fun w hw => ?_, h.bits, h.used⟩
  rw [h.counts w hw, hp.countP_eq]

/-- The channel may change what the windows do not depend on. -/
theorem channel {ch' : OutChannel} (h : Flight ch base tried)
    (hw : ch'.reliableWindows = ch.reliableWindows)
    (hu : ch'.usedReliableWindows = ch.usedReliableWindows) : Flight ch' base tried := by
  refine ⟨h.nodup, h.le, h.span, ?_, ?_, ?_⟩
  · rw [hw]
    exact h.counts
  · rw [hw, hu]
    exact h.bits
  · rw [hu]
    exact h.used

/-- A number on its way counts for its window. -/
theorem mem_used (h : Flight ch base tried) {n : Nat} (hn : n ∈ tried) :
    ch.usedReliableWindows.testBit (n / 4096 % 16) = true := by
  have hw : n / 4096 % 16 < 16 := Nat.mod_lt _ (by decide)
  rw [h.bits _ hw, h.counts _ hw, List.countP_pos_iff]
  exact ⟨n, hn, decide_eq_true rfl⟩

/-- The mask has the bits of the eight windows from `w` on. -/
theorem windowMask_testBit : ∀ w < 16, ∀ i < 16,
    (windowMask w).testBit i = decide ((i + 16 - w) % 16 < 8) := by decide

theorem testBit_of_and_eq_zero {a b i : Nat} (h : a &&& b = 0) (hb : b.testBit i = true) :
    a.testBit i = false := by
  have hand := congrArg (fun n => n.testBit i) h
  simpa only [Nat.testBit_and, hb, Bool.and_true, Nat.zero_testBit] using hand

/-- No number is on its way in the windows that a mask without common bits tests. -/
theorem not_mem_mask (h : Flight ch base tried) {w : Nat} (hw : w < 16)
    (hmask : ch.usedReliableWindows &&& windowMask w = 0) {n : Nat} (hn : n ∈ tried) :
    8 ≤ (n / 4096 % 16 + 16 - w) % 16 := by
  by_contra hlt
  have hi : n / 4096 % 16 < 16 := Nat.mod_lt _ (by decide)
  have hbit := windowMask_testBit w hw _ hi
  rw [decide_eq_true (by omega)] at hbit
  have hzero := testBit_of_and_eq_zero hmask hbit
  rw [h.mem_used hn] at hzero
  cases hzero

theorem testBit_or_shift (a w i : Nat) :
    (a ||| 1 <<< w).testBit i = (a.testBit i || decide (w = i)) := by
  rw [Nat.testBit_or, Nat.one_shiftLeft, Nat.testBit_two_pow]

/-- A number that is sent for the first time. -/
theorem use (h : Flight ch base tried) (hopen : (base + 1) % 4096 = 0 →
      ch.usedReliableWindows &&& windowMask ((base + 1) / 4096 % 16) = 0) :
    Flight (ch.use ((base + 1) / 4096 % 16)) (base + 1) ((base + 1) :: tried) := by
  have hw : (base + 1) / 4096 % 16 < 16 := Nat.mod_lt _ (by decide)
  have hcount : ∀ w, (ch.use ((base + 1) / 4096 % 16)).reliableWindows w =
      ch.reliableWindows w + if (base + 1) / 4096 % 16 = w then 1 else 0 := by
    intro w
    unfold OutChannel.use
    by_cases he : (base + 1) / 4096 % 16 = w
    · subst he
      simp only [Function.update_self, if_true]
    · simp only [Function.update_of_ne (Ne.symm he), if_neg he, Nat.add_zero]
  refine ⟨?_, ?_, ?_, ?_, ?_, ?_⟩
  · refine List.nodup_cons.mpr ⟨fun hm => ?_, h.nodup⟩
    have := h.le _ hm
    omega
  · intro n hn
    rcases List.mem_cons.mp hn with rfl | hn
    · exact Nat.le_refl _
    · exact Nat.le_succ_of_le (h.le n hn)
  · intro n hn
    rcases List.mem_cons.mp hn with rfl | hn
    · omega
    · have hspan := h.span n hn
      have hle := h.le n hn
      by_cases hz : (base + 1) % 4096 = 0
      · have hfar := h.not_mem_mask hw (hopen hz) hn
        omega
      · omega
  · intro w hlt
    rw [hcount, List.countP_cons, h.counts w hlt]
    simp only [decide_eq_true_eq]
  · intro w hlt
    rw [hcount]
    show (ch.usedReliableWindows ||| 1 <<< ((base + 1) / 4096 % 16)).testBit w = true ↔ _
    rw [testBit_or_shift, Bool.or_eq_true, h.bits w hlt, decide_eq_true_eq]
    split <;> omega
  · show ch.usedReliableWindows ||| 1 <<< ((base + 1) / 4096 % 16) < 2 ^ 16
    refine Nat.or_lt_two_pow h.used ?_
    rw [Nat.one_shiftLeft]
    exact Nat.pow_lt_pow_right (by decide) hw

theorem testBit_clear (a w i : Nat) (hi : i < 16) :
    (a &&& (0xFFFF ^^^ 1 <<< w)).testBit i = (a.testBit i && !decide (w = i)) := by
  have hall : (0xFFFF : Nat).testBit i = true := by
    rw [show (0xFFFF : Nat) = 2 ^ 16 - 1 by decide, Nat.testBit_two_pow_sub_one, decide_eq_true hi]
  rw [Nat.testBit_and, Nat.testBit_xor, Nat.one_shiftLeft, Nat.testBit_two_pow, hall, Bool.true_xor]

/-- A number that is acknowledged. -/
theorem free {n : Nat} (h : Flight ch base (n :: tried)) :
    Flight (ch.free (n / 4096 % 16)) base tried := by
  have hw : n / 4096 % 16 < 16 := Nat.mod_lt _ (by decide)
  have hcounts : ∀ w, w < 16 → ch.reliableWindows w =
      tried.countP (fun n => n / 4096 % 16 = w) + if n / 4096 % 16 = w then 1 else 0 := by
    intro w hlt
    rw [h.counts w hlt, List.countP_cons]
    simp only [decide_eq_true_eq]
  have hpos : ch.reliableWindows (n / 4096 % 16) > 0 := by
    rw [hcounts _ hw, if_pos rfl]
    exact Nat.succ_pos _
  have hcount : ∀ w, w < 16 → (ch.free (n / 4096 % 16)).reliableWindows w =
      tried.countP fun n => n / 4096 % 16 = w := by
    intro w hlt
    unfold OutChannel.free
    rw [if_pos hpos]
    by_cases he : n / 4096 % 16 = w
    · simp only [he, Function.update_self]
      rw [hcounts w hlt, if_pos he, Nat.add_sub_cancel]
    · simp only [Function.update_of_ne (Ne.symm he)]
      rw [hcounts w hlt, if_neg he, Nat.add_zero]
  refine ⟨(List.nodup_cons.mp h.nodup).2, fun m hm => h.le m (List.mem_cons_of_mem n hm),
    fun m hm => h.span m (List.mem_cons_of_mem n hm), hcount, ?_, ?_⟩
  · intro w hlt
    have hold := h.bits w hlt
    rw [hcount w hlt]
    rw [hcounts w hlt] at hold
    have hself := hcount _ hw
    unfold OutChannel.free at hself ⊢
    rw [if_pos hpos] at hself ⊢
    simp only [Function.update_self] at hself
    simp only
    split
    · next hz =>
      rw [testBit_clear _ _ _ hlt, Bool.and_eq_true, hold]
      by_cases he : n / 4096 % 16 = w
      · subst he
        rw [if_pos rfl, decide_eq_true rfl]
        simp only [Bool.not_true, Bool.false_eq_true, and_false, false_iff]
        omega
      · rw [if_neg he, decide_eq_false he]
        simp
    · next hz =>
      rw [hold]
      by_cases he : n / 4096 % 16 = w
      · subst he
        rw [if_pos rfl]
        omega
      · rw [if_neg he, Nat.add_zero]
  · unfold OutChannel.free
    rw [if_pos hpos]
    simp only
    split
    · exact Nat.lt_of_le_of_lt Nat.and_le_left h.used
    · exact h.used

/-- A window that is not full has a number that is not on its way. -/
theorem gap (h : Flight ch base tried) {w : Nat} (hw : ch.reliableWindows (w % 16) < 4096) :
    ∃ m, m / 4096 = w ∧ m ∉ tried := by
  by_contra hall
  have hmem : ∀ m, m / 4096 = w → m ∈ tried := fun m hm =>
    by_contra fun hnot => hall ⟨m, hm, hnot⟩
  have hsub : List.range' (4096 * w) 4096 ⊆
      tried.filter fun n => decide (n / 4096 % 16 = w % 16) := by
    intro m hm
    rw [List.mem_range'_1] at hm
    have hdiv : m / 4096 = w := by omega
    rw [List.mem_filter, decide_eq_true_eq]
    exact ⟨hmem m hdiv, by rw [hdiv]⟩
  have hlen := (List.subperm_of_subset List.nodup_range' hsub).length_le
  rw [List.length_range', ← List.countP_eq_length_filter,
    ← h.counts _ (Nat.mod_lt w (by decide))] at hlen
  omega

end Flight
end Transport
