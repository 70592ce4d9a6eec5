import Mathlib.Data.List.Basic

/-!
# Windows of a circular array

A ring is an array of `size` cells read modulo `size`.  `window cells size r n`
is the list of the `n` items that start at position `r`, and `span size r w` is
the number of cells from the position `r` up to the position `w`.

One cell is always kept free, so a window is shorter than the ring, and the two
positions of a window determine it: it is empty when they are equal and full
when the second is one step behind the first.
-/

namespace Ring

variable {α : Type*}

def window (cells : Nat → α) (size : Nat) : Nat → Nat → List α
  | _, 0 => []
  | r, n + 1 => cells r :: window cells size ((r + 1) % size) n

/-- The number of steps from `r` to `w`, for positions of the ring. -/
def span (size r w : Nat) : Nat := if r ≤ w then w - r else size - r + w

theorem window_succ (cells : Nat → α) (size r n : Nat) :
    window cells size r (n + 1) = cells r :: window cells size ((r + 1) % size) n := rfl

@[simp] theorem window_length (cells : Nat → α) (size r n : Nat) :
    (window cells size r n).length = n := by
  induction n generalizing r with
  | zero => rfl
  | succ n ih => rw [window_succ, List.length_cons, ih]

theorem span_lt {size r w : Nat} (hr : r < size) (hw : w < size) : span size r w < size := by
  unfold span
  split <;> omega

@[simp] theorem span_self (size r : Nat) : span size r r = 0 := by
  rw [span, if_pos (Nat.le_refl r), Nat.sub_self]

theorem span_eq_zero {size r w : Nat} (hr : r < size) : span size r w = 0 ↔ r = w := by
  unfold span
  split <;> omega

theorem succ_mod {size r : Nat} (hr : r < size) :
    (r + 1) % size = if r + 1 = size then 0 else r + 1 := by
  split
  · next h => rw [h, Nat.mod_self]
  · exact Nat.mod_eq_of_lt (by omega)

/-- The window is full when the position behind it is the one before its start. -/
theorem span_eq_pred {size r w : Nat} (hr : r < size) (hw : w < size) :
    span size r w + 1 = size ↔ (w + 1) % size = r := by
  rw [succ_mod hw]
  unfold span
  split <;> split <;> omega

theorem span_succ_right {size r w : Nat} (hr : r < size) (hw : w < size)
    (h : span size r w + 1 < size) : span size r ((w + 1) % size) = span size r w + 1 := by
  rw [succ_mod hw]
  unfold span at h ⊢
  split at h <;> split <;> split <;> omega

theorem span_succ_left {size r w : Nat} (hr : r < size) (hw : w < size)
    (h : span size r w ≠ 0) : span size ((r + 1) % size) w + 1 = span size r w := by
  rw [succ_mod hr]
  unfold span at h ⊢
  split at h <;> split <;> split <;> omega

/-- Reading past the end of an empty window turns it into a full one. -/
theorem span_overrun {size r : Nat} (hr : r < size) : span size ((r + 1) % size) r + 1 = size := by
  rw [succ_mod hr]
  unfold span
  split <;> split <;> omega

theorem mem_window {cells : Nat → α} {size : Nat} {x : α} :
    ∀ (n r : Nat), r < size → x ∈ window cells size r n → ∃ i, i < size ∧ x = cells i := by
  intro n
  induction n with
  | zero =>
    intro r _ h
    cases h
  | succ n ih =>
    intro r hr h
    rw [window_succ] at h
    rcases List.mem_cons.mp h with h | h
    · exact ⟨r, hr, h⟩
    · exact ih _ (Nat.mod_lt _ (by omega)) h

/-- The window covers the positions fewer than `n` steps from its start. -/
theorem cell_mem_window {cells : Nat → α} {size i : Nat} (hi : i < size) :
    ∀ (n r : Nat), r < size → span size r i < n → cells i ∈ window cells size r n := by
  intro n
  induction n with
  | zero =>
    intro r _ h
    omega
  | succ n ih =>
    intro r hr h
    rw [window_succ]
    by_cases he : r = i
    · rw [he]
      exact List.mem_cons_self
    · have hs : span size ((r + 1) % size) i + 1 = span size r i :=
        span_succ_left hr hi fun hz => he ((span_eq_zero hr).mp hz)
      exact List.mem_cons_of_mem _ (ih _ (Nat.mod_lt _ (by omega)) (by omega))

/-- All cells but the free one are in a full window. -/
theorem cell_mem_full {cells : Nat → α} {size r w i : Nat} (hr : r < size) (hw : w < size)
    (hi : i < size) (hne : i ≠ w) (hf : span size r w + 1 = size) :
    cells i ∈ window cells size r (span size r w) := by
  apply cell_mem_window hi _ _ hr
  unfold span at hf ⊢
  split at hf <;> split <;> omega

/-- A cell the window does not cover can be overwritten. -/
theorem window_update {cells : Nat → α} {size w : Nat} (x : α) :
    ∀ (n r : Nat), r < size → w < size → n ≤ span size r w →
      window (fun i => if i = w then x else cells i) size r n = window cells size r n := by
  intro n
  induction n with
  | zero => intros; rfl
  | succ n ih =>
    intro r hr hw hn
    have hne : r ≠ w := fun e => by rw [e, span_self] at hn; omega
    have hs : span size ((r + 1) % size) w + 1 = span size r w :=
      span_succ_left hr hw (by omega)
    rw [window_succ, window_succ, if_neg hne,
      ih _ (Nat.mod_lt _ (by omega)) hw (by omega)]

/-- The window grows by the cell behind it. -/
theorem window_snoc {cells : Nat → α} {size w : Nat} :
    ∀ (n r : Nat), r < size → w < size → span size r w = n → n + 1 < size →
      window cells size r (n + 1) = window cells size r n ++ [cells w] := by
  intro n
  induction n with
  | zero =>
    intro r hr _ hs _
    rw [(span_eq_zero hr).mp hs]
    rfl
  | succ n ih =>
    intro r hr hw hs hn
    have h := span_succ_left hr hw (by omega)
    rw [window_succ, ih _ (Nat.mod_lt _ (by omega)) hw (by omega) (by omega), window_succ,
      List.cons_append]

end Ring
