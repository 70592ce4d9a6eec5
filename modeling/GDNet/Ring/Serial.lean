import Mathlib.Data.Nat.Init

/-!
# Serial numbers

The numbers of a stream are sent modulo some modulus.  Whoever knows how far the
stream has got reads such a number as the next one of the stream that it can stand
for: `offset` is how far ahead of `current` that is.
-/

namespace Serial

def offset (modulus current number : Nat) : Nat :=
  if current ≤ number then number - current else number + modulus - current

variable {modulus r n : Nat}

theorem offset_of_le (h : r ≤ n) (hlt : n < r + modulus) :
    offset modulus (r % modulus) (n % modulus) = n - r := by
  have hm : 0 < modulus := by omega
  have hr := Nat.mod_add_div r modulus
  have hn := Nat.mod_add_div n modulus
  have hrlt := Nat.mod_lt r hm
  have hnlt := Nat.mod_lt n hm
  have hq : n / modulus = r / modulus ∨ n / modulus = r / modulus + 1 := by
    have h₁ : r / modulus ≤ n / modulus := Nat.div_le_div_right h
    have h₂ : n / modulus ≤ (r + modulus) / modulus := Nat.div_le_div_right (by omega)
    rw [Nat.add_div_right r hm] at h₂
    omega
  unfold offset
  rcases hq with hq | hq
  · rw [hq] at hn
    rw [if_pos (by omega)]
    omega
  · rw [hq, Nat.mul_add, Nat.mul_one] at hn
    rw [if_neg (by omega)]
    omega

end Serial
