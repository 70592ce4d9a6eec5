import Mathlib.Data.List.Basic

/-!
# Fixed-size codecs

A `Codec` writes a value as a fixed number of bytes, and every string of that many
bytes is what some value is written as.  Codecs are put together field by field,
as a packed structure is.
-/

structure Codec (α : Type*) where
  size : Nat
  encode : α → List UInt8
  /-- Reads the first `size` bytes. -/
  decode : List UInt8 → α
  length_encode : ∀ a, (encode a).length = size
  decode_encode : ∀ a bs, decode (encode a ++ bs) = a
  encode_decode : ∀ bs, size ≤ bs.length → encode (decode bs) = bs.take size

namespace Codec

variable {α β : Type*}

/-- A structure of no fields. -/
def empty : Codec Unit where
  size := 0
  encode _ := []
  decode _ := ()
  length_encode _ := rfl
  decode_encode _ _ := rfl
  encode_decode _ _ := rfl

def byte : Codec UInt8 where
  size := 1
  encode b := [b]
  decode bs := bs.headD 0
  length_encode _ := rfl
  decode_encode _ _ := rfl
  encode_decode bs h := by
    cases bs with
    | nil => cases h
    | cons b bs => rfl

/-- One field behind the other. -/
def pair (c : Codec α) (d : Codec β) : Codec (α × β) where
  size := c.size + d.size
  encode p := c.encode p.1 ++ d.encode p.2
  decode bs := (c.decode bs, d.decode (bs.drop c.size))
  length_encode p := by rw [List.length_append, c.length_encode, d.length_encode]
  decode_encode p bs := by
    have hdrop : (c.encode p.1 ++ (d.encode p.2 ++ bs)).drop c.size = d.encode p.2 ++ bs :=
      List.drop_left' (c.length_encode p.1)
    rw [List.append_assoc, hdrop, c.decode_encode, d.decode_encode]
  encode_decode bs h := by
    have hd : d.size ≤ (bs.drop c.size).length := by
      rw [List.length_drop]
      omega
    rw [c.encode_decode bs (by omega), d.encode_decode _ hd, List.take_add]

/-- The same bytes, read as a value of another type. -/
def iso (c : Codec α) (f : α → β) (g : β → α) (hgf : ∀ a, g (f a) = a) (hfg : ∀ b, f (g b) = b) :
    Codec β where
  size := c.size
  encode b := c.encode (g b)
  decode bs := f (c.decode bs)
  length_encode b := c.length_encode (g b)
  decode_encode b bs := by rw [c.decode_encode, hfg]
  encode_decode bs h := by rw [hgf, c.encode_decode bs h]

/-! ## Integers -/

theorem bytes16_join (a b : UInt8) :
    a.toNat * 256 + b.toNat < 65536 ∧ (a.toNat * 256 + b.toNat) / 256 = a.toNat ∧
      (a.toNat * 256 + b.toNat) % 256 = b.toNat := by
  have ha := a.toNat_lt
  have hb := b.toNat_lt
  omega

/-- Two bytes in network order. -/
def word16 : Codec UInt16 :=
  (byte.pair byte).iso (fun p => UInt16.ofNat (p.1.toNat * 256 + p.2.toNat))
    (fun n => (UInt8.ofNat (n.toNat / 256), UInt8.ofNat n.toNat))
    (by
      rintro ⟨a, b⟩
      obtain ⟨hlt, hdiv, hmod⟩ := bytes16_join a b
      have hn : (UInt16.ofNat (a.toNat * 256 + b.toNat)).toNat = a.toNat * 256 + b.toNat := by
        rw [UInt16.toNat_ofNat']
        exact Nat.mod_eq_of_lt hlt
      simp only [hn, hdiv, Prod.mk.injEq]
      refine ⟨UInt8.ofNat_toNat, UInt8.toNat_inj.mp ?_⟩
      rw [UInt8.toNat_ofNat']
      exact hmod)
    (by
      intro n
      have hn := n.toNat_lt
      apply UInt16.toNat_inj.mp
      simp only [UInt16.toNat_ofNat', UInt8.toNat_ofNat']
      omega)

/-- Four bytes in network order. -/
def word32 : Codec UInt32 :=
  (word16.pair word16).iso (fun p => UInt32.ofNat (p.1.toNat * 65536 + p.2.toNat))
    (fun n => (UInt16.ofNat (n.toNat / 65536), UInt16.ofNat n.toNat))
    (by
      rintro ⟨a, b⟩
      have ha := a.toNat_lt
      have hb := b.toNat_lt
      have hn : (UInt32.ofNat (a.toNat * 65536 + b.toNat)).toNat = a.toNat * 65536 + b.toNat := by
        rw [UInt32.toNat_ofNat']
        omega
      have hdiv : (a.toNat * 65536 + b.toNat) / 65536 = a.toNat := by omega
      simp only [hn, hdiv, Prod.mk.injEq]
      refine ⟨UInt16.ofNat_toNat, UInt16.toNat_inj.mp ?_⟩
      rw [UInt16.toNat_ofNat']
      omega)
    (by
      intro n
      have hn := n.toNat_lt
      apply UInt32.toNat_inj.mp
      simp only [UInt32.toNat_ofNat', UInt16.toNat_ofNat']
      omega)

theorem drop_encode (c : Codec α) (a : α) (bs : List UInt8) :
    (c.encode a ++ bs).drop c.size = bs := List.drop_left' (c.length_encode a)

end Codec
