import GDNet.Ring.Serial
import GDNet.Transport.Reassembly

/-!
# The reliable stream of a channel

The parcels of a channel are numbered through, each command with a number of its
own, from 1 on.  The numbers here do not wrap; a command carries the last 16 bits of
one.  `Receives done todo` is the invariant of a receiver: the parcels `done` have
been dispatched, and what waits belongs to the parcels `todo`.
-/

namespace Transport
open ENet (Packet ProtocolCommand)
open Search

/-! ## Numbering -/

/-- The parcels with the number of their first command, after the first `n` numbers. -/
def numbered : Nat → List Parcel → List (Nat × Parcel)
  | _, [] => []
  | n, p :: ps => (n + 1, p) :: numbered (n + p.count) ps

/-- The number of numbers. -/
def total : List Parcel → Nat
  | [] => 0
  | p :: ps => p.count + total ps

theorem total_append (ps qs : List Parcel) : total (ps ++ qs) = total ps + total qs := by
  induction ps with
  | nil => rw [List.nil_append, total, Nat.zero_add]
  | cons p ps ih => rw [List.cons_append, total, total, ih, Nat.add_assoc]

theorem numbered_append (n : Nat) (ps qs : List Parcel) :
    numbered n (ps ++ qs) = numbered n ps ++ numbered (n + total ps) qs := by
  induction ps generalizing n with
  | nil => rfl
  | cons p ps ih =>
    rw [List.cons_append, numbered, numbered, ih, total, List.cons_append, Nat.add_assoc]

theorem numbered_bounds {n s : Nat} {p : Parcel} {ps : List Parcel} (h : (s, p) ∈ numbered n ps) :
    n < s ∧ s + p.count ≤ n + total ps + 1 := by
  induction ps generalizing n with
  | nil => cases h
  | cons q ps ih =>
    rw [total]
    rcases List.mem_cons.mp h with he | h
    · cases he
      omega
    · have := ih h
      omega

/-- A number past the first parcels is one of the later parcels. -/
theorem numbered_of_lt {n s : Nat} {p : Parcel} {ps qs : List Parcel}
    (h : (s, p) ∈ numbered n (ps ++ qs)) (hs : n + total ps < s) :
    (s, p) ∈ numbered (n + total ps) qs := by
  rw [numbered_append, List.mem_append] at h
  refine h.resolve_left fun hl => ?_
  have := numbered_bounds hl
  have := p.count_pos
  omega

theorem numbered_unique {n s : Nat} {p q : Parcel} {ps : List Parcel}
    (hp : (s, p) ∈ numbered n ps) (hq : (s, q) ∈ numbered n ps) : p = q := by
  induction ps generalizing n with
  | nil => cases hp
  | cons r ps ih =>
    have hr := r.count_pos
    rcases List.mem_cons.mp hp with hep | hp
    · rcases List.mem_cons.mp hq with heq | hq
      · cases hep
        cases heq
        rfl
      · have := (numbered_bounds hq).1
        cases hep
        omega
    · rcases List.mem_cons.mp hq with heq | hq
      · have := (numbered_bounds hp).1
        cases heq
        omega
      · exact ih hp hq

theorem numbered_head {n : Nat} {p q : Parcel} {ps : List Parcel}
    (h : (n + 1, p) ∈ numbered n (q :: ps)) : p = q :=
  numbered_unique h List.mem_cons_self

/-! ## What a receiver makes of a number -/

/-- How far ahead of the number of the channel a command is. -/
def distance (current : UInt16) (e : IncomingCommand) : Nat :=
  Serial.offset 65536 current.toNat e.reliableSequenceNumber.toNat

/-- Seen from `R`, the command has the number `s`, and it is within the window. -/
structure Sees (R s : Nat) (e : IncomingCommand) : Prop where
  number : e.reliableSequenceNumber = UInt16.ofNat s
  ahead : R < s
  near : s / 4096 < R / 4096 + 7

theorem toNat_ofNat (n : Nat) : (UInt16.ofNat n).toNat = n % 65536 := UInt16.toNat_ofNat'

theorem Sees.lt {R s : Nat} {e : IncomingCommand} (h : Sees R s e) : s < R + 65536 := by
  have := h.near
  omega

theorem Sees.distance {R s : Nat} {e : IncomingCommand} (h : Sees R s e) :
    distance (UInt16.ofNat R) e = s - R := by
  have hlt := h.lt
  rw [Transport.distance, h.number, toNat_ofNat, toNat_ofNat]
  exact Serial.offset_of_le (Nat.le_of_lt h.ahead) hlt

/-- A waiting command is found by comparing distances. -/
theorem reliableTurn_eq (current number : UInt16) (e : IncomingCommand) :
    reliableTurn current number e = compareKey (distance current)
      (Serial.offset 65536 current.toNat number.toNat) e := by
  have h₁ := current.toNat_lt
  have h₂ := number.toNat_lt
  have h₃ := e.reliableSequenceNumber.toNat_lt
  unfold reliableTurn compareKey distance Serial.offset
  simp only [ge_iff_le, UInt16.le_iff_toNat_le, UInt16.lt_iff_toNat_lt]
  split_ifs <;> first | rfl | omega

/-- A number in the window is ahead, if it is not one that is far behind. -/
theorem ahead_of_inWindow {R s : Nat} (h : inWindow (UInt16.ofNat s) (UInt16.ofNat R) = true)
    (hlo : R / 4096 ≤ s / 4096 + 9) (hhi : s < R + 65536)
    (hne : UInt16.ofNat s ≠ UInt16.ofNat R) : R < s ∧ s / 4096 < R / 4096 + 7 := by
  unfold inWindow reliableWindow reliableWindowSize reliableWindows freeReliableWindows at h
  simp only [Bool.and_eq_true, decide_eq_true_eq, UInt16.lt_iff_toNat_lt, toNat_ofNat] at h
  have hlt : R ≠ s := fun he => hne (by rw [he])
  split at h <;> omega

theorem inWindow_of_ahead {R s : Nat} (hlt : R < s) (hnear : s / 4096 < R / 4096 + 7) :
    inWindow (UInt16.ofNat s) (UInt16.ofNat R) = true := by
  unfold inWindow reliableWindow reliableWindowSize reliableWindows freeReliableWindows
  simp only [Bool.and_eq_true, decide_eq_true_eq, UInt16.lt_iff_toNat_lt, toNat_ofNat]
  split <;> omega

/-! ## Waiting commands -/

structure Waits (R : Nat) (todo : List Parcel) (cs : List IncomingCommand) : Prop where
  ordered : Ordered (distance (UInt16.ofNat R)) cs
  fits : ∀ e ∈ cs, ∃ s p, (s, p) ∈ numbered R todo ∧ Sees R s e ∧ p.Fits e

theorem Waits.nil (R : Nat) (todo : List Parcel) : Waits R todo [] :=
  ⟨List.Pairwise.nil, fun e he => by cases he⟩

/-- The parcels that are still to come grow at their end. -/
theorem Waits.more {R : Nat} {todo : List Parcel} {cs : List IncomingCommand} (h : Waits R todo cs)
    (ps : List Parcel) : Waits R (todo ++ ps) cs := by
  refine ⟨h.ordered, fun e he => ?_⟩
  obtain ⟨s, p, hm, hs, hf⟩ := h.fits e he
  exact ⟨s, p, by rw [numbered_append]; exact List.mem_append_left _ hm, hs, hf⟩

/-- The commands behind the first parcel, seen from its end. -/
theorem Waits.later {R : Nat} {q : Parcel} {todo : List Parcel} {e : IncomingCommand}
    {cs : List IncomingCommand} (h : Waits R (q :: todo) (e :: cs)) (he : Sees R (R + 1) e) :
    ∀ e' ∈ cs, ∃ s p, (s, p) ∈ numbered (R + q.count) todo ∧ Sees R s e' ∧
      Sees (R + q.count) s e' ∧ p.Fits e' := by
  intro e' he'
  have hq := q.count_pos
  obtain ⟨s, p, hm, hs, hf⟩ := h.fits e' (List.mem_cons_of_mem e he')
  have hd := (List.pairwise_cons.mp h.ordered).1 e' he'
  rw [he.distance, hs.distance] at hd
  have hm' : (s, p) ∈ numbered (R + q.count) todo := by
    refine (List.mem_cons.mp hm).resolve_left fun heq => ?_
    cases heq
    omega
  have hb := (numbered_bounds hm').1
  have hnear := hs.near
  have hdiv : R / 4096 ≤ (R + q.count) / 4096 := Nat.div_le_div_right (by omega)
  exact ⟨s, p, hm', hs, ⟨hs.number, hb, by omega⟩, hf⟩

/-- The rest waits when the first parcel is done. -/
theorem Waits.tail {R : Nat} {q : Parcel} {todo : List Parcel} {e : IncomingCommand}
    {cs : List IncomingCommand} (h : Waits R (q :: todo) (e :: cs)) (he : Sees R (R + 1) e) :
    Waits (R + q.count) todo cs := by
  have hlater := h.later he
  refine ⟨?_, fun e' he' => ?_⟩
  · refine List.Pairwise.imp_of_mem (fun {a b} ha hb hab => ?_)
      (List.pairwise_cons.mp h.ordered).2
    obtain ⟨s, _, _, hs, hs', _⟩ := hlater a ha
    obtain ⟨t, _, _, ht, ht', _⟩ := hlater b hb
    have h₁ := hs'.ahead
    have h₂ := ht'.ahead
    rw [hs.distance, ht.distance] at hab
    rw [hs'.distance, ht'.distance]
    omega
  · obtain ⟨s, p, hm, -, hs', hf⟩ := hlater e' he'
    exact ⟨s, p, hm, hs', hf⟩

theorem Sees.unique {R s s' : Nat} {e : IncomingCommand} (h : Sees R s e) (h' : Sees R s' e) :
    s = s' := by
  have h₁ := h.distance
  have h₂ := h'.distance
  have h₃ := h.ahead
  have h₄ := h'.ahead
  omega

/-- No command is ready. -/
def Idle (R : Nat) (cs : List IncomingCommand) : Prop :=
  ∀ e ∈ cs.head?, ¬(e.fragmentsRemaining = 0 ∧ e.reliableSequenceNumber = UInt16.ofNat (R + 1))

theorem loop_of_idle {R : Nat} {cs : List IncomingCommand} (h : Idle R cs) :
    dispatchReliableLoop (UInt16.ofNat R) cs = (UInt16.ofNat R, [], cs) := by
  cases cs with
  | nil => rfl
  | cons e cs =>
    have he := h e rfl
    rw [UInt16.ofNat_add] at he
    unfold dispatchReliableLoop
    rw [if_pos]
    by_cases hz : e.fragmentsRemaining = 0
    · exact .inr fun hn => he ⟨hz, hn⟩
    · exact .inl (Nat.pos_of_ne_zero hz)

/-- The loop takes the commands of the parcels `mid`, and what is left waits for the
parcels `rest`. -/
structure Advances (R : Nat) (cs : List IncomingCommand) (mid rest : List Parcel) : Prop where
  number : (dispatchReliableLoop (UInt16.ofNat R) cs).1 = UInt16.ofNat (R + total mid)
  data : (dispatchReliableLoop (UInt16.ofNat R) cs).2.1.map (fun e => e.packet.data) =
    mid.map fun p => p.data
  waits : Waits (R + total mid) rest (dispatchReliableLoop (UInt16.ofNat R) cs).2.2
  idle : Idle (R + total mid) (dispatchReliableLoop (UInt16.ofNat R) cs).2.2
  kept : ∀ e ∈ cs, ∀ s, Sees R s e → R + total mid < s →
    e ∈ (dispatchReliableLoop (UInt16.ofNat R) cs).2.2
  seen : ∀ s p, (s, p) ∈ numbered R mid → ∃ e ∈ cs, Sees R s e

/-- The dispatch takes the commands of the next parcels, up to one that is not
complete. -/
theorem loop_waits {R : Nat} {todo : List Parcel} {cs : List IncomingCommand}
    (h : Waits R todo cs) : ∃ mid rest, todo = mid ++ rest ∧ Advances R cs mid rest := by
  induction cs generalizing R todo with
  | nil =>
    exact ⟨[], todo, rfl, rfl, rfl, .nil R todo, fun e he => (by cases he),
      fun e he => (by cases he), fun s p hm => by cases hm⟩
  | cons e cs ih =>
    by_cases hready : e.fragmentsRemaining = 0 ∧ e.reliableSequenceNumber = UInt16.ofNat (R + 1)
    · obtain ⟨hz, hn⟩ := hready
      obtain ⟨s, p, hm, hs, hf⟩ := h.fits e List.mem_cons_self
      have hnext : s = R + 1 := by
        have hnum := congrArg UInt16.toNat (hs.number.symm.trans hn)
        have hlt := hs.lt
        have hgt := hs.ahead
        rw [toNat_ofNat, toNat_ofNat] at hnum
        omega
      subst hnext
      cases todo with
      | nil => cases hm
      | cons q todo =>
        have hq := numbered_head hm
        subst hq
        obtain ⟨mid, rest, hsplit, ha⟩ := ih (h.tail hs)
        have hloop : dispatchReliableLoop (UInt16.ofNat R) (e :: cs) =
            ((dispatchReliableLoop (UInt16.ofNat (R + p.count)) cs).1,
              e :: (dispatchReliableLoop (UInt16.ofNat (R + p.count)) cs).2.1,
              (dispatchReliableLoop (UInt16.ofNat (R + p.count)) cs).2.2) := by
          rw [dispatchReliableLoop, if_neg, hf.advance hn]
          rw [not_or, not_not]
          exact ⟨by omega, hn.trans (UInt16.ofNat_add R 1)⟩
        have htotal : R + total (p :: mid) = R + p.count + total mid := by
          rw [total, Nat.add_assoc]
        refine ⟨p :: mid, rest, by rw [hsplit, List.cons_append], ?_, ?_, ?_, ?_, ?_, ?_⟩
        · rw [hloop, htotal]
          exact ha.number
        · rw [hloop, List.map_cons, List.map_cons, ha.data, hf.data hz]
        · rw [hloop, htotal]
          exact ha.waits
        · rw [hloop, htotal]
          exact ha.idle
        · intro e' he' s' hs' hlt
          rw [htotal] at hlt
          rw [hloop]
          rcases List.mem_cons.mp he' with rfl | he'
          · have hp := p.count_pos
            have h₁ := hs.distance
            have h₂ := hs'.distance
            have h₃ := hs'.ahead
            omega
          · refine ha.kept e' he' s' ⟨hs'.number, by omega, ?_⟩ hlt
            have hnear := hs'.near
            have hdiv : R / 4096 ≤ (R + p.count) / 4096 := Nat.div_le_div_right (by omega)
            omega
        · intro s' p' hm'
          rcases List.mem_cons.mp hm' with he | hm'
          · cases he
            exact ⟨e, List.mem_cons_self, hs⟩
          · obtain ⟨e', he', hs'⟩ := ha.seen s' p' hm'
            obtain ⟨s₀, _, _, hs₀, hs₀', _⟩ := h.later hs e' he'
            obtain rfl := hs'.unique hs₀'
            exact ⟨e', List.mem_cons_of_mem e he', hs₀⟩
    · have hidle : Idle R (e :: cs) := by
        intro e' he'
        cases he'
        exact hready
      have hloop := loop_of_idle hidle
      refine ⟨[], todo, rfl, ?_, ?_, ?_, ?_, ?_, fun s p hm => by cases hm⟩ <;> rw [hloop]
      · rfl
      · rfl
      · exact h
      · exact hidle
      · exact fun e he _ _ _ => he

end Transport
