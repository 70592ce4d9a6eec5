import Mathlib.Data.List.Range
import Mathlib.Data.List.Perm.Subperm

/-!
# Numbered objects and where they are

Objects are numbered as they are made.  A list names the object at every place
that can hold one, and in custody no object is at two places.  An object that is
moved permutes the list, one that is dropped leaves it, and every object that was
made is somewhere exactly if the list is as long as the objects are many.
-/

namespace Transition

/-- Of the objects numbered below `made` these are at a place, each at one. -/
structure Custody (made : Nat) (places : List Nat) : Prop where
  nodup : places.Nodup
  lt_made : ∀ i ∈ places, i < made

namespace Custody

variable {made : Nat} {places places' : List Nat}

theorem zero : Custody 0 [] := ⟨List.nodup_nil, fun _ h => absurd h List.not_mem_nil⟩

theorem subperm (h : Custody made places) : places.Subperm (List.range made) :=
  List.subperm_of_subset h.nodup fun i hi => List.mem_range.mpr (h.lt_made i hi)

theorem length_le (h : Custody made places) : places.length ≤ made := by
  have hlen := h.subperm.length_le
  rw [List.length_range] at hlen
  exact hlen

/-- Every object is at a place. -/
theorem all_iff (h : Custody made places) :
    places.Perm (List.range made) ↔ places.length = made := by
  constructor
  · intro hp
    rw [hp.length_eq, List.length_range]
  · intro hlen
    refine h.subperm.perm_of_length_le ?_
    rw [List.length_range]
    omega

theorem move (h : Custody made places) (hp : places'.Perm places) : Custody made places' :=
  ⟨hp.nodup_iff.mpr h.nodup, fun i hi => h.lt_made i (hp.mem_iff.mp hi)⟩

theorem make (h : Custody made places) : Custody (made + 1) (made :: places) := by
  refine ⟨List.nodup_cons.mpr ⟨fun hm => ?_, h.nodup⟩, fun i hi => ?_⟩
  · exact absurd (h.lt_made made hm) (Nat.lt_irrefl made)
  · rcases List.mem_cons.mp hi with rfl | hi
    · exact Nat.lt_succ_self i
    · exact Nat.lt_succ_of_lt (h.lt_made i hi)

theorem drop {i : Nat} (h : Custody made (i :: places)) : Custody made places :=
  ⟨(List.nodup_cons.mp h.nodup).2, fun j hj => h.lt_made j (List.mem_cons_of_mem i hj)⟩

end Custody
end Transition
