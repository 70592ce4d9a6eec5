import Mathlib.Data.List.Basic

/-!
# Brackets in a sequence

Some elements of a sequence open a bracket, some close it and some are only meant
to stand inside one.  `Inside` looks at what comes before an element, `Bracketed`
at a whole sequence, and both grow at the end, as a run shows one element after
the other.  Where elements are dropped, a bracket is lost only with the element
that opened it.
-/

namespace Transition

variable {α β : Type*} {opens closes uses : α → Prop}

/-- The last element that opens or closes is one that opens. -/
def Inside (opens closes : α → Prop) (xs : List α) : Prop :=
  ∃ pre x post, xs = pre ++ x :: post ∧ opens x ∧ ∀ y ∈ post, ¬opens y ∧ ¬closes y

/-- Every element that has to stand inside does. -/
def Bracketed (opens closes uses : α → Prop) (xs : List α) : Prop :=
  ∀ pre x post, xs = pre ++ x :: post → uses x → Inside opens closes pre

theorem Inside.opened {xs : List α} {x : α} (h : opens x) : Inside opens closes (xs ++ [x]) := by
  refine ⟨xs, x, [], rfl, h, fun y hy => ?_⟩
  cases hy

theorem Inside.snoc {xs : List α} {x : α} (h : Inside opens closes xs) (hc : ¬closes x) :
    Inside opens closes (xs ++ [x]) := by
  by_cases ho : opens x
  · exact .opened ho
  · obtain ⟨pre, y, post, rfl, hy, hpost⟩ := h
    refine ⟨pre, y, post ++ [x], by simp, hy, fun z hz => ?_⟩
    rcases List.mem_append.mp hz with hz | hz
    · exact hpost z hz
    · obtain rfl := List.mem_singleton.mp hz
      exact ⟨ho, hc⟩

/-- Where an element of `xs ++ [x]` can stand. -/
theorem snoc_eq_append {xs pre post : List α} {x y : α} (h : xs ++ [x] = pre ++ y :: post) :
    (pre = xs ∧ y = x ∧ post = []) ∨ ∃ post', post = post' ++ [x] ∧ xs = pre ++ y :: post' := by
  rcases List.eq_nil_or_concat post with rfl | ⟨post, z, rfl⟩
  · obtain ⟨hpre, hy⟩ := List.append_inj' h rfl
    exact Or.inl ⟨hpre.symm, (List.cons.inj hy).1.symm, rfl⟩
  · rw [List.concat_eq_append] at h ⊢
    rw [← List.cons_append, ← List.append_assoc] at h
    obtain ⟨hpre, hz⟩ := List.append_inj' h rfl
    obtain rfl := (List.cons.inj hz).1
    exact Or.inr ⟨post, rfl, hpre⟩

theorem bracketed_nil : Bracketed opens closes uses [] := by
  intro pre x post h
  simp at h

theorem Bracketed.snoc {xs : List α} {x : α} (h : Bracketed opens closes uses xs)
    (hx : uses x → Inside opens closes xs) : Bracketed opens closes uses (xs ++ [x]) := by
  intro pre y post he hy
  rcases snoc_eq_append he with ⟨rfl, rfl, _⟩ | ⟨post', _, rfl⟩
  · exact hx hy
  · exact h pre y post' rfl hy

/-- A bracket that is open is open in what is kept, unless what opened it is dropped. -/
theorem Inside.filter {xs : List α} (keep : α → Bool) (h : Inside opens closes xs) :
    Inside opens closes (xs.filter keep) ∨
      ∃ pre x post, xs = pre ++ x :: post ∧ opens x ∧ keep x = false ∧
        ∀ y ∈ post, ¬opens y ∧ ¬closes y := by
  obtain ⟨pre, x, post, rfl, hx, hpost⟩ := h
  cases hk : keep x with
  | false => exact Or.inr ⟨pre, x, post, rfl, hx, hk, hpost⟩
  | true =>
    refine Or.inl ⟨pre.filter keep, x, post.filter keep, ?_, hx, fun y hy => ?_⟩
    · rw [List.filter_append, List.filter_cons_of_pos hk]
    · exact hpost y (List.mem_of_mem_filter hy)

theorem inside_map {f : β → α} {xs : List β} :
    Inside opens closes (xs.map f) ↔ Inside (opens ∘ f) (closes ∘ f) xs := by
  constructor
  · rintro ⟨pre, x, post, he, hx, hpost⟩
    obtain ⟨ys, zs, rfl, rfl, hzs⟩ := List.map_eq_append_iff.mp he
    obtain ⟨z, zs, rfl, rfl, rfl⟩ := List.map_eq_cons_iff.mp hzs
    exact ⟨ys, z, zs, rfl, hx, fun y hy => hpost _ (List.mem_map_of_mem hy)⟩
  · rintro ⟨pre, x, post, rfl, hx, hpost⟩
    refine ⟨pre.map f, f x, post.map f, by simp, hx, fun y hy => ?_⟩
    obtain ⟨z, hz, rfl⟩ := List.mem_map.mp hy
    exact hpost z hz

end Transition
