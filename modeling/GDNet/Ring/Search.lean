import Mathlib.Data.List.Basic

/-!
# Searching an ordered list from its end

A new item of an ordered list is often one of the last.  The search looks at the
items from the end on and asks at each whether to go on, to stop behind it, or
whether it is the item itself.  Where the answers compare a key with the key looked
for, the place found is the place of that key in the order.
-/

namespace Search

inductive Turn where
  | next
  | stop
  | hit
deriving DecidableEq, Repr

/-- Where a search ended: behind the items `before`, or at the item `here`. -/
inductive Place (α : Type*) where
  | between (before after : List α)
  | found (before : List α) (here : α) (after : List α)

variable {α : Type*}

/-- The list as it was searched. -/
def Place.list : Place α → List α
  | .between before after => before ++ after
  | .found before here after => before ++ here :: after

/-- The items still to look at come in reverse. -/
def searchFrom (turn : α → Turn) : List α → List α → Place α
  | [], after => .between [] after
  | a :: before, after =>
    match turn a with
    | .next => searchFrom turn before (a :: after)
    | .stop => .between (a :: before).reverse after
    | .hit => .found before.reverse a after

def search (turn : α → Turn) (as : List α) : Place α := searchFrom turn as.reverse []

theorem searchFrom_list (turn : α → Turn) (before after : List α) :
    (searchFrom turn before after).list = before.reverse ++ after := by
  induction before generalizing after with
  | nil => rfl
  | cons a before ih =>
    unfold searchFrom
    cases turn a with
    | next =>
      show (searchFrom turn before (a :: after)).list = _
      rw [ih, List.reverse_cons, List.append_assoc]
      rfl
    | stop => rfl
    | hit =>
      show before.reverse ++ a :: after = _
      rw [List.reverse_cons, List.append_assoc]
      rfl

theorem search_list (turn : α → Turn) (as : List α) : (search turn as).list = as := by
  rw [search, searchFrom_list, List.reverse_reverse, List.append_nil]

theorem search_between {turn : α → Turn} {as before after : List α}
    (h : search turn as = .between before after) : as = before ++ after := by
  rw [← search_list turn as, h]
  rfl

theorem search_found {turn : α → Turn} {as before after : List α} {a : α}
    (h : search turn as = .found before a after) : as = before ++ a :: after := by
  rw [← search_list turn as, h]
  rfl

/-! ## Keys -/

def Ordered (key : α → Nat) (as : List α) : Prop := as.Pairwise fun a b => key a < key b

/-- The answer that looks for the key `k`. -/
def compareKey (key : α → Nat) (k : Nat) (a : α) : Turn :=
  if key a < k then .stop else if key a = k then .hit else .next

/-- What the place found says about the keys. -/
def Place.At (key : α → Nat) (k : Nat) : Place α → Prop
  | .between before after => (∀ a ∈ before, key a < k) ∧ ∀ a ∈ after, k < key a
  | .found before here after => (∀ a ∈ before, key a < k) ∧ key here = k ∧ ∀ a ∈ after, k < key a

variable {key : α → Nat} {k : Nat}

theorem searchFrom_at {turn : α → Turn} {before after : List α}
    (hturn : ∀ a ∈ before, turn a = compareKey key k a) (ho : Ordered key (before.reverse ++ after))
    (hafter : ∀ a ∈ after, k < key a) : (searchFrom turn before after).At key k := by
  induction before generalizing after with
  | nil => exact ⟨fun _ ha => absurd ha List.not_mem_nil, hafter⟩
  | cons a before ih =>
    rw [List.reverse_cons, List.append_assoc] at ho
    have hbefore : ∀ b ∈ before.reverse, key b < key a := fun b hb =>
      (List.pairwise_append.mp ho).2.2 b hb a (List.mem_cons_self ..)
    unfold searchFrom
    rw [hturn a (List.mem_cons_self ..)]
    unfold compareKey
    by_cases hlt : key a < k
    · simp only [if_pos hlt]
      refine ⟨fun b hb => ?_, hafter⟩
      rcases List.mem_cons.mp (List.mem_reverse.mp hb) with rfl | hb
      · exact hlt
      · exact Nat.lt_trans (hbefore b (List.mem_reverse.mpr hb)) hlt
    · by_cases heq : key a = k
      · simp only [if_neg hlt, if_pos heq]
        exact ⟨fun b hb => heq ▸ hbefore b hb, heq, hafter⟩
      · simp only [if_neg hlt, if_neg heq]
        refine ih (fun b hb => hturn b (List.mem_cons_of_mem a hb)) ho (fun b hb => ?_)
        rcases List.mem_cons.mp hb with rfl | hb
        · omega
        · exact hafter b hb

/-- In an ordered list the search ends at the place of the key. -/
theorem search_at {turn : α → Turn} {as : List α} (hturn : ∀ a ∈ as, turn a = compareKey key k a)
    (ho : Ordered key as) : (search turn as).At key k := by
  refine searchFrom_at (fun a ha => hturn a (List.mem_reverse.mp ha)) ?_
    (fun _ ha => absurd ha List.not_mem_nil)
  rw [List.reverse_reverse, List.append_nil]
  exact ho

/-- The order is kept by an item put where its key was not found. -/
theorem Ordered.insert {before after : List α} {a : α} (ho : Ordered key (before ++ after))
    (hat : (Place.between before after).At key (key a)) : Ordered key (before ++ a :: after) := by
  obtain ⟨hb, ha, hba⟩ := List.pairwise_append.mp ho
  refine List.pairwise_append.mpr ⟨hb, List.pairwise_cons.mpr ⟨fun b h => hat.2 b h, ha⟩, ?_⟩
  intro b hbm c hc
  rcases List.mem_cons.mp hc with rfl | hc
  · exact hat.1 b hbm
  · exact hba b hbm c hc

end Search
