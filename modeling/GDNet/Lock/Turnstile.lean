import Mathlib.Logic.Function.Basic
import GDNet.Transition.Machine

/-!
# The two-mutex turnstile

`acquireMutex` locks `_accessMutex`, locks `_hostMutex` and unlocks
`_accessMutex` again; `releaseMutex` unlocks `_hostMutex`.  A thread that waits
for the host holds the access mutex meanwhile, so the thread that leaves cannot
come back before it.

The machine runs any number of threads, each of them repeating the pair around a
critical section.  `Inv` ties the owners of the two mutexes to the places of the
threads, and the three properties of the lock follow from it: mutual exclusion,
no overtaking of a thread behind the turnstile, and no deadlock.
-/

namespace GDNet
namespace Turnstile

open Transition

/-- Where a thread is in `acquireMutex`, its critical section, `releaseMutex`. -/
inductive Place where
  | outside
  /-- About to lock `_accessMutex`. -/
  | access
  /-- Holds `_accessMutex`, about to lock `_hostMutex`. -/
  | host
  /-- Holds both, about to unlock `_accessMutex`. -/
  | pass
  /-- `acquireMutex` has returned and `releaseMutex` has not unlocked yet. -/
  | critical
deriving DecidableEq

structure State (τ : Type*) where
  accessMutex : Option τ
  hostMutex : Option τ
  place : τ → Place

variable {τ : Type*} [DecidableEq τ]

namespace State

def move (s : State τ) (t : τ) (p : Place) : State τ :=
  { s with place := Function.update s.place t p }

end State

/-- The next step of a thread; `lock` waits while the mutex is owned. -/
def step (s : State τ) (t : τ) : Option (State τ) :=
  match s.place t with
  | .outside => some (s.move t .access)
  | .access =>
    if s.accessMutex = none then some ({ s with accessMutex := some t }.move t .host) else none
  | .host =>
    if s.hostMutex = none then some ({ s with hostMutex := some t }.move t .pass) else none
  | .pass => some ({ s with accessMutex := none }.move t .critical)
  | .critical => some ({ s with hostMutex := none }.move t .outside)

def machine (τ : Type*) [DecidableEq τ] : Machine (State τ) τ where
  start s := s.accessMutex = none ∧ s.hostMutex = none ∧ ∀ t, s.place t = .outside
  step := step

/-- A thread owns a mutex exactly where the code says so. -/
structure Inv (s : State τ) : Prop where
  access : ∀ t, s.accessMutex = some t ↔ s.place t = .host ∨ s.place t = .pass
  host : ∀ t, s.hostMutex = some t ↔ s.place t = .pass ∨ s.place t = .critical

theorem step_cases {s s' : State τ} {t : τ} (h : step s t = some s') :
    (s.place t = .outside ∧ s' = s.move t .access) ∨
    (s.place t = .access ∧ s.accessMutex = none ∧
      s' = { s with accessMutex := some t }.move t .host) ∨
    (s.place t = .host ∧ s.hostMutex = none ∧
      s' = { s with hostMutex := some t }.move t .pass) ∨
    (s.place t = .pass ∧ s' = { s with accessMutex := none }.move t .critical) ∨
    (s.place t = .critical ∧ s' = { s with hostMutex := none }.move t .outside) := by
  rw [step] at h
  cases hp : s.place t <;> rw [hp] at h <;> simp only [Option.ite_none_right_eq_some] at h
  · exact Or.inl ⟨rfl, (Option.some.inj h).symm⟩
  · exact Or.inr (Or.inl ⟨rfl, h.1, (Option.some.inj h.2).symm⟩)
  · exact Or.inr (Or.inr (Or.inl ⟨rfl, h.1, (Option.some.inj h.2).symm⟩))
  · exact Or.inr (Or.inr (Or.inr (Or.inl ⟨rfl, (Option.some.inj h).symm⟩)))
  · exact Or.inr (Or.inr (Or.inr (Or.inr ⟨rfl, (Option.some.inj h).symm⟩)))

omit [DecidableEq τ] in
theorem start_inv {s : State τ} (ha : s.accessMutex = none) (hh : s.hostMutex = none)
    (hp : ∀ t, s.place t = .outside) : Inv s where
  access t := by simp [ha, hp t]
  host t := by simp [hh, hp t]

theorem step_inv {s s' : State τ} {t : τ} (hi : Inv s) (h : step s t = some s') : Inv s' := by
  have hat := hi.access t
  have hht := hi.host t
  -- A mutex that changes hands was free or belonged to the thread that moved.
  rcases step_cases h with ⟨hp, rfl⟩ | ⟨hp, hfree, rfl⟩ | ⟨hp, hfree, rfl⟩ | ⟨hp, rfl⟩ | ⟨hp, rfl⟩
  all_goals
    refine ⟨fun u => ?_, fun u => ?_⟩
    all_goals
      have hau := hi.access u
      have hhu := hi.host u
      by_cases hut : u = t
      · subst hut
        simp_all [State.move]
      · have htu : t ≠ u := fun e => hut e.symm
        simp_all [State.move]

theorem reachable_inv {s : State τ} (h : (machine τ).Reachable s) : Inv s := by
  have h₀ : ∀ s, (machine τ).start s → Inv s := fun s h => start_inv h.1 h.2.1 h.2.2
  exact h.invariant h₀ fun _ _ _ => step_inv

omit [DecidableEq τ] in
/-- A mutex that no thread is at a place to own is free. -/
theorem Inv.access_free {s : State τ} (hi : Inv s)
    (h : ∀ t, ¬(s.place t = .host ∨ s.place t = .pass)) : s.accessMutex = none :=
  Option.eq_none_iff_forall_ne_some.mpr fun t ht => h t ((hi.access t).mp ht)

omit [DecidableEq τ] in
theorem Inv.host_free {s : State τ} (hi : Inv s)
    (h : ∀ t, ¬(s.place t = .pass ∨ s.place t = .critical)) : s.hostMutex = none :=
  Option.eq_none_iff_forall_ne_some.mpr fun t ht => h t ((hi.host t).mp ht)

omit [DecidableEq τ] in
/-- Mutual exclusion. -/
theorem Inv.critical_unique {s : State τ} (hi : Inv s) {t u : τ} (ht : s.place t = .critical)
    (hu : s.place u = .critical) : t = u :=
  Option.some.inj (((hi.host t).mpr (Or.inr ht)).symm.trans ((hi.host u).mpr (Or.inr hu)))

/-- A thread inside the pair can step, or the owner of the mutex it waits for can. -/
theorem Inv.not_stuck {s : State τ} (hi : Inv s) {t : τ} (ht : s.place t ≠ .outside) :
    ∃ u, s.place u ≠ .outside ∧ (step s u).isSome := by
  have hcrit : ∀ u, s.place u = .critical → (step s u).isSome := by
    intro u hu; rw [step, hu]; rfl
  have hpass : ∀ u, s.place u = .pass → (step s u).isSome := by
    intro u hu; rw [step, hu]; rfl
  have hhost : ∀ u, s.place u = .host → ∃ v, s.place v ≠ .outside ∧ (step s v).isSome := by
    intro u hu
    cases hm : s.hostMutex with
    | none => exact ⟨u, by simp [hu], by simp [step, hu, hm]⟩
    | some v =>
      rcases (hi.host v).mp hm with hv | hv
      · exact ⟨v, by simp [hv], hpass v hv⟩
      · exact ⟨v, by simp [hv], hcrit v hv⟩
  cases hp : s.place t with
  | outside => exact absurd hp ht
  | host => exact hhost t hp
  | pass => exact ⟨t, ht, hpass t hp⟩
  | critical => exact ⟨t, ht, hcrit t hp⟩
  | access =>
    cases hm : s.accessMutex with
    | none => exact ⟨t, ht, by simp [step, hp, hm]⟩
    | some u =>
      rcases (hi.access u).mp hm with hu | hu
      · exact hhost u hu
      · exact ⟨u, by simp [hu], hpass u hu⟩

/-- The threads whose `acquireMutex` returns in a step. -/
def enters (s : State τ) (t : τ) : List τ :=
  if s.place t = .pass then [t] else []

/-- While a thread owns the access mutex every other step leaves it there. -/
theorem owner_kept {s s' : State τ} {t u : τ} (ht : s.accessMutex = some t)
    (h : step s u = some s') (hu : enters s u = []) : s'.accessMutex = some t := by
  rcases step_cases h with ⟨_, rfl⟩ | ⟨_, hfree, rfl⟩ | ⟨_, _, rfl⟩ | ⟨hp, rfl⟩ | ⟨_, rfl⟩
  · exact ht
  · rw [ht] at hfree; cases hfree
  · exact ht
  · rw [enters, if_pos hp] at hu; cases hu
  · exact ht

/-- No overtaking: a thread behind the turnstile is the next one in. -/
theorem first_enters {s s' : State τ} {t : τ} {us : List τ} (hi : Inv s)
    (ht : s.accessMutex = some t) (hr : (machine τ).run s us = some s') {u : τ} {rest : List τ}
    (hu : (machine τ).trace enters s us = u :: rest) : u = t := by
  induction us generalizing s with
  | nil => cases hu
  | cons v vs ih =>
    obtain ⟨w, hw, hr⟩ := Machine.run_cons.mp hr
    rw [Machine.trace_cons vs hw] at hu
    by_cases hp : s.place v = .pass
    · rw [enters, if_pos hp] at hu
      obtain rfl : v = u := (List.cons.inj hu).1
      exact Option.some.inj (((hi.access v).mpr (Or.inr hp)).symm.trans ht)
    · have hne : enters s v = [] := by rw [enters, if_neg hp]
      rw [hne, List.nil_append] at hu
      exact ih (step_inv hi hw) (owner_kept ht hw hne) hr hu

/-- The turnstile is correct: in every reachable state of any number of threads at
most one is in the critical section, a thread that owns the access mutex is the
next to enter it in every continuation, and while some thread is inside the pair
one of those inside it can step. -/
theorem turnstile_correct {s : State τ} (h : (machine τ).Reachable s) :
    (∀ t u, s.place t = .critical → s.place u = .critical → t = u) ∧
    (∀ t us s', s.accessMutex = some t → (machine τ).run s us = some s' →
      ∀ u rest, (machine τ).trace enters s us = u :: rest → u = t) ∧
    ((∃ t, s.place t ≠ .outside) →
      ∃ u, s.place u ≠ .outside ∧ ((machine τ).step s u).isSome) := by
  have hi := reachable_inv h
  refine ⟨fun t u => hi.critical_unique, ?_, ?_⟩
  · intro t us s' ht hr u rest hu
    exact first_enters hi ht hr hu
  · rintro ⟨t, ht⟩
    exact hi.not_stuck ht

/-- Three threads: one inside, one behind the turnstile, one in front of it. -/
def threeSteps : List (Fin 3) := [0, 0, 0, 0, 1, 1, 2]

theorem turnstile_correct_three :
    ∃ s, (machine (Fin 3)).run ⟨none, none, fun _ => .outside⟩ threeSteps = some s ∧
      s.place 0 = .critical ∧ s.accessMutex = some 1 ∧
      (∀ us s', (machine (Fin 3)).run s us = some s' →
        ∀ u rest, (machine (Fin 3)).trace enters s us = u :: rest → u = 1) := by
  have hr : ((machine (Fin 3)).run ⟨none, none, fun _ => .outside⟩ threeSteps).isSome := by decide
  obtain ⟨s, hs⟩ := Option.isSome_iff_exists.mp hr
  have hp : ((machine (Fin 3)).run ⟨none, none, fun _ => .outside⟩ threeSteps).map
      (fun s => (s.place 0, s.accessMutex)) = some (.critical, some 1) := by decide
  rw [hs] at hp
  obtain ⟨h₀, h₁⟩ := Prod.mk.inj (Option.some.inj hp)
  exact ⟨s, hs, h₀, h₁, fun us s' =>
    (turnstile_correct ⟨_, _, ⟨rfl, rfl, fun _ => rfl⟩, hs⟩).2.1 1 us s' h₁⟩

end Turnstile
end GDNet
