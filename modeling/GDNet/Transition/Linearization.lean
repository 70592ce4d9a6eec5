import Mathlib.Data.List.Sublists
import Mathlib.Data.List.Nodup

/-!
# Linearization points

A concurrent object is called by any number of threads.  Its history holds the
invocation and the return of each call, in the order in which they happened.
`IsLinearization` says what it means for a one-at-a-time execution of the same
calls to explain a history: it has the same calls with the same results, it
keeps the order of calls that did not overlap, and it leads from the first
content to the last.

The way to find one is to mark in each call the step at which it takes effect.
`Log.Ok` is the well-formedness of a history with such marks, and
`Log.Ok.isLinearization` says that the marks, read in order, are a
linearization as soon as they execute.
-/

namespace Transition

/-- A finished or running call: its number, what was asked, what was answered. -/
structure Operation (ω ρ : Type*) where
  id : Nat
  op : ω
  res : ρ

inductive Occurrence (ω ρ : Type*) where
  | invoke (id : Nat) (op : ω)
  | respond (id : Nat) (res : ρ)

/-- The calls in order, each executed alone and giving the result it carries. -/
def executes {ω ρ κ : Type*} (spec : κ → ω → κ × ρ) : κ → List (Operation ω ρ) → κ → Prop
  | q, [], q' => q = q'
  | q, c :: cs, q' => (spec q c.op).2 = c.res ∧ executes spec (spec q c.op).1 cs q'

structure IsLinearization {ω ρ κ : Type*} (spec : κ → ω → κ × ρ) (q q' : κ)
    (history : List (Occurrence ω ρ)) (calls : List (Operation ω ρ)) : Prop where
  /-- The same calls, with the same results. -/
  mem_iff : ∀ c, c ∈ calls ↔
    Occurrence.invoke c.id c.op ∈ history ∧ Occurrence.respond c.id c.res ∈ history
  once : (calls.map Operation.id).Nodup
  executes : executes spec q calls q'
  /-- A call that returned before another one was invoked comes before it. -/
  realTime : ∀ a ∈ calls, ∀ b ∈ calls,
    [Occurrence.respond a.id a.res, Occurrence.invoke b.id b.op].Sublist history →
      [a, b].Sublist calls

/-- Some one-at-a-time execution explains the history. -/
def Linearizable {ω ρ κ : Type*} (spec : κ → ω → κ × ρ) (q q' : κ)
    (history : List (Occurrence ω ρ)) : Prop :=
  ∃ calls, IsLinearization spec q q' history calls

variable {ω ρ κ : Type*} {spec : κ → ω → κ × ρ}

theorem executes_append {q q' q'' : κ} {as bs : List (Operation ω ρ)}
    (ha : executes spec q as q') (hb : executes spec q' bs q'') :
    executes spec q (as ++ bs) q'' := by
  induction as generalizing q with
  | nil => rw [executes] at ha; subst ha; exact hb
  | cons c cs ih => exact ⟨ha.1, ih ha.2⟩

/-- One more call, executed on the content the earlier calls left. -/
theorem executes_snoc {q q' : κ} {as : List (Operation ω ρ)} {c : Operation ω ρ}
    (ha : executes spec q as q') (hc : (spec q' c.op).2 = c.res) :
    executes spec q (as ++ [c]) (spec q' c.op).1 :=
  executes_append ha ⟨hc, rfl⟩

/-- An entry of a history in which the effect of each call is marked. -/
inductive Entry (ω ρ : Type*) where
  | invoke (id : Nat) (op : ω)
  | effect (c : Operation ω ρ)
  | respond (id : Nat) (res : ρ)

namespace Entry

def event? : Entry ω ρ → Option (Occurrence ω ρ)
  | invoke id op => some (.invoke id op)
  | effect _ => none
  | respond id res => some (.respond id res)

def call? : Entry ω ρ → Option (Operation ω ρ)
  | effect c => some c
  | _ => none

end Entry

namespace Log

/-- The history without the marks. -/
def events (log : List (Entry ω ρ)) : List (Occurrence ω ρ) := log.filterMap Entry.event?

/-- The marked calls, in the order of their marks. -/
def calls (log : List (Entry ω ρ)) : List (Operation ω ρ) := log.filterMap Entry.call?

/-- Numbers are fresh, a call takes effect once after it is invoked, and returns
once after it took effect, with the result it took effect with. -/
inductive Ok : List (Entry ω ρ) → Prop where
  | nil : Ok []
  | invoke {log : List (Entry ω ρ)} {id : Nat} {op : ω} (h : Ok log)
      (fresh : ∀ op', Occurrence.invoke id op' ∉ events log) : Ok (log ++ [.invoke id op])
  | effect {log : List (Entry ω ρ)} {c : Operation ω ρ} (h : Ok log)
      (invoked : Occurrence.invoke c.id c.op ∈ events log)
      (once : ∀ c' ∈ calls log, c'.id ≠ c.id) : Ok (log ++ [.effect c])
  | respond {log : List (Entry ω ρ)} {c : Operation ω ρ} (h : Ok log) (effected : c ∈ calls log)
      (once : ∀ res, Occurrence.respond c.id res ∉ events log) : Ok (log ++ [.respond c.id c.res])

@[simp] theorem events_append (as bs : List (Entry ω ρ)) :
    events (as ++ bs) = events as ++ events bs := List.filterMap_append

@[simp] theorem calls_append (as bs : List (Entry ω ρ)) :
    calls (as ++ bs) = calls as ++ calls bs := List.filterMap_append

@[simp] theorem events_invoke (id : Nat) (op : ω) :
    events ([.invoke id op] : List (Entry ω ρ)) = [.invoke id op] := rfl
@[simp] theorem events_effect (c : Operation ω ρ) : events [Entry.effect c] = [] := rfl
@[simp] theorem events_respond (id : Nat) (res : ρ) :
    events ([.respond id res] : List (Entry ω ρ)) = [.respond id res] := rfl
@[simp] theorem calls_invoke (id : Nat) (op : ω) :
    calls ([.invoke id op] : List (Entry ω ρ)) = [] := rfl
@[simp] theorem calls_effect (c : Operation ω ρ) : calls [Entry.effect c] = [c] := rfl
@[simp] theorem calls_respond (id : Nat) (res : ρ) :
    calls ([.respond id res] : List (Entry ω ρ)) = [] := rfl

/-- A call that took effect was invoked. -/
theorem Ok.invoked {log : List (Entry ω ρ)} (h : Ok log) :
    ∀ c ∈ calls log, Occurrence.invoke c.id c.op ∈ events log := by
  induction h with
  | nil => simp [calls]
  | invoke _ _ ih => intro c hc; simp at hc ⊢; exact Or.inl (ih c hc)
  | effect _ hi _ ih =>
    intro c hc
    simp at hc ⊢
    rcases hc with hc | rfl
    · exact ih c hc
    · exact hi
  | respond _ _ _ ih => intro c hc; simp at hc ⊢; exact ih c hc

theorem Ok.once {log : List (Entry ω ρ)} (h : Ok log) :
    ((calls log).map Operation.id).Nodup := by
  induction h with
  | nil => simp [calls]
  | invoke _ _ ih => simpa using ih
  | @effect log c _ _ ho ih =>
    rw [calls_append, calls_effect, List.map_append, List.map_cons, List.map_nil,
      List.nodup_append]
    refine ⟨ih, List.nodup_singleton _, ?_⟩
    intro x hx y hy
    obtain ⟨c', hc', rfl⟩ := List.mem_map.mp hx
    rw [List.mem_singleton.mp hy]
    exact ho c' hc'
  | respond _ _ _ ih => simpa using ih

/-- A number is invoked with one operation only. -/
theorem Ok.invoke_unique {log : List (Entry ω ρ)} (h : Ok log) {id : Nat} {op op' : ω}
    (hi : Occurrence.invoke id op ∈ events log) (hi' : Occurrence.invoke id op' ∈ events log) :
    op = op' := by
  induction h with
  | nil => simp [events] at hi
  | invoke _ hf ih =>
    simp at hi hi'
    rcases hi with hi | ⟨rfl, rfl⟩
    · rcases hi' with hi' | ⟨rfl, rfl⟩
      · exact ih hi hi'
      · exact absurd hi (hf _)
    · rcases hi' with hi' | ⟨_, rfl⟩
      · exact absurd hi' (hf _)
      · rfl
  | effect _ _ _ ih => simp at hi hi'; exact ih hi hi'
  | respond _ _ _ ih => simp at hi hi'; exact ih hi hi'

/-- Two marked calls with one number are one call. -/
theorem Ok.eq_of_id {log : List (Entry ω ρ)} (h : Ok log) {a b : Operation ω ρ}
    (ha : a ∈ calls log) (hb : b ∈ calls log) (e : a.id = b.id) : a = b :=
  List.inj_on_of_nodup_map h.once ha hb e

/-- A call returns only after it took effect, with the result it took effect with. -/
theorem Ok.effected {log : List (Entry ω ρ)} (h : Ok log) {id : Nat} {res : ρ}
    (hr : Occurrence.respond id res ∈ events log) : ∃ c ∈ calls log, c.id = id ∧ c.res = res := by
  induction h with
  | nil => simp [events] at hr
  | invoke _ _ ih => simp at hr ⊢; exact ih hr
  | effect _ _ _ ih =>
    simp at hr
    obtain ⟨c, hc, he⟩ := ih hr
    exact ⟨c, by simp [hc], he⟩
  | @respond log c _ he _ ih =>
    simp at hr
    rcases hr with hr | ⟨rfl, rfl⟩
    · obtain ⟨c, hc, he⟩ := ih hr
      exact ⟨c, by simp [hc], he⟩
    · exact ⟨c, by simpa using he, rfl, rfl⟩

theorem pair_sublist_append_single {β : Type*} {x y z : β} {l : List β}
    (h : [x, y].Sublist (l ++ [z])) : [x, y].Sublist l ∨ (x ∈ l ∧ y = z) := by
  rw [List.sublist_append_iff] at h
  obtain ⟨l₁, l₂, e, h₁, h₂⟩ := h
  match l₁, e with
  | [], e =>
    have := h₂.length_le
    rw [← List.nil_append l₂, ← e] at this
    simp at this
  | [_], e =>
    obtain ⟨rfl, rfl⟩ : _ = x ∧ l₂ = [y] := by simpa [eq_comm] using e
    exact Or.inr ⟨List.singleton_sublist.mp h₁, by simpa using h₂⟩
  | [_, _], e =>
    obtain ⟨rfl, rfl, rfl⟩ : _ = x ∧ _ = y ∧ l₂ = [] := by simpa [eq_comm] using e
    exact Or.inl h₁
  | _ :: _ :: _ :: _, e => simp at e

theorem pair_sublist_snoc {β : Type*} {x y : β} {l : List β} (h : x ∈ l) :
    [x, y].Sublist (l ++ [y]) :=
  (List.singleton_sublist.mpr h).append (List.Sublist.refl [y])

/-- Marks keep the order of calls that did not overlap. -/
theorem Ok.realTime {log : List (Entry ω ρ)} (h : Ok log) :
    ∀ a ∈ calls log, ∀ b ∈ calls log,
      [Occurrence.respond a.id a.res, Occurrence.invoke b.id b.op].Sublist (events log) →
        [a, b].Sublist (calls log) := by
  induction h with
  | nil => simp [calls]
  | @invoke log id op h hf ih =>
    intro a ha b hb hs
    simp only [calls_append, calls_invoke, List.append_nil] at ha hb ⊢
    rw [events_append, events_invoke] at hs
    rcases pair_sublist_append_single hs with hs | ⟨_, he⟩
    · exact ih a ha b hb hs
    · injection he with hid hop
      exact absurd (h.invoked b hb) (hid ▸ hf b.op)
  | @effect log c h hi ho ih =>
    intro a ha b hb hs
    rw [events_append, events_effect, List.append_nil] at hs
    simp only [calls_append, calls_effect, List.mem_append, List.mem_singleton] at ha hb ⊢
    have hra : a ∈ calls log := by
      rcases ha with ha | rfl
      · exact ha
      · obtain ⟨c', hc', e, _⟩ :=
          h.effected (hs.subset List.mem_cons_self : Occurrence.respond a.id a.res ∈ events log)
        exact absurd e (ho c' hc')
    rcases hb with hb | rfl
    · exact (ih a hra b hb hs).trans (List.sublist_append_left _ _)
    · exact pair_sublist_snoc hra
  | @respond log c h he ho ih =>
    intro a ha b hb hs
    simp only [calls_append, calls_respond, List.append_nil] at ha hb ⊢
    rw [events_append, events_respond] at hs
    rcases pair_sublist_append_single hs with hs | ⟨_, he⟩
    · exact ih a ha b hb hs
    · cases he

/-- The marked calls of a well-formed log in which every invoked call returned
explain its history, as soon as they execute. -/
theorem Ok.isLinearization {log : List (Entry ω ρ)} {q q' : κ} (h : Ok log)
    (complete : ∀ id op, Occurrence.invoke id op ∈ events log →
      ∃ res, Occurrence.respond id res ∈ events log)
    (hx : Transition.executes spec q (calls log) q') :
    IsLinearization spec q q' (events log) (calls log) where
  mem_iff c := by
    constructor
    · intro hc
      obtain ⟨res, hr⟩ := complete _ _ (h.invoked c hc)
      obtain ⟨c', hc', e, hres⟩ := h.effected hr
      rw [← hres, h.eq_of_id hc' hc e] at hr
      exact ⟨h.invoked c hc, hr⟩
    · rintro ⟨hi, hr⟩
      obtain ⟨c', hc', e, hres⟩ := h.effected hr
      have hop : c'.op = c.op := h.invoke_unique (h.invoked c' hc') (e ▸ hi)
      obtain ⟨_, _, _⟩ := c
      obtain ⟨_, _, _⟩ := c'
      simp only at e hres hop
      subst e hres hop
      exact hc'
  once := h.once
  executes := hx
  realTime := h.realTime

end Log
end Transition
