import GDNet.Queue.Threads

/-!
# One call at a time

With nobody else inside a method, a `GDNetQueue` is a list of at most `SIZE - 1`
items.  `methods` is the queue under any sequence of its methods, `bounded` the
list, and both answer alike at every position of the window in the array.
-/

namespace GDNet
namespace Queue

open Transition

variable {α : Type*} {SIZE : Nat}

/-- The methods that return something, and `clear`. -/
inductive Method (α : Type*) where
  | call (op : Op α)
  | clear

inductive Answer (α : Type*) where
  | returned (r : Result α)
  | deleted (items : List α)

def method (q : Queue α SIZE) : Method α → Queue α SIZE × Answer α
  | .call op => ((q.alone op).1, .returned (q.alone op).2)
  | .clear => (q.clear, .deleted (drain SIZE q).1)

def listMethod (SIZE : Nat) (items : List α) : Method α → List α × Answer α
  | .call op => ((fifo SIZE items op).1, .returned (fifo SIZE items op).2)
  | .clear => ([], .deleted items)

def methods (α : Type*) (SIZE : Nat) : Machine (Queue α SIZE) (Method α) where
  start q := ∃ memory, q = create memory
  step q m := some (q.method m).1

def bounded (α : Type*) (SIZE : Nat) : Machine (List α) (Method α) where
  start items := items = []
  step items m := some (listMethod SIZE items m).1

theorem push_valid {q : Queue α SIZE} (hq : q.Valid) (item : α) : (q.push item).Valid := by
  unfold push
  split
  · exact hq
  · exact hq.write_valid item

theorem pop_valid {q : Queue α SIZE} (hq : q.Valid) : q.pop.2.Valid := by
  unfold pop
  split
  · exact hq
  · exact hq.read_valid

theorem method_valid {q : Queue α SIZE} (hq : q.Valid) (m : Method α) : (q.method m).1.Valid := by
  cases m with
  | clear => exact hq.clear_spec.2
  | call op =>
    cases op with
    | push item => exact push_valid hq item
    | pop => exact pop_valid hq
    | size => exact hq
    | isEmpty => exact hq
    | isFull => exact hq

/-- A method does to the queue what it does to the list. -/
theorem method_list {q : Queue α SIZE} (hq : q.Valid) (m : Method α) :
    listMethod SIZE q.pending m = ((q.method m).1.pending, (q.method m).2) := by
  cases m with
  | call op =>
    have h := alone_fifo hq op
    show ((fifo SIZE q.pending op).1, Answer.returned (fifo SIZE q.pending op).2) = _
    rw [h]
    rfl
  | clear =>
    obtain ⟨hdeleted, _, _⟩ := Valid.drain_eq SIZE hq (Nat.le_of_lt hq.pending_length_lt)
    show ([], Answer.deleted q.pending) = (q.clear.pending, Answer.deleted (drain SIZE q).1)
    rw [hq.clear_spec.1, hdeleted]

theorem methods_valid {q : Queue α SIZE} (hS : 0 < SIZE) (h : (methods α SIZE).Reachable q) :
    q.Valid := by
  have h₀ : ∀ q, (methods α SIZE).start q → q.Valid := by
    rintro q ⟨memory, rfl⟩
    exact create_valid hS memory
  exact h.invariant h₀ fun q m t hq hst => Option.some.inj hst ▸ method_valid hq m

/-- Any sequence of methods on a new queue answers as it does on the empty list. -/
theorem methods_refine (hS : 0 < SIZE) (memory : Nat → α) (ms : List (Method α))
    {q : Queue α SIZE} (hr : (methods α SIZE).run (create memory) ms = some q) :
    (bounded α SIZE).run [] ms = some q.pending ∧
    (methods α SIZE).trace (fun q m => [(q.method m).2]) (create memory) ms =
      (bounded α SIZE).trace (fun items m => [(listMethod SIZE items m).2]) [] ms := by
  have hstep : ∀ (q : Queue α SIZE) (items : List α) (m : Method α) (t : Queue α SIZE),
      (q.Valid ∧ items = q.pending) → (methods α SIZE).step q m = some t →
      ∃ items', (bounded α SIZE).step items m = some items' ∧ (t.Valid ∧ items' = t.pending) ∧
        [(q.method m).2] = [(listMethod SIZE items m).2] := by
    rintro q items m t ⟨hq, rfl⟩ hst
    obtain rfl := Option.some.inj hst
    have h := method_list hq m
    refine ⟨_, rfl, ⟨method_valid hq m, ?_⟩, ?_⟩
    · exact congrArg Prod.fst h
    · rw [h]
  obtain ⟨items, hrun, ⟨_, hitems⟩, htrace⟩ := Machine.run_refines hstep
    ⟨create_valid hS memory, (pending_create memory).symm⟩ hr
  exact ⟨hitems ▸ hrun, htrace⟩

/-- Called one at a time, the methods are those of a list with `SIZE - 1` places,
wherever its items are in the array and however often they went around. -/
theorem queue_fifo (hS : 0 < SIZE) (memory : Nat → α) (ms : List (Method α)) :
    ∃ q : Queue α SIZE, (methods α SIZE).run (create memory) ms = some q ∧
      (bounded α SIZE).run [] ms = some q.pending ∧
      (methods α SIZE).trace (fun q m => [(q.method m).2]) (create memory) ms =
        (bounded α SIZE).trace (fun items m => [(listMethod SIZE items m).2]) [] ms ∧
      (q.readPos < SIZE ∧ q.writePos < SIZE) ∧ q.size = q.pending.length ∧
      (q.isEmpty = true ↔ q.size = 0) ∧ (q.isFull = true ↔ q.size = SIZE - 1) ∧
      (q.isFull = true → ∀ item, q.push item = q) ∧ (q.isEmpty = true → q.pop = (none, q)) ∧
      (q.isFull = false → ∀ item, (q.push item).pending = q.pending ++ [item]) ∧
      (q.isEmpty = false → ∃ item, q.pop.1 = some item ∧ q.pending = item :: q.pop.2.pending) ∧
      (∀ fuel, q.size ≤ fuel → (drain fuel q).1 = q.pending ∧ (drain fuel q).2.isEmpty = true) := by
  have hrun : ∀ (ms : List (Method α)) (q : Queue α SIZE),
      ∃ t, (methods α SIZE).run q ms = some t := by
    intro ms
    induction ms with
    | nil => exact fun q => ⟨q, rfl⟩
    | cons m ms ih =>
      intro q
      obtain ⟨t, ht⟩ := ih (q.method m).1
      exact ⟨t, Machine.run_cons.mpr ⟨_, rfl, ht⟩⟩
  obtain ⟨q, hr⟩ := hrun ms (create memory)
  have hq : q.Valid := methods_valid hS (Machine.Reachable.run (.start ⟨memory, rfl⟩) hr)
  have hsize := hq.size_eq
  obtain ⟨hlist, htrace⟩ := methods_refine hS memory ms hr
  refine ⟨q, hr, hlist, htrace, ⟨hq.readPos_lt, hq.writePos_lt⟩, hsize, ?_, ?_, ?_, ?_, ?_, ?_, ?_⟩
  · rw [hq.isEmpty_iff, hsize, List.length_eq_zero_iff]
  · rw [hq.isFull_iff, hsize]
    omega
  · exact fun hf item => if_pos hf
  · exact fun he => if_pos he
  · intro hf item
    rw [push, hf]
    exact hq.pending_write item hf
  · intro he
    rw [pop, he]
    exact ⟨q.front, rfl, hq.pending_read he⟩
  · intro fuel hfuel
    obtain ⟨hdeleted, hempty, hvalid⟩ := Valid.drain_eq fuel hq (hsize ▸ hfuel)
    exact ⟨hdeleted, hvalid.isEmpty_iff.mpr hempty⟩

/-- Five calls on an array of four cells, which the items go around. -/
def aroundCalls : List (Method Nat) :=
  [.call (.push 5), .call (.push 7), .call .pop, .call (.push 9), .call (.push 11)]

theorem queue_fifo_around :
    ∃ q : Queue Nat 4, (methods Nat 4).run (create id) aroundCalls = some q ∧
      (bounded Nat 4).run [] aroundCalls = some q.pending ∧ q.pending = [7, 9, 11] ∧
      q.isFull = true ∧ (drain 3 q).1 = [7, 9, 11] := by
  obtain ⟨q, hr, hlist, _, _, hsize, _, hfull, _, _, _, _, hdrain⟩ :=
    queue_fifo (by decide : 0 < 4) id aroundCalls
  have hpending : q.pending = [7, 9, 11] := by
    obtain rfl := Option.some.inj hr
    rfl
  have hthree : q.size = 3 := by rw [hsize, hpending, List.length_cons, List.length_cons,
    List.length_cons, List.length_nil]
  refine ⟨q, hr, hlist, hpending, hfull.mpr hthree, ?_⟩
  rw [(hdrain 3 (Nat.le_of_eq hthree)).1, hpending]

end Queue
end GDNet
