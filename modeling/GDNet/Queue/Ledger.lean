import GDNet.Queue.Basic
import GDNet.Transition.Custody

/-!
# The objects of a queue

A queue holds pointers.  The ledger numbers the objects that are made for it and
says where each of them is: with the thread that made it and has not pushed it,
in a cell of the queue, with the thread that popped it, deleted, or returned to the
caller of the program.  A pointer that is dropped leaves its object nowhere.

The cells of the ledger are those of the queue, with numbers in place of items.
-/

namespace GDNet

open Transition

structure Ledger (SIZE : Nat) where
  /-- How many objects were made. -/
  made : Nat
  /-- The object that is made and not pushed. -/
  hand : Option Nat
  queue : Queue Nat SIZE
  /-- The object that is popped and not deleted. -/
  taken : Option Nat
  deleted : List Nat
  returned : List Nat

namespace Ledger

variable {SIZE : Nat} {l l' : Ledger SIZE}

def create (memory : Nat → Nat) : Ledger SIZE := ⟨0, none, .create memory, none, [], []⟩

def make (l : Ledger SIZE) : Ledger SIZE := { l with made := l.made + 1, hand := some l.made }

/-- The only pointer to an object goes. -/
def abandon (l : Ledger SIZE) : Ledger SIZE := { l with hand := none }

def write (l : Ledger SIZE) : Ledger SIZE :=
  match l.hand with
  | none => l
  | some i => { l with hand := none, queue := l.queue.write i }

def read (l : Ledger SIZE) : Ledger SIZE :=
  { l with taken := some l.queue.front, queue := l.queue.read }

/-- `memdelete` of what was popped. -/
def delete (l : Ledger SIZE) : Ledger SIZE :=
  { l with taken := none, deleted := l.taken.toList ++ l.deleted }

/-- The caller gets what was popped. -/
def give (l : Ledger SIZE) : Ledger SIZE :=
  { l with taken := none, returned := l.taken.toList ++ l.returned }

def clear (l : Ledger SIZE) : Ledger SIZE :=
  { l with queue := l.queue.clear, deleted := (Queue.drain SIZE l.queue).1 ++ l.deleted }

/-- The queue goes, with the pointers in its cells. -/
def destroy (l : Ledger SIZE) : Ledger SIZE := { l with queue := .create l.queue.items }

/-- The objects that no thread has in its hands. -/
def settled (l : Ledger SIZE) : List Nat := l.queue.pending ++ (l.deleted ++ l.returned)

def places (l : Ledger SIZE) : List Nat := l.hand.toList ++ (l.taken.toList ++ l.settled)

/-- Every object that was made is in one of the places, once. -/
def Accounted (l : Ledger SIZE) : Prop := l.settled.Perm (List.range l.made)

def InCustody (l : Ledger SIZE) : Prop := Custody l.made l.places

/-- How many objects are nowhere. -/
def missing (l : Ledger SIZE) : Nat := l.made - l.places.length

theorem places_settled (hh : l.hand = none) (ht : l.taken = none) : l.places = l.settled := by
  rw [places, hh, ht]
  rfl

theorem InCustody.accounted_iff (h : l.InCustody) (hh : l.hand = none) (ht : l.taken = none) :
    l.Accounted ↔ l.missing = 0 := by
  have hlen := h.length_le
  have hall := h.all_iff
  rw [places_settled hh ht] at hlen hall
  rw [Accounted, hall, missing, places_settled hh ht]
  omega

/-! ## What an operation does to the objects -/

/-- `lost` objects get lost, and no object is at two places. -/
structure Moves (l l' : Ledger SIZE) (lost : Nat) : Prop where
  custody : l.InCustody → l'.InCustody
  balance : l'.made + l.places.length = l.made + l'.places.length + lost

theorem Moves.missing {lost : Nat} (h : Moves l l' lost) (hc : l.InCustody) :
    l'.missing = l.missing + lost := by
  have hlen := Custody.length_le hc
  have hlen' := Custody.length_le (h.custody hc)
  have hbalance := h.balance
  unfold Ledger.missing
  omega

theorem Moves.refl (l : Ledger SIZE) : Moves l l 0 := ⟨id, rfl⟩

theorem Moves.trans {l'' : Ledger SIZE} {m n : Nat} (h : Moves l l' m) (h' : Moves l' l'' n) :
    Moves l l'' (m + n) := by
  refine ⟨fun hc => h'.custody (h.custody hc), ?_⟩
  have h₁ := h.balance
  have h₂ := h'.balance
  omega

theorem Moves.of_perm (hm : l'.made = l.made) (hp : l'.places.Perm l.places) : Moves l l' 0 := by
  refine ⟨fun hc => ?_, ?_⟩
  · unfold InCustody
    rw [hm]
    exact Custody.move hc hp
  · rw [hm, hp.length_eq]
    rfl

theorem make_moves (hh : l.hand = none) : Moves l l.make 0 := by
  have hp : l.make.places = l.made :: l.places := by
    rw [places, places, hh]
    rfl
  refine ⟨fun hc => ?_, ?_⟩
  · unfold InCustody
    rw [hp]
    exact Custody.make hc
  · rw [hp, List.length_cons]
    show l.made + 1 + _ = _
    omega

theorem abandon_moves (hh : l.hand.isSome) : Moves l l.abandon 1 := by
  obtain ⟨i, hi⟩ := Option.isSome_iff_exists.mp hh
  have hp : l.places = i :: l.abandon.places := by
    rw [places, places, hi]
    rfl
  refine ⟨fun hc => ?_, ?_⟩
  · unfold InCustody at hc
    rw [hp] at hc
    exact Custody.drop hc
  · rw [hp, List.length_cons]
    show l.made + _ = l.made + _ + 1
    omega

theorem write_moves (hv : l.queue.Valid) (hf : l.queue.isFull = false) : Moves l l.write 0 := by
  unfold write
  split
  · exact .refl l
  · next i hi =>
    refine .of_perm rfl ?_
    unfold places settled
    rw [hi, hv.pending_write i hf]
    simp only [Option.toList_some, Option.toList_none, List.nil_append, List.append_assoc]
    -- The object goes from the front to where the pending ones end.
    have hpast := List.perm_append_comm_assoc [i] (l.taken.toList ++ l.queue.pending)
      (l.deleted ++ l.returned)
    simpa only [List.append_assoc] using hpast.symm

theorem read_moves (hv : l.queue.Valid) (he : l.queue.isEmpty = false) (ht : l.taken = none) :
    Moves l l.read 0 := by
  refine .of_perm rfl (List.Perm.of_eq ?_)
  unfold places settled read
  rw [ht, hv.pending_read he]
  rfl

theorem delete_moves (l : Ledger SIZE) : Moves l l.delete 0 := by
  refine .of_perm rfl ?_
  unfold places settled delete
  refine List.Perm.append_left _ ?_
  have hpast := List.perm_append_comm_assoc l.taken.toList l.queue.pending (l.deleted ++ l.returned)
  simpa only [Option.toList_none, List.nil_append, List.append_assoc] using hpast.symm

theorem give_moves (l : Ledger SIZE) : Moves l l.give 0 := by
  refine .of_perm rfl ?_
  unfold places settled give
  refine List.Perm.append_left _ ?_
  have hpast := List.perm_append_comm_assoc l.taken.toList (l.queue.pending ++ l.deleted) l.returned
  simpa only [Option.toList_none, List.nil_append, List.append_assoc] using hpast.symm

theorem clear_moves (hv : l.queue.Valid) : Moves l l.clear 0 := by
  obtain ⟨hdrain, _, _⟩ := hv.drain_eq SIZE (Nat.le_of_lt hv.pending_length_lt)
  refine .of_perm rfl (List.Perm.of_eq ?_)
  unfold places settled clear
  show _ ++ (_ ++ (l.queue.clear.pending ++ _)) = _
  rw [hv.clear_spec.1, hdrain, List.nil_append, List.append_assoc]

/-- With the queue go the objects that are pending. -/
theorem destroy_moves (hp : l.queue.pending = []) : Moves l l.destroy 0 := by
  refine .of_perm rfl (List.Perm.of_eq ?_)
  unfold places settled destroy
  rw [hp, Queue.pending_create]

end Ledger

/-! ## Two queues in step -/

namespace Queue

variable {α β : Type*} {SIZE : Nat}

/-- The positions of the two queues agree. -/
structure Aligned (q : Queue α SIZE) (q' : Queue β SIZE) : Prop where
  readPos : q.readPos = q'.readPos
  writePos : q.writePos = q'.writePos

namespace Aligned

variable {q : Queue α SIZE} {q' : Queue β SIZE} (h : Aligned q q')
include h

theorem isEmpty : q.isEmpty = q'.isEmpty := by
  rw [Queue.isEmpty, Queue.isEmpty, h.readPos, h.writePos]

theorem isFull : q.isFull = q'.isFull := by
  rw [Queue.isFull, Queue.isFull, h.readPos, h.writePos]

theorem valid (hv : q'.Valid) : q.Valid :=
  ⟨h.readPos ▸ hv.readPos_lt, h.writePos ▸ hv.writePos_lt⟩

theorem pending_nil (hp : q'.pending = []) : q.pending = [] := by
  have hlen : q.pending.length = q'.pending.length := by
    rw [pending_length, pending_length, h.readPos, h.writePos]
  rw [hp] at hlen
  exact List.length_eq_zero_iff.mp hlen

theorem write (x : α) (y : β) : Aligned (q.write x) (q'.write y) :=
  ⟨h.readPos, by rw [Queue.write, Queue.write, h.writePos]⟩

theorem read : Aligned q.read q'.read :=
  ⟨by rw [Queue.read, Queue.read, h.readPos], h.writePos⟩

omit h in
theorem drain : ∀ (fuel : Nat) {q : Queue α SIZE} {q' : Queue β SIZE}, Aligned q q' →
    Aligned (Queue.drain fuel q).2 (Queue.drain fuel q').2 := by
  intro fuel
  induction fuel with
  | zero => exact fun h => h
  | succ fuel ih =>
    intro q q' h
    rw [Queue.drain, Queue.drain, h.isEmpty]
    split
    · exact h
    · exact ih h.read

theorem clear : Aligned q.clear q'.clear := drain SIZE h

end Aligned
end Queue
end GDNet
