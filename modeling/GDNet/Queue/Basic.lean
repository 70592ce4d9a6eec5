import GDNet.Ring.Window

/-!
# The message and event queues

`GDNetQueue` is a ring of `SIZE` pointers with a read and a write position, one
cell kept free.  Every method body is one or two blocks between `mutex->lock`
and `mutex->unlock`, and each block is a definition here: `push` is `isFull`
followed by `write`, `pop` is `isEmpty` followed by `read`.

`pending` is what the queue holds, oldest item first.  Each block has one lemma
that says what it does to `pending`, and nothing else looks at the positions.
-/

namespace GDNet

structure Queue (α : Type*) (SIZE : Nat) where
  items : Nat → α
  readPos : Nat
  writePos : Nat

namespace Queue

variable {α : Type*} {SIZE : Nat}

/-- The constructor.  It leaves the cells as they were in memory. -/
def create (memory : Nat → α) : Queue α SIZE :=
  { items := memory, readPos := 0, writePos := 0 }

def isEmpty (q : Queue α SIZE) : Bool := q.readPos == q.writePos

def isFull (q : Queue α SIZE) : Bool := (q.writePos + 1) % SIZE == q.readPos

def size (q : Queue α SIZE) : Nat :=
  if q.writePos > q.readPos then q.writePos - q.readPos
  else if q.writePos < q.readPos then SIZE - q.readPos + q.writePos
  else 0

/-- The second block of `push`. -/
def write (q : Queue α SIZE) (item : α) : Queue α SIZE :=
  { q with
    items := fun i => if i = q.writePos then item else q.items i
    writePos := (q.writePos + 1) % SIZE }

/-- The cell the second block of `pop` returns. -/
def front (q : Queue α SIZE) : α := q.items q.readPos

/-- The second block of `pop`. -/
def read (q : Queue α SIZE) : Queue α SIZE :=
  { q with readPos := (q.readPos + 1) % SIZE }

/-- `push` called alone. -/
def push (q : Queue α SIZE) (item : α) : Queue α SIZE :=
  if q.isFull then q else q.write item

/-- `pop` called alone; `none` is `NULL`. -/
def pop (q : Queue α SIZE) : Option α × Queue α SIZE :=
  if q.isEmpty then (none, q) else (some q.front, q.read)

/-- At most `fuel` turns of the loop of `clear`, with the items it deletes. -/
def drain : Nat → Queue α SIZE → List α × Queue α SIZE
  | 0, q => ([], q)
  | fuel + 1, q =>
    if q.isEmpty then ([], q)
    else ((drain fuel q.read).1.cons q.front, (drain fuel q.read).2)

/-- The positions are cells of the array. -/
structure Valid (q : Queue α SIZE) : Prop where
  readPos_lt : q.readPos < SIZE
  writePos_lt : q.writePos < SIZE

def pending (q : Queue α SIZE) : List α :=
  Ring.window q.items SIZE q.readPos (Ring.span SIZE q.readPos q.writePos)

theorem create_valid (h : 0 < SIZE) (memory : Nat → α) :
    (create memory : Queue α SIZE).Valid := ⟨h, h⟩

@[simp] theorem pending_create (memory : Nat → α) :
    (create memory : Queue α SIZE).pending = [] := by
  simp [pending, create, Ring.window]

theorem pending_length (q : Queue α SIZE) :
    q.pending.length = Ring.span SIZE q.readPos q.writePos := Ring.window_length _ _ _ _

namespace Valid

variable {q : Queue α SIZE} (hq : q.Valid)
include hq

theorem pending_length_lt : q.pending.length < SIZE := by
  rw [pending_length]
  exact Ring.span_lt hq.readPos_lt hq.writePos_lt

theorem isEmpty_iff : q.isEmpty = true ↔ q.pending = [] := by
  rw [isEmpty, beq_iff_eq, ← Ring.span_eq_zero hq.readPos_lt, ← pending_length,
    List.length_eq_zero_iff]

theorem isFull_iff : q.isFull = true ↔ q.pending.length + 1 = SIZE := by
  rw [isFull, beq_iff_eq, pending_length, Ring.span_eq_pred hq.readPos_lt hq.writePos_lt]

theorem size_eq : q.size = q.pending.length := by
  have := hq.readPos_lt
  rw [pending_length, size, Ring.span]
  split
  · rw [if_pos (by omega)]
  · split
    · rw [if_neg (by omega)]
    · rw [if_pos (by omega)]
      omega

theorem write_valid (item : α) : (q.write item).Valid :=
  ⟨hq.readPos_lt, Nat.mod_lt _ (Nat.lt_of_le_of_lt (Nat.zero_le _) hq.readPos_lt)⟩

theorem read_valid : q.read.Valid :=
  ⟨Nat.mod_lt _ (Nat.lt_of_le_of_lt (Nat.zero_le _) hq.readPos_lt), hq.writePos_lt⟩

/-- A write into a queue that is not full appends. -/
theorem pending_write (item : α) (h : q.isFull = false) :
    (q.write item).pending = q.pending ++ [item] := by
  have hlt := hq.pending_length_lt
  have hfull : q.pending.length + 1 ≠ SIZE := by
    rw [Ne, ← hq.isFull_iff, h]
    exact Bool.false_ne_true
  rw [pending_length] at hlt hfull
  rw [pending, pending]
  show Ring.window (fun i => if i = q.writePos then item else q.items i) SIZE q.readPos
    (Ring.span SIZE q.readPos ((q.writePos + 1) % SIZE)) = _
  rw [Ring.span_succ_right hq.readPos_lt hq.writePos_lt (by omega),
    Ring.window_snoc _ _ hq.readPos_lt hq.writePos_lt rfl (by omega), if_pos rfl,
    Ring.window_update item _ _ hq.readPos_lt hq.writePos_lt (Nat.le_refl _)]

/-- A read from a queue that is not empty removes the oldest item. -/
theorem pending_read (h : q.isEmpty = false) : q.pending = q.front :: q.read.pending := by
  have hne : q.pending ≠ [] := by
    rw [Ne, ← hq.isEmpty_iff, h]
    exact Bool.false_ne_true
  have hspan : Ring.span SIZE q.readPos q.writePos ≠ 0 := by
    rw [← pending_length]
    exact fun e => hne (List.length_eq_zero_iff.mp e)
  rw [pending, ← Ring.span_succ_left hq.readPos_lt hq.writePos_lt hspan, Ring.window_succ]
  rfl

theorem pending_ne_nil (h : q.isEmpty = false) : q.pending ≠ [] := by
  rw [hq.pending_read h]
  exact List.cons_ne_nil _ _

/-- A read from an empty queue makes it read as full. -/
theorem pending_read_empty (h : q.isEmpty = true) : q.read.pending.length + 1 = SIZE := by
  rw [isEmpty, beq_iff_eq] at h
  rw [pending_length]
  show Ring.span SIZE ((q.readPos + 1) % SIZE) q.writePos + 1 = SIZE
  rw [← h]
  exact Ring.span_overrun hq.readPos_lt

end Valid

/-- A write into a full queue makes it read as empty. -/
theorem isEmpty_write_full {q : Queue α SIZE} (item : α) (h : q.isFull = true) :
    (q.write item).isEmpty = true := by
  rw [isFull, beq_iff_eq] at h
  rw [isEmpty, beq_iff_eq]
  exact h.symm

/-- The loop of `clear` deletes every pending item once and stops. -/
theorem Valid.drain_eq : ∀ (fuel : Nat) {q : Queue α SIZE}, q.Valid → q.pending.length ≤ fuel →
    (drain fuel q).1 = q.pending ∧ (drain fuel q).2.pending = [] ∧ (drain fuel q).2.Valid := by
  intro fuel
  induction fuel with
  | zero =>
    intro q hq h
    have : q.pending = [] := List.length_eq_zero_iff.mp (by omega)
    exact ⟨this.symm, this, hq⟩
  | succ fuel ih =>
    intro q hq h
    cases he : q.isEmpty with
    | true =>
      have hp := hq.isEmpty_iff.mp he
      rw [drain, if_pos he]
      exact ⟨hp.symm, hp, hq⟩
    | false =>
      have hp := hq.pending_read he
      rw [hp, List.length_cons] at h
      obtain ⟨h₁, h₂, h₃⟩ := ih hq.read_valid (Nat.le_of_succ_le_succ h)
      rw [drain, he, if_neg Bool.false_ne_true]
      refine ⟨?_, h₂, h₃⟩
      rw [hp, ← h₁]

/-- `clear`, which holds the recursive mutex over its whole loop. -/
def clear (q : Queue α SIZE) : Queue α SIZE := (drain SIZE q).2

theorem Valid.clear_spec {q : Queue α SIZE} (hq : q.Valid) :
    q.clear.pending = [] ∧ q.clear.Valid :=
  (Valid.drain_eq SIZE hq (Nat.le_of_lt hq.pending_length_lt)).2

end Queue
end GDNet
