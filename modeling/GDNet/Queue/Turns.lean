import GDNet.Queue.Basic

/-!
# A queue with one reader

A push tests and then writes, a pop tests and then reads, and the other side can
move between the two.  `Turn` is one atomic step of either side, with what the
step writes and what it reads.  A writer that has passed its test still finds a
free cell when it writes, because the reader only makes room, and a reader that
has passed its test still finds an item.

With several writers the last free cell can be written twice, which empties the
queue.  `Gives` is what is left then: the reader gets what one of them wrote.
-/

namespace GDNet
namespace Queue

variable {α : Type*} {SIZE : Nat} {q q' : Queue α SIZE} {writing writing' reading reading' : Prop}
  {put got : List α}

/-- The queue suits a writer and a reader that may have passed their tests. -/
structure Ready (q : Queue α SIZE) (writing reading : Prop) : Prop where
  valid : q.Valid
  room : writing → q.isFull = false
  item : reading → q.isEmpty = false

/-- A step of one of the sides, or of neither. -/
inductive Turn (q : Queue α SIZE) (writing reading : Prop) :
    Queue α SIZE → Prop → Prop → List α → List α → Prop
  /-- The queue stays; each side may pass its test. -/
  | keep {writing' reading' : Prop} (hw : writing' → writing ∨ q.isFull = false)
      (hr : reading' → reading ∨ q.isEmpty = false) :
      Turn q writing reading q writing' reading' [] []
  | write {item : α} {writing' reading' : Prop} (hw : writing) (hw' : ¬writing')
      (hr : reading' → reading) :
      Turn q writing reading (q.write item) writing' reading' [item] []
  | read {writing' reading' : Prop} (hr : reading) (hr' : ¬reading') (hw : writing' → writing) :
      Turn q writing reading q.read writing' reading' [] [q.front]

theorem Ready.isEmpty_write (h : Ready q writing reading) (hw : writing) (item : α) :
    (q.write item).isEmpty = false := by
  rw [Bool.eq_false_iff]
  intro he
  have hp := (h.valid.write_valid item).isEmpty_iff.mp he
  rw [h.valid.pending_write item (h.room hw)] at hp
  simp at hp

theorem Ready.isFull_read (h : Ready q writing reading) (hr : reading) :
    q.read.isFull = false := by
  rw [Bool.eq_false_iff]
  intro hf
  have hp := h.valid.read_valid.isFull_iff.mp hf
  have hlt := h.valid.pending_length_lt
  rw [h.valid.pending_read (h.item hr), List.length_cons] at hlt
  omega

theorem Turn.ready (h : Ready q writing reading)
    (ht : Turn q writing reading q' writing' reading' put got) : Ready q' writing' reading' := by
  cases ht with
  | keep hw hr =>
    refine ⟨h.valid, fun hx => ?_, fun hx => ?_⟩
    · exact (hw hx).elim h.room id
    · exact (hr hx).elim h.item id
  | write hw hw' hr =>
    refine ⟨h.valid.write_valid _, fun hx => absurd hx hw', fun _ => ?_⟩
    exact h.isEmpty_write hw _
  | read hr hr' hw =>
    refine ⟨h.valid.read_valid, fun _ => ?_, fun hx => absurd hx hr'⟩
    exact h.isFull_read hr

/-- Nothing is lost, repeated or reordered. -/
theorem Turn.conserves (h : Ready q writing reading)
    (ht : Turn q writing reading q' writing' reading' put got) :
    q.pending ++ put = got ++ q'.pending := by
  cases ht with
  | keep hw hr => rw [List.append_nil, List.nil_append]
  | write hw hw' hr => rw [h.valid.pending_write _ (h.room hw), List.nil_append]
  | read hr hr' hw => rw [h.valid.pending_read (h.item hr), List.append_nil, List.singleton_append]

/-- A step that leaves an empty queue alone keeps it empty. -/
theorem Turn.pending_nil (h : Ready q writing reading) (hp : q.pending = [])
    (ht : Turn q writing reading q' writing' reading' [] got) : q'.pending = [] := by
  have hc := ht.conserves h
  rw [hp, List.append_nil] at hc
  exact (List.append_eq_nil_iff.mp hc.symm).2

/-! ## Any number of writers -/

/-- All that is read is `P`, also by a reader that has passed its test. -/
structure Gives (q : Queue α SIZE) (P : α → Prop) (reading : Prop) : Prop where
  valid : q.Valid
  pending : ∀ x ∈ q.pending, P x
  cells : reading → q.isEmpty = false ∨ ∀ i, i < SIZE → P (q.items i)

namespace Gives

variable {P : α → Prop} (h : q.Gives P reading)
include h

theorem mono (hr : reading' → reading) : q.Gives P reading' :=
  ⟨h.valid, h.pending, fun hx => h.cells (hr hx)⟩

theorem tested (he : q.isEmpty = false) : q.Gives P reading' :=
  ⟨h.valid, h.pending, fun _ => Or.inl he⟩

theorem write {item : α} (hp : P item) : (q.write item).Gives P reading := by
  have hv := h.valid.write_valid item
  cases hf : q.isFull with
  | false =>
    have hw := h.valid.pending_write item hf
    refine ⟨hv, fun x hx => ?_, fun _ => Or.inl ?_⟩
    · rw [hw, List.mem_append, List.mem_singleton] at hx
      rcases hx with hx | rfl
      · exact h.pending x hx
      · exact hp
    · rw [Bool.eq_false_iff]
      intro he
      have hnil := hv.isEmpty_iff.mp he
      rw [hw] at hnil
      simp at hnil
  | true =>
    -- Every cell has been written since the queue was last cleared.
    have hnil := hv.isEmpty_iff.mp (isEmpty_write_full item hf)
    refine ⟨hv, fun x hx => ?_, fun _ => Or.inr fun i hi => ?_⟩
    · rw [hnil] at hx
      cases hx
    · show P (if i = q.writePos then item else q.items i)
      split
      · exact hp
      · next hne =>
        have hlen := h.valid.isFull_iff.mp hf
        rw [pending_length] at hlen
        exact h.pending _
          (Ring.cell_mem_full h.valid.readPos_lt h.valid.writePos_lt hi hne hlen)

theorem front (hr : reading) : P q.front := by
  rcases h.cells hr with he | ha
  · apply h.pending
    rw [h.valid.pending_read he]
    exact List.mem_cons_self
  · exact ha _ h.valid.readPos_lt

theorem read (hr : reading) : q.read.Gives P False := by
  refine ⟨h.valid.read_valid, fun x hx => ?_, False.elim⟩
  rcases h.cells hr with he | ha
  · apply h.pending
    rw [h.valid.pending_read he]
    exact List.mem_cons_of_mem _ hx
  · obtain ⟨i, hi, rfl⟩ := Ring.mem_window _ _ h.valid.read_valid.readPos_lt hx
    exact ha i hi

theorem clear : q.clear.Gives P False := by
  obtain ⟨hnil, hv⟩ := h.valid.clear_spec
  refine ⟨hv, fun x hx => ?_, False.elim⟩
  rw [hnil] at hx
  cases hx

end Gives

theorem Valid.gives {P : α → Prop} (hv : q.Valid) (hp : q.pending = []) : q.Gives P False := by
  refine ⟨hv, fun x hx => ?_, False.elim⟩
  rw [hp] at hx
  cases hx

end Queue
end GDNet
