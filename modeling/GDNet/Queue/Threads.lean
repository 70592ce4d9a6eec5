import Mathlib.Logic.Function.Basic
import GDNet.Queue.Basic
import GDNet.Transition.Linearization
import GDNet.Transition.Machine

/-!
# One queue called by many threads

`Threads.machine` interleaves the mutex-protected blocks of any number of calls
on one queue.  A call is invoked, runs its one or two blocks, and returns.  The
test of `push` and of `pop` and the update that follows it are separate blocks,
so another thread can run between them.

`fifo` is the queue as its callers think of it, a list with a capacity, and
`alone_fifo` says that the methods called one at a time are that list.  The
machine is linearizable in every run in which no update comes too late, which is
what `InTime` says of a step; `Linearizable.lean` proves it.
-/

namespace GDNet
namespace Queue

open Transition

inductive Op (α : Type*) where
  | push (item : α)
  | pop
  | size
  | isEmpty
  | isFull

/-- What a call answers.  `push` returns nothing, but the error macro reports
whether it was refused. -/
inductive Result (α : Type*) where
  | pushed (accepted : Bool)
  | popped (item : Option α)
  | count (n : Nat)
  | answer (b : Bool)

variable {τ α : Type*} {SIZE : Nat}

/-- A method of the queue called while no other thread is inside one. -/
def alone (q : Queue α SIZE) : Op α → Queue α SIZE × Result α
  | .push item => (q.push item, .pushed !q.isFull)
  | .pop => (q.pop.2, .popped q.pop.1)
  | .size => (q, .count q.size)
  | .isEmpty => (q, .answer q.isEmpty)
  | .isFull => (q, .answer q.isFull)

/-- The list with a capacity that the queue stands for. -/
def fifo (SIZE : Nat) (items : List α) : Op α → List α × Result α
  | .push item =>
    if items.length + 1 = SIZE then (items, .pushed false) else (items ++ [item], .pushed true)
  | .pop => (items.tail, .popped items.head?)
  | .size => (items, .count items.length)
  | .isEmpty => (items, .answer items.isEmpty)
  | .isFull => (items, .answer (items.length + 1 == SIZE))

theorem Valid.isEmpty_eq {q : Queue α SIZE} (hq : q.Valid) : q.isEmpty = q.pending.isEmpty := by
  rw [Bool.eq_iff_iff, hq.isEmpty_iff, List.isEmpty_iff]

theorem Valid.isFull_eq {q : Queue α SIZE} (hq : q.Valid) :
    q.isFull = (q.pending.length + 1 == SIZE) := by
  rw [Bool.eq_iff_iff, hq.isFull_iff, beq_iff_eq]

/-- One at a time, the methods are the operations of the list. -/
theorem alone_fifo {q : Queue α SIZE} (hq : q.Valid) (op : Op α) :
    fifo SIZE q.pending op = ((q.alone op).1.pending, (q.alone op).2) := by
  cases op with
  | push item =>
    cases h : q.isFull with
    | true => simp [fifo, alone, push, h, hq.isFull_iff.mp h]
    | false =>
      have hne : ¬ q.pending.length + 1 = SIZE := by
        rw [← hq.isFull_iff, h]
        exact Bool.false_ne_true
      simp [fifo, alone, push, h, hne, hq.pending_write item h]
  | pop =>
    cases h : q.isEmpty with
    | true => simp [fifo, alone, pop, h, hq.isEmpty_iff.mp h]
    | false => simp [fifo, alone, pop, h, hq.pending_read h]
  | size => simp [fifo, alone, hq.size_eq]
  | isEmpty => simp [fifo, alone, hq.isEmpty_eq]
  | isFull => simp [fifo, alone, hq.isFull_eq]

namespace Threads

/-- Where a thread is between two of its atomic steps. -/
inductive Pc (α : Type*) where
  | idle
  | called (op : Op α)
  | writing (item : α)
  | reading
  | returning (res : Result α)

structure State (τ α : Type*) (SIZE : Nat) where
  queue : Queue α SIZE
  pc : τ → Pc α
  /-- The number of the call a thread is in. -/
  call : τ → Nat
  calls : Nat

inductive Action (τ α : Type*) where
  | invoke (t : τ) (op : Op α)
  | block (t : τ)
  | respond (t : τ)

/-- The next block of a call between `mutex->lock` and `mutex->unlock`. -/
def block (q : Queue α SIZE) : Pc α → Option (Queue α SIZE × Pc α)
  | .called (.push item) =>
    some (q, if q.isFull then .returning (.pushed false) else .writing item)
  | .writing item => some (q.write item, .returning (.pushed true))
  | .called .pop => some (q, if q.isEmpty then .returning (.popped none) else .reading)
  | .reading => some (q.read, .returning (.popped (some q.front)))
  | .called .size => some (q, .returning (.count q.size))
  | .called .isEmpty => some (q, .returning (.answer q.isEmpty))
  | .called .isFull => some (q, .returning (.answer q.isFull))
  | .idle => none
  | .returning _ => none

variable [DecidableEq τ]

def step (s : State τ α SIZE) : Action τ α → Option (State τ α SIZE)
  | .invoke t op =>
    match s.pc t with
    | .idle => some { s with
        pc := Function.update s.pc t (.called op)
        call := Function.update s.call t s.calls
        calls := s.calls + 1 }
    | _ => none
  | .block t =>
    match block s.queue (s.pc t) with
    | some (q, pc) => some { s with queue := q, pc := Function.update s.pc t pc }
    | none => none
  | .respond t =>
    match s.pc t with
    | .returning _ => some { s with pc := Function.update s.pc t .idle }
    | _ => none

theorem step_invoke {s s' : State τ α SIZE} {t : τ} {op : Op α}
    (h : step s (.invoke t op) = some s') :
    s.pc t = .idle ∧ s' = { s with
      pc := Function.update s.pc t (.called op)
      call := Function.update s.call t s.calls
      calls := s.calls + 1 } := by
  rw [step] at h
  cases hpc : s.pc t <;> rw [hpc] at h <;> cases h
  exact ⟨rfl, rfl⟩

theorem step_block {s s' : State τ α SIZE} {t : τ} (h : step s (.block t) = some s') :
    ∃ q pc, block s.queue (s.pc t) = some (q, pc) ∧
      s' = { s with queue := q, pc := Function.update s.pc t pc } := by
  rw [step] at h
  cases hb : block s.queue (s.pc t) <;> rw [hb] at h <;> cases h
  exact ⟨_, _, rfl, rfl⟩

theorem step_respond {s s' : State τ α SIZE} {t : τ} (h : step s (.respond t) = some s') :
    ∃ res, s.pc t = .returning res ∧
      s' = { s with pc := Function.update s.pc t .idle } := by
  rw [step] at h
  cases hpc : s.pc t <;> rw [hpc] at h <;> cases h
  exact ⟨_, rfl, rfl⟩

def machine (τ α : Type*) (SIZE : Nat) [DecidableEq τ] :
    Machine (State τ α SIZE) (Action τ α) where
  start s := s.queue.Valid ∧ ∀ t, s.pc t = .idle
  step := step

/-- What callers see of a step. -/
def event (s : State τ α SIZE) : Action τ α → List (Occurrence (Op α) (Result α))
  | .invoke _ op => [.invoke s.calls op]
  | .block _ => []
  | .respond t =>
    match s.pc t with
    | .returning res => [.respond (s.call t) res]
    | _ => []

/-- The history of a run. -/
def history (s : State τ α SIZE) (as : List (Action τ α)) : List (Occurrence (Op α) (Result α)) :=
  (machine τ α SIZE).trace event s as

/-- Every call made has returned. -/
def State.Quiet (s : State τ α SIZE) : Prop := ∀ t, s.pc t = .idle

/-- The update of a `push` finds a free cell and the update of a `pop` an item.
Both were there when the call tested for them. -/
def InTime (s : State τ α SIZE) : Action τ α → Prop
  | .block t =>
    match s.pc t with
    | .writing _ => s.queue.isFull = false
    | .reading => s.queue.isEmpty = false
    | _ => True
  | _ => True

/-! ## The effect of a call

A call that is refused takes effect at its test, any other call at its last
block. -/

/-- The operation a thread is in the middle of. -/
def Pc.op? : Pc α → Option (Op α)
  | .called op => some op
  | .writing item => some (.push item)
  | .reading => some .pop
  | _ => none

/-- The step from `s` with the mark of the effect, if it is there. -/
def entry (s : State τ α SIZE) : Action τ α → List (Entry (Op α) (Result α))
  | .invoke _ op => [.invoke s.calls op]
  | .block t =>
    match (s.pc t).op?, block s.queue (s.pc t) with
    | some op, some (_, .returning res) => [.effect ⟨s.call t, op, res⟩]
    | _, _ => []
  | .respond t =>
    match s.pc t with
    | .returning res => [.respond (s.call t) res]
    | _ => []

omit [DecidableEq τ] in
theorem events_entry (s : State τ α SIZE) (a : Action τ α) :
    Log.events (entry s a) = event s a := by
  cases a with
  | invoke t op => rfl
  | block t =>
    rw [entry, event]
    split
    · rfl
    · rfl
  | respond t =>
    rw [entry, event]
    split
    · rfl
    · rfl

theorem events_trace (s : State τ α SIZE) (as : List (Action τ α)) :
    Log.events ((machine τ α SIZE).trace entry s as) = history s as := by
  induction as generalizing s with
  | nil => rfl
  | cons a as ih =>
    rw [history, Machine.trace, Machine.trace]
    cases (machine τ α SIZE).step s a with
    | none => rfl
    | some t => simp only [Log.events_append, events_entry, ih, history]

/-- What the log knows of a call that has not returned. -/
def Inside (log : List (Entry (Op α) (Result α))) (id : Nat) : Pc α → Prop
  | .idle => True
  | .returning res =>
    (∃ op, ⟨id, op, res⟩ ∈ Log.calls log) ∧ ∀ r, Occurrence.respond id r ∉ Log.events log
  | pc => (∃ op, pc.op? = some op ∧ Occurrence.invoke id op ∈ Log.events log) ∧
      ∀ c ∈ Log.calls log, c.id ≠ id

/-- The state after a run whose steps logged `log`. -/
structure Inv (items : List α) (s : State τ α SIZE) (log : List (Entry (Op α) (Result α))) :
    Prop where
  valid : s.queue.Valid
  ok : Log.Ok log
  executes : executes (fifo SIZE) items (Log.calls log) s.queue.pending
  fresh : ∀ id op, Occurrence.invoke id op ∈ Log.events log → id < s.calls
  inside : ∀ t, Inside log (s.call t) (s.pc t)
  current : ∀ t, s.pc t ≠ .idle → s.call t < s.calls
  distinct : ∀ t u, s.pc t ≠ .idle → s.pc u ≠ .idle → s.call t = s.call u → t = u
  complete : ∀ id op, Occurrence.invoke id op ∈ Log.events log →
    (∃ r, Occurrence.respond id r ∈ Log.events log) ∨ ∃ t, s.pc t ≠ .idle ∧ s.call t = id

/-- An entry of another call does not change what the log knows of this one. -/
theorem Inside.append {log : List (Entry (Op α) (Result α))} {id : Nat} {pc : Pc α}
    {e : Entry (Op α) (Result α)} (h : Inside log id pc)
    (he : ∀ c, e = .effect c → c.id ≠ id) (hr : ∀ r, e ≠ .respond id r) :
    Inside (log ++ [e]) id pc := by
  have hcall : ∀ c ∈ Log.calls (log ++ [e]), c ∈ Log.calls log ∨ c.id ≠ id := by
    intro c hc
    rw [Log.calls_append, List.mem_append] at hc
    rcases hc with hc | hc
    · exact Or.inl hc
    · cases e with
      | effect c' =>
        rw [Log.calls_effect, List.mem_singleton] at hc
        exact Or.inr (hc ▸ he c' rfl)
      | invoke _ _ => cases hc
      | respond _ _ => cases hc
  have hevent : ∀ r, Occurrence.respond id r ∉ Log.events log →
      Occurrence.respond id r ∉ Log.events (log ++ [e]) := by
    intro r hn hm
    rw [Log.events_append, List.mem_append] at hm
    rcases hm with hm | hm
    · exact hn hm
    · cases e with
      | respond id' r' =>
        rw [Log.events_respond, List.mem_singleton] at hm
        injection hm with h₁ h₂
        exact hr r (by rw [h₁, h₂])
      | invoke _ _ => simp at hm
      | effect _ => cases hm
  have hopen : ∀ {p : Pc α}, ((∃ op, p.op? = some op ∧ Occurrence.invoke id op ∈ Log.events log) ∧
      ∀ c ∈ Log.calls log, c.id ≠ id) →
      ((∃ op, p.op? = some op ∧ Occurrence.invoke id op ∈ Log.events (log ++ [e])) ∧
      ∀ c ∈ Log.calls (log ++ [e]), c.id ≠ id) := by
    rintro p ⟨⟨op, ho, hi⟩, hn⟩
    refine ⟨⟨op, ho, ?_⟩, fun c hc => (hcall c hc).elim (hn c) fun h => h⟩
    rw [Log.events_append]
    exact List.mem_append_left _ hi
  cases pc with
  | idle => trivial
  | called op => exact hopen h
  | writing item => exact hopen h
  | reading => exact hopen h
  | returning res =>
    obtain ⟨⟨op, hop⟩, hn⟩ := h
    refine ⟨⟨op, ?_⟩, fun r => hevent r (hn r)⟩
    rw [Log.calls_append]
    exact List.mem_append_left _ hop

/-- What one block does: it moves the call on without an effect, or it is the
effect, as the list has it. -/
theorem block_cases {q q' : Queue α SIZE} {pc pc' : Pc α} (hq : q.Valid)
    (hw : ∀ item, pc = .writing item → q.isFull = false)
    (hr : pc = .reading → q.isEmpty = false) (h : block q pc = some (q', pc')) :
    ∃ op, pc.op? = some op ∧ q'.Valid ∧
      ((q' = q ∧ pc'.op? = some op ∧ ∀ res, pc' ≠ .returning res) ∨
        ∃ res, pc' = .returning res ∧ fifo SIZE q.pending op = (q'.pending, res)) := by
  cases pc with
  | idle => cases h
  | returning res => cases h
  | writing item =>
    have hf := hw item rfl
    cases h
    refine ⟨_, rfl, hq.write_valid item, Or.inr ⟨_, rfl, ?_⟩⟩
    simpa [alone, push, hf] using alone_fifo hq (.push item)
  | reading =>
    have he := hr rfl
    cases h
    refine ⟨_, rfl, hq.read_valid, Or.inr ⟨_, rfl, ?_⟩⟩
    simpa [alone, pop, he] using alone_fifo hq (.pop : Op α)
  | called op =>
    refine ⟨op, rfl, ?_⟩
    have ha := alone_fifo hq op
    cases op with
    | push item =>
      cases h
      refine ⟨hq, ?_⟩
      cases hf : q.isFull with
      | true => exact Or.inr ⟨_, rfl, by simpa [alone, push, hf] using ha⟩
      | false => exact Or.inl ⟨rfl, rfl, fun _ hh => by cases hh⟩
    | pop =>
      cases h
      refine ⟨hq, ?_⟩
      cases he : q.isEmpty with
      | true => exact Or.inr ⟨_, rfl, by simpa [alone, pop, he] using ha⟩
      | false => exact Or.inl ⟨rfl, rfl, fun _ hh => by cases hh⟩
    | size => cases h; exact ⟨hq, Or.inr ⟨_, rfl, ha⟩⟩
    | isEmpty => cases h; exact ⟨hq, Or.inr ⟨_, rfl, ha⟩⟩
    | isFull => cases h; exact ⟨hq, Or.inr ⟨_, rfl, ha⟩⟩

end Threads
end Queue
end GDNet
