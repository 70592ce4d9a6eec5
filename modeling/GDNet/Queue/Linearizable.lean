import GDNet.Queue.Threads

/-!
# When the queue is atomic

The test of `push` or `pop` and the update behind it are two critical sections.
As long as every update still finds what its test found, each call takes effect
at one step and the queue is linearizable, for any number of threads.  When an
update comes too late the queue loses its content or makes some up, which the
second half shows on a run of two `pop` calls.
-/

namespace GDNet
namespace Queue
namespace Threads

open Transition

variable {τ α : Type*} {SIZE : Nat} [DecidableEq τ]
variable {s s' : State τ α SIZE} {items : List α} {log : List (Entry (Op α) (Result α))}

omit [DecidableEq τ] in
theorem Inv.call_lt (hi : Inv items s log) {c : Operation (Op α) (Result α)}
    (hc : c ∈ Log.calls log) : c.id < s.calls :=
  hi.fresh _ _ (hi.ok.invoked c hc)

theorem invoke_inv {t : τ} {op : Op α} (hi : Inv items s log)
    (hs : step s (.invoke t op) = some s') :
    Inv items s' (log ++ [.invoke s.calls op]) := by
  obtain ⟨hpc, rfl⟩ := step_invoke hs
  refine ⟨hi.valid, hi.ok.invoke fun op' h => ?_, ?_, ?_, ?_, ?_, ?_, ?_⟩
  · exact Nat.lt_irrefl _ (hi.fresh _ _ h)
  · simpa using hi.executes
  · intro id op' h
    simp only [Log.events_append, Log.events_invoke, List.mem_append, List.mem_singleton] at h
    rcases h with h | h
    · exact Nat.lt_succ_of_lt (hi.fresh _ _ h)
    · injection h with h
      exact h ▸ Nat.lt_succ_self _
  · intro u
    by_cases hu : u = t
    · subst hu
      simp only [Function.update_self]
      refine ⟨⟨op, rfl, by simp⟩, fun c hc => ?_⟩
      simp only [Log.calls_append, Log.calls_invoke, List.append_nil] at hc
      exact Nat.ne_of_lt (hi.call_lt hc)
    · simp only [Function.update_of_ne hu]
      exact (hi.inside u).append (fun _ h => by cases h) (fun _ h => by cases h)
  · intro u hu
    by_cases hut : u = t
    · subst hut; simp
    · simp only [Function.update_of_ne hut] at hu ⊢
      exact Nat.lt_succ_of_lt (hi.current u hu)
  · intro u v hu hv huv
    by_cases hut : u = t <;> by_cases hvt : v = t
    · rw [hut, hvt]
    · subst hut
      simp only [Function.update_self, Function.update_of_ne hvt] at hv huv
      have := hi.current v hv
      omega
    · subst hvt
      simp only [Function.update_self, Function.update_of_ne hut] at hu huv
      have := hi.current u hu
      omega
    · simp only [Function.update_of_ne hut, Function.update_of_ne hvt] at hu hv huv
      exact hi.distinct u v hu hv huv
  · intro id op' h
    simp only [Log.events_append, Log.events_invoke, List.mem_append, List.mem_singleton] at h
    rcases h with h | h
    · rcases hi.complete _ _ h with ⟨r, hr⟩ | ⟨u, hu, rfl⟩
      · exact Or.inl ⟨r, by simp [hr]⟩
      · have hut : u ≠ t := fun e => hu (e ▸ hpc)
        exact Or.inr ⟨u, by simpa [Function.update_of_ne hut] using hu,
          by simp [Function.update_of_ne hut]⟩
    · injection h with h
      exact Or.inr ⟨t, by simp, by simp [h]⟩

/-- A block that only moves its own call on. -/
theorem Inv.move {t : τ} {pc : Pc α} {op : Op α} (hi : Inv items s log)
    (ho : (s.pc t).op? = some op) (hp : pc.op? = some op) :
    Inv items { s with pc := Function.update s.pc t pc } log := by
  have hbusy : s.pc t ≠ .idle := fun e => by rw [e] at ho; cases ho
  have hold : ∀ u, (Function.update s.pc t pc) u ≠ .idle → s.pc u ≠ .idle := by
    intro u hu
    by_cases hut : u = t
    · rw [hut]; exact hbusy
    · rwa [Function.update_of_ne hut] at hu
  refine ⟨hi.valid, hi.ok, hi.executes, hi.fresh, ?_, fun u hu => hi.current u (hold u hu),
    fun u v hu hv => hi.distinct u v (hold u hu) (hold v hv), ?_⟩
  · intro u
    by_cases hut : u = t
    · subst hut
      simp only [Function.update_self]
      have hin := hi.inside u
      cases hpu : s.pc u with
      | idle => exact absurd hpu hbusy
      | returning res => rw [hpu] at ho; cases ho
      | _ =>
        rw [hpu] at hin ho
        obtain ⟨⟨op', hop', hinv⟩, hn⟩ := hin
        obtain rfl : op' = op := Option.some.inj (hop'.symm.trans ho)
        cases pc with
        | idle => cases hp
        | returning res => cases hp
        | _ => exact ⟨⟨_, hp, hinv⟩, hn⟩
    · simp only [Function.update_of_ne hut]
      exact hi.inside u
  · intro id op' h
    rcases hi.complete _ _ h with hr | ⟨u, hu, rfl⟩
    · exact Or.inl hr
    · refine Or.inr ⟨u, ?_, rfl⟩
      by_cases hut : u = t
      · subst hut
        simp only [Function.update_self]
        exact fun e => by rw [e] at hp; cases hp
      · simpa [Function.update_of_ne hut] using hu

/-- The block at which a call takes effect. -/
theorem Inv.effect {t : τ} {q : Queue α SIZE} {op : Op α} {res : Result α}
    (hi : Inv items s log) (ho : (s.pc t).op? = some op) (hq : q.Valid)
    (hf : fifo SIZE s.queue.pending op = (q.pending, res)) :
    Inv items { s with queue := q, pc := Function.update s.pc t (.returning res) }
      (log ++ [.effect ⟨s.call t, op, res⟩]) := by
  have hbusy : s.pc t ≠ .idle := fun e => by rw [e] at ho; cases ho
  have hold : ∀ u, (Function.update s.pc t (.returning res)) u ≠ .idle → s.pc u ≠ .idle := by
    intro u hu
    by_cases hut : u = t
    · rw [hut]; exact hbusy
    · rwa [Function.update_of_ne hut] at hu
  have hin : Occurrence.invoke (s.call t) op ∈ Log.events log ∧
      ∀ c ∈ Log.calls log, c.id ≠ s.call t := by
    have hin := hi.inside t
    cases hpt : s.pc t with
    | idle => exact absurd hpt hbusy
    | returning res => rw [hpt] at ho; cases ho
    | _ =>
      rw [hpt] at hin ho
      obtain ⟨⟨op', hop', hinv⟩, hn⟩ := hin
      obtain rfl : op' = op := Option.some.inj (hop'.symm.trans ho)
      exact ⟨hinv, hn⟩
  refine ⟨hq, hi.ok.effect hin.1 hin.2, ?_, ?_, ?_, fun u hu => hi.current u (hold u hu),
    fun u v hu hv => hi.distinct u v (hold u hu) (hold v hv), ?_⟩
  · rw [Log.calls_append, Log.calls_effect]
    have := executes_snoc (c := ⟨s.call t, op, res⟩) hi.executes (by rw [hf])
    rwa [hf] at this
  · intro id op' h
    rw [Log.events_append, Log.events_effect, List.append_nil] at h
    exact hi.fresh _ _ h
  · intro u
    by_cases hut : u = t
    · subst hut
      simp only [Function.update_self]
      refine ⟨⟨op, by simp⟩, fun r hr => ?_⟩
      rw [Log.events_append, Log.events_effect, List.append_nil] at hr
      obtain ⟨c, hc, e, _⟩ := hi.ok.effected hr
      exact hin.2 c hc e
    · simp only [Function.update_of_ne hut]
      cases hpu : s.pc u with
      | idle => trivial
      | _ =>
        rw [← hpu]
        refine (hi.inside u).append (fun c h e => ?_) (fun _ h => by cases h)
        cases h
        exact hut (hi.distinct u t (by rw [hpu]; exact fun h => by cases h) hbusy e.symm)
  · intro id op' h
    rw [Log.events_append, Log.events_effect, List.append_nil] at h ⊢
    rcases hi.complete _ _ h with hr | ⟨u, hu, rfl⟩
    · exact Or.inl hr
    · refine Or.inr ⟨u, ?_, rfl⟩
      by_cases hut : u = t
      · subst hut; simp
      · simpa [Function.update_of_ne hut] using hu

theorem block_inv {t : τ} (hi : Inv items s log) (ht : InTime s (.block t))
    (hs : step s (.block t) = some s') : Inv items s' (log ++ entry s (.block t)) := by
  obtain ⟨q, pc, hb, rfl⟩ := step_block hs
  have hw : ∀ item, s.pc t = .writing item → s.queue.isFull = false := by
    intro item e
    rw [InTime, e] at ht
    exact ht
  have hr : s.pc t = .reading → s.queue.isEmpty = false := by
    intro e
    rw [InTime, e] at ht
    exact ht
  obtain ⟨op, ho, hq, hcase⟩ := block_cases hi.valid hw hr hb
  rcases hcase with ⟨rfl, hp, hn⟩ | ⟨res, rfl, hf⟩
  · have he : entry s (.block t) = [] := by
      rw [entry, ho, hb]
      cases pc with
      | returning res => exact absurd rfl (hn res)
      | _ => rfl
    rw [he, List.append_nil]
    exact hi.move ho hp
  · have he : entry s (.block t) = [.effect ⟨s.call t, op, res⟩] := by
      rw [entry, ho, hb]
    rw [he]
    exact hi.effect ho hq hf

theorem respond_inv {t : τ} (hi : Inv items s log) (hs : step s (.respond t) = some s') :
    Inv items s' (log ++ entry s (.respond t)) := by
  obtain ⟨res, hpc, rfl⟩ := step_respond hs
  have he : entry s (.respond t) = [.respond (s.call t) res] := by rw [entry, hpc]
  have hin := hi.inside t
  rw [hpc] at hin
  obtain ⟨⟨op, hop⟩, hn⟩ := hin
  have hbusy : s.pc t ≠ .idle := fun e => by rw [hpc] at e; cases e
  have hold : ∀ u, (Function.update s.pc t .idle) u ≠ .idle → u ≠ t ∧ s.pc u ≠ .idle := by
    intro u hu
    by_cases hut : u = t
    · rw [hut, Function.update_self] at hu
      exact absurd rfl hu
    · rw [Function.update_of_ne hut] at hu
      exact ⟨hut, hu⟩
  rw [he]
  refine ⟨hi.valid, hi.ok.respond (c := ⟨s.call t, op, res⟩) hop hn, ?_, ?_, ?_,
    fun u hu => hi.current u (hold u hu).2,
    fun u v hu hv => hi.distinct u v (hold u hu).2 (hold v hv).2, ?_⟩
  · simpa using hi.executes
  · intro id op' h
    simp at h
    exact hi.fresh _ _ h
  · intro u
    by_cases hut : u = t
    · subst hut
      simp only [Function.update_self]
      trivial
    · simp only [Function.update_of_ne hut]
      cases hpu : s.pc u with
      | idle => trivial
      | _ =>
        rw [← hpu]
        refine (hi.inside u).append (fun _ h => by cases h) (fun r h => ?_)
        injection h with h _
        exact hut (hi.distinct u t (by rw [hpu]; exact fun h => by cases h) hbusy h.symm)
  · intro id op' h
    simp at h
    rcases hi.complete _ _ h with ⟨r, hr⟩ | ⟨u, hu, rfl⟩
    · exact Or.inl ⟨r, by simp [hr]⟩
    · by_cases hut : u = t
      · subst hut
        exact Or.inl ⟨res, by simp⟩
      · exact Or.inr ⟨u, by simpa [Function.update_of_ne hut] using hu, rfl⟩

theorem step_inv {a : Action τ α} (ht : InTime s a) (hi : Inv items s log)
    (hs : step s a = some s') : Inv items s' (log ++ entry s a) := by
  cases a with
  | invoke t op => exact invoke_inv hi hs
  | block t => exact block_inv hi ht hs
  | respond t => exact respond_inv hi hs

omit [DecidableEq τ] in
theorem start_inv (hq : s.queue.Valid) (hidle : s.Quiet) : Inv s.queue.pending s [] where
  valid := hq
  ok := .nil
  executes := rfl
  fresh := fun _ _ h => by cases h
  inside := fun t => by rw [hidle t]; trivial
  current := fun t h => absurd (hidle t) h
  distinct := fun t _ h => absurd (hidle t) h
  complete := fun _ _ h => by cases h

/-- A completed run in which every update comes in time is explained by a
one-at-a-time execution of its calls. -/
theorem run_linearizable {as : List (Action τ α)} (hstart : (machine τ α SIZE).start s)
    (ht : (machine τ α SIZE).Along InTime s as) (hr : (machine τ α SIZE).run s as = some s')
    (hq : s'.Quiet) :
    Linearizable (fifo SIZE) s.queue.pending s'.queue.pending (history s as) := by
  have hi : Inv s.queue.pending s' ([] ++ (machine τ α SIZE).trace entry s as) :=
    Machine.run_trace (fun _ _ _ _ hc hi hs => step_inv hc hi hs) ht
      (start_inv hstart.1 hstart.2) hr
  rw [List.nil_append] at hi
  rw [← events_trace]
  refine ⟨_, hi.ok.isLinearization (fun id op h => ?_) hi.executes⟩
  rcases hi.complete id op h with hr | ⟨t, hbusy, _⟩
  · exact hr
  · exact absurd (hq t) hbusy

/-- A freshly constructed queue of the default size, its cells holding `0`. -/
def fresh : State Bool Nat 1024 :=
  { queue := create fun _ => 0, pc := fun _ => .idle, call := fun _ => 0, calls := 0 }

theorem fresh_start : (machine Bool Nat 1024).start fresh :=
  ⟨create_valid (by decide) _, fun _ => rfl⟩

/-- Two producers, both past their test before either writes, with room for both. -/
def twoPushRun : List (Action Bool Nat) :=
  [.invoke true (.push 7), .invoke false (.push 8), .block true, .block false,
   .block false, .block true, .respond true, .respond false]

theorem twoPushRun_linearizable :
    ∃ s, (machine Bool Nat 1024).run fresh twoPushRun = some s ∧
      Linearizable (fifo 1024) fresh.queue.pending s.queue.pending
        (history fresh twoPushRun) := by
  refine ⟨_, rfl, run_linearizable fresh_start ?_ rfl fun t => by cases t <;> rfl⟩
  simp only [twoPushRun]
  iterate 4 refine (Machine.along_cons rfl).mpr ⟨trivial, ?_⟩
  iterate 2 refine (Machine.along_cons rfl).mpr ⟨show isFull _ = false from rfl, ?_⟩
  iterate 2 refine (Machine.along_cons rfl).mpr ⟨trivial, ?_⟩
  trivial

/-! ## One producer and one consumer -/

/-- Only `p` pushes and only `c` pops. -/
def Roles (p c : τ) : State τ α SIZE → Action τ α → Prop
  | _, .invoke t (.push _) => t = p
  | _, .invoke t .pop => t = c
  | _, _ => True

/-- Between its test and its update a call finds the queue as the test left it,
up to what the other side did, which is to its favour. -/
structure Single (p c : τ) (s : State τ α SIZE) : Prop where
  valid : s.queue.Valid
  producer : ∀ t item, (s.pc t).op? = some (.push item) → t = p
  consumer : ∀ t, (s.pc t).op? = some .pop → t = c
  room : ∀ t item, s.pc t = .writing item → s.queue.isFull = false
  item : ∀ t, s.pc t = .reading → s.queue.isEmpty = false

omit [DecidableEq τ] in
theorem Single.inTime {p c : τ} (h : Single p c s) (a : Action τ α) : InTime s a := by
  cases a with
  | invoke t op => trivial
  | respond t => trivial
  | block t =>
    rw [InTime]
    cases hpc : s.pc t with
    | writing item => exact h.room t item hpc
    | reading => exact h.item t hpc
    | _ => trivial

/-- A thread's own step, which leaves the other threads where they are. -/
theorem Single.update {p c t : τ} {q : Queue α SIZE} {pc : Pc α} (h : Single p c s)
    (hq : q.Valid) (hproducer : ∀ item, pc.op? = some (.push item) → t = p)
    (hconsumer : pc.op? = some .pop → t = c)
    (hroom : ∀ item, pc = .writing item → q.isFull = false)
    (hitem : pc = .reading → q.isEmpty = false)
    (hfull : ∀ u item, u ≠ t → s.pc u = .writing item → q.isFull = false)
    (hempty : ∀ u, u ≠ t → s.pc u = .reading → q.isEmpty = false)
    {call : τ → Nat} {calls : Nat} :
    Single p c { queue := q, pc := Function.update s.pc t pc, call := call, calls := calls } where
  valid := hq
  producer u item hu := by
    by_cases hut : u = t
    · subst hut
      simp only [Function.update_self] at hu
      exact hproducer item hu
    · simp only [Function.update_of_ne hut] at hu
      exact h.producer u item hu
  consumer u hu := by
    by_cases hut : u = t
    · subst hut
      simp only [Function.update_self] at hu
      exact hconsumer hu
    · simp only [Function.update_of_ne hut] at hu
      exact h.consumer u hu
  room u item hu := by
    by_cases hut : u = t
    · subst hut
      simp only [Function.update_self] at hu
      exact hroom item hu
    · simp only [Function.update_of_ne hut] at hu
      exact hfull u item hut hu
  item u hu := by
    by_cases hut : u = t
    · subst hut
      simp only [Function.update_self] at hu
      exact hitem hu
    · simp only [Function.update_of_ne hut] at hu
      exact hempty u hut hu

/-- A step that leaves the queue as it is. -/
theorem Single.stay {p c t : τ} {pc : Pc α} (h : Single p c s)
    (hproducer : ∀ item, pc.op? = some (.push item) → t = p)
    (hconsumer : pc.op? = some .pop → t = c)
    (hroom : ∀ item, pc = .writing item → s.queue.isFull = false)
    (hitem : pc = .reading → s.queue.isEmpty = false) {call : τ → Nat} {calls : Nat} :
    Single p c
      { queue := s.queue, pc := Function.update s.pc t pc, call := call, calls := calls } :=
  h.update h.valid hproducer hconsumer hroom hitem (fun u item _ => h.room u item)
    (fun u _ => h.item u)

theorem Single.step {p c : τ} {a : Action τ α} (hr : Roles p c s a) (h : Single p c s)
    (hs : step s a = some s') : Single p c s' := by
  cases a with
  | invoke t op =>
    obtain ⟨_, rfl⟩ := step_invoke hs
    refine h.stay (fun item e => ?_) (fun e => ?_) (fun _ e => by cases e) (fun e => by cases e)
    · obtain rfl : op = .push item := Option.some.inj e
      exact hr
    · obtain rfl : op = .pop := Option.some.inj e
      exact hr
  | respond t =>
    obtain ⟨_, _, rfl⟩ := step_respond hs
    exact h.stay (fun _ e => by cases e) (fun e => by cases e) (fun _ e => by cases e)
      (fun e => by cases e)
  | block t =>
    obtain ⟨q, pc, hb, rfl⟩ := step_block hs
    have hp := h.producer t
    have hc := h.consumer t
    cases hpc : s.pc t with
    | idle => rw [hpc] at hb; cases hb
    | returning res => rw [hpc] at hb; cases hb
    | writing item =>
      have hroom := h.room t item hpc
      rw [hpc] at hb hp
      cases hb
      refine h.update (h.valid.write_valid item) (fun _ e => by cases e) (fun e => by cases e)
        (fun _ e => by cases e) (fun e => by cases e) (fun u item' hu hw => ?_) (fun u _ _ => ?_)
      · exact absurd ((h.producer u item' (by rw [hw]; rfl)).trans (hp item rfl).symm) hu
      · rw [(h.valid.write_valid item).isEmpty_eq, h.valid.pending_write item hroom]
        simp
    | reading =>
      have hitem := h.item t hpc
      rw [hpc] at hb hc
      cases hb
      refine h.update h.valid.read_valid (fun _ e => by cases e) (fun e => by cases e)
        (fun _ e => by cases e) (fun e => by cases e) (fun u _ _ _ => ?_) (fun u hu hw => ?_)
      · have hlt := h.valid.pending_length_lt
        rw [h.valid.pending_read hitem, List.length_cons] at hlt
        rw [h.valid.read_valid.isFull_eq, beq_eq_false_iff_ne]
        omega
      · exact absurd ((h.consumer u (by rw [hw]; rfl)).trans (hc rfl).symm) hu
    | called op =>
      rw [hpc] at hb hp hc
      cases op with
      | push item =>
        cases hb
        cases hf : s.queue.isFull with
        | true =>
          exact h.stay (fun _ e => by cases e) (fun e => by cases e) (fun _ e => by cases e)
            (fun e => by cases e)
        | false =>
          refine h.stay (fun item' e => hp item rfl) (fun e => by cases e) (fun _ _ => hf)
            (fun e => by cases e)
      | pop =>
        cases hb
        cases he : s.queue.isEmpty with
        | true =>
          exact h.stay (fun _ e => by cases e) (fun e => by cases e) (fun _ e => by cases e)
            (fun e => by cases e)
        | false =>
          exact h.stay (fun _ e => by cases e) (fun _ => hc rfl) (fun _ e => by cases e)
            (fun _ => he)
      | _ =>
        cases hb
        exact h.stay (fun _ e => by cases e) (fun e => by cases e) (fun _ e => by cases e)
          (fun e => by cases e)

/-- With one thread that pushes and one that pops every update comes in time. -/
theorem roles_inTime {p c : τ} {as : List (Action τ α)} (hstart : (machine τ α SIZE).start s)
    (ha : (machine τ α SIZE).Along (Roles p c) s as) : (machine τ α SIZE).Along InTime s as := by
  have hidle : ∀ t, s.pc t = .idle := hstart.2
  refine ha.of_invariant (I := Single p c) (fun _ _ _ hr h hs => h.step hr hs)
    (fun _ a _ h => h.inTime a) ⟨hstart.1, ?_, ?_, ?_, ?_⟩
  · intro t _ h; rw [hidle t] at h; cases h
  · intro t h; rw [hidle t] at h; cases h
  · intro t _ h; rw [hidle t] at h; cases h
  · intro t h; rw [hidle t] at h; cases h

/-! ## Updates that come too late

Both halves of a call are short, so the window is narrow: two producers with one
free cell, or two consumers with one item left.  Both pass their test, and the
second update moves its position past the other one. -/

/-- Two producers with one free cell: the full queue reads as empty. -/
theorem late_write {q : Queue α SIZE} (hq : q.Valid) (h : q.pending.length + 2 = SIZE)
    (x y : α) : q.isFull = false ∧ ((q.write x).write y).isEmpty = true := by
  have hfull : q.isFull = false := by
    rw [hq.isFull_eq, beq_eq_false_iff_ne]
    omega
  have hnext : (q.write x).isFull = true := by
    rw [(hq.write_valid x).isFull_iff, hq.pending_write x hfull, List.length_append,
      List.length_singleton]
    omega
  exact ⟨hfull, isEmpty_write_full y hnext⟩

/-- Two consumers with one item left: the empty queue reads as full. -/
theorem late_read {q : Queue α SIZE} (hq : q.Valid) (h : q.pending.length = 1) :
    q.isEmpty = false ∧ q.read.read.pending.length + 1 = SIZE := by
  have hitem : q.isEmpty = false := by
    rw [hq.isEmpty_eq, List.isEmpty_eq_false_iff]
    exact fun e => by rw [e] at h; cases h
  have hnext : q.read.isEmpty = true := by
    rw [hq.pending_read hitem, List.length_cons] at h
    rw [hq.read_valid.isEmpty_iff]
    exact List.length_eq_zero_iff.mp (by omega)
  exact ⟨hitem, hq.read_valid.pending_read_empty hnext⟩

/-- Everything a linearized execution leaves in the queue was there or was pushed. -/
theorem mem_of_executes {q q' : List α} {calls : List (Operation (Op α) (Result α))}
    (h : Transition.executes (fifo SIZE) q calls q') {x : α} (hx : x ∈ q') :
    x ∈ q ∨ ∃ c ∈ calls, c.op = .push x := by
  induction calls generalizing q with
  | nil => rw [Transition.executes] at h; subst h; exact Or.inl hx
  | cons c cs ih =>
    rcases ih h.2 with hq | ⟨c', hc', e⟩
    · cases hop : c.op with
      | push item =>
        rw [hop, fifo] at hq
        split at hq
        · exact Or.inl hq
        · rcases List.mem_append.mp hq with hq | hq
          · exact Or.inl hq
          · exact Or.inr ⟨c, List.mem_cons_self, by rw [hop, List.mem_singleton.mp hq]⟩
      | pop => rw [hop] at hq; exact Or.inl (List.mem_of_mem_tail hq)
      | size => rw [hop] at hq; exact Or.inl hq
      | isEmpty => rw [hop] at hq; exact Or.inl hq
      | isFull => rw [hop] at hq; exact Or.inl hq
    · exact Or.inr ⟨c', List.mem_cons_of_mem _ hc', e⟩

/-- One item is pushed, and both threads test for it before either takes it. -/
def lostItemRun : List (Action Bool Nat) :=
  [.invoke true (.push 7), .block true, .block true, .respond true,
   .invoke true .pop, .invoke false .pop, .block true, .block false,
   .block true, .block false, .respond true, .respond false]

/-- Both `pop` calls of `lostItemRun` succeed, and the queue that held one item
is left with 1023. -/
theorem lostItemRun_not_linearizable :
    ∃ s, (machine Bool Nat 1024).start fresh ∧
      (machine Bool Nat 1024).run fresh lostItemRun = some s ∧ s.Quiet ∧
      ¬ Linearizable (fifo 1024) fresh.queue.pending s.queue.pending
        (history fresh lostItemRun) := by
  refine ⟨_, fresh_start, rfl, fun t => by cases t <;> rfl, ?_⟩
  rintro ⟨calls, h⟩
  -- The cell behind the item was never written, and it is pending now.
  have hmem : (0 : Nat) ∈ Ring.window (fun i => if i = 0 then 7 else 0) 1024 2 (1022 + 1) := by
    rw [Ring.window_succ]
    exact List.mem_cons_self
  rcases mem_of_executes h.executes hmem with hq | ⟨c, hc, hop⟩
  · exact List.not_mem_nil hq
  · have hinv := ((h.mem_iff c).mp hc).1
    rw [hop] at hinv
    have hist : history fresh lostItemRun =
        [.invoke 0 (.push 7), .respond 0 (.pushed true), .invoke 1 .pop, .invoke 2 .pop,
          .respond 1 (.popped (some 7)), .respond 2 (.popped (some 0))] := rfl
    rw [hist] at hinv
    simp at hinv

end Threads
end Queue
end GDNet
