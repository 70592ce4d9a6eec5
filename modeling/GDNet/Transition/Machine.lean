import Mathlib.Data.List.Basic

/-!
# Labelled machines and their runs

A machine moves from state to state under actions.  An action is everything the
scheduler and the environment decide about one atomic step, so `step` is a
function, and an action that is not enabled is answered by `none`.

The rules the rest of the development uses are `Reachable.invariant` for a
property of states, `run_preserves` for a property of states kept by the steps
that meet a side condition, and `run_trace` for a property of a state together
with what the run has shown so far.
-/

namespace Transition

structure Machine (σ α : Type*) where
  start : σ → Prop
  step : σ → α → Option σ

namespace Machine

variable {σ α ο τ β : Type*} (m : Machine σ α)

/-- The state after the actions in order, if every one of them was enabled. -/
def run : σ → List α → Option σ
  | s, [] => some s
  | s, a :: as => (m.step s a).bind fun t => run t as

/-- What a run shows, `view s a` being what the step from `s` under `a` shows. -/
def trace (view : σ → α → List ο) : σ → List α → List ο
  | _, [] => []
  | s, a :: as =>
    match m.step s a with
    | none => []
    | some t => view s a ++ trace view t as

/-- Every step of the run meets the condition in the state it is taken in. -/
def Along (cond : σ → α → Prop) : σ → List α → Prop
  | _, [] => True
  | s, a :: as => cond s a ∧ ∀ t, m.step s a = some t → Along cond t as

def Reachable (s : σ) : Prop := ∃ s₀ as, m.start s₀ ∧ m.run s₀ as = some s

variable {m}

@[simp] theorem run_nil (s : σ) : m.run s [] = some s := rfl

theorem run_cons {s t : σ} {a : α} {as : List α} :
    m.run s (a :: as) = some t ↔ ∃ u, m.step s a = some u ∧ m.run u as = some t := by
  rw [run, Option.bind_eq_some_iff]

theorem run_append {s t : σ} {as bs : List α} :
    m.run s (as ++ bs) = some t ↔ ∃ u, m.run s as = some u ∧ m.run u bs = some t := by
  induction as generalizing s with
  | nil => simp
  | cons a as ih =>
    rw [List.cons_append, run_cons]
    constructor
    · rintro ⟨u, hu, h⟩
      obtain ⟨v, hv, hb⟩ := ih.mp h
      exact ⟨v, run_cons.mpr ⟨u, hu, hv⟩, hb⟩
    · rintro ⟨v, hv, hb⟩
      obtain ⟨u, hu, h⟩ := run_cons.mp hv
      exact ⟨u, hu, ih.mpr ⟨v, h, hb⟩⟩

theorem run_single {s t : σ} {a : α} : m.run s [a] = some t ↔ m.step s a = some t := by
  rw [run_cons]
  exact ⟨fun ⟨_, h, e⟩ => by rw [h]; exact e, fun h => ⟨t, h, rfl⟩⟩

theorem trace_cons {view : σ → α → List ο} {s t : σ} {a : α} (as : List α)
    (h : m.step s a = some t) :
    m.trace view s (a :: as) = view s a ++ m.trace view t as := by
  rw [trace, h]

theorem trace_append {view : σ → α → List ο} {s t : σ} {as : List α} (bs : List α)
    (h : m.run s as = some t) :
    m.trace view s (as ++ bs) = m.trace view s as ++ m.trace view t bs := by
  induction as generalizing s with
  | nil =>
    obtain rfl : s = t := Option.some.inj h
    rfl
  | cons a as ih =>
    obtain ⟨u, hu, hr⟩ := run_cons.mp h
    rw [List.cons_append, trace_cons _ hu, trace_cons _ hu, ih hr, List.append_assoc]

theorem trace_single {view : σ → α → List ο} {s t : σ} {a : α} (h : m.step s a = some t) :
    m.trace view s [a] = view s a := by
  rw [trace_cons [] h, trace, List.append_nil]

/-- A reading of what each step shows reads what the run shows. -/
theorem trace_hom {view : σ → α → List ο} {f : List ο → List τ} (hnil : f [] = [])
    (happ : ∀ xs ys, f (xs ++ ys) = f xs ++ f ys) (s : σ) (as : List α) :
    m.trace (fun s a => f (view s a)) s as = f (m.trace view s as) := by
  induction as generalizing s with
  | nil => exact hnil.symm
  | cons a as ih =>
    cases hs : m.step s a with
    | none => simp [trace, hs, hnil]
    | some t => rw [trace_cons as hs, trace_cons as hs, happ, ih]

theorem mem_trace {view : σ → α → List ο} {s : σ} {as : List α} {x : ο}
    (h : x ∈ m.trace view s as) :
    ∃ bs a cs u t, as = bs ++ a :: cs ∧ m.run s bs = some u ∧ m.step u a = some t ∧
      x ∈ view u a := by
  induction as generalizing s with
  | nil => simp [trace] at h
  | cons a as ih =>
    cases hs : m.step s a with
    | none => simp [trace, hs] at h
    | some t =>
      rw [trace_cons as hs, List.mem_append] at h
      rcases h with h | h
      · exact ⟨[], a, as, s, t, rfl, rfl, hs, h⟩
      · obtain ⟨bs, b, cs, u, v, rfl, hr, hv, hx⟩ := ih h
        exact ⟨a :: bs, b, cs, u, v, rfl, run_cons.mpr ⟨t, hs, hr⟩, hv, hx⟩

theorem along_cons {cond : σ → α → Prop} {s t : σ} {a : α} {as : List α}
    (hs : m.step s a = some t) :
    m.Along cond s (a :: as) ↔ cond s a ∧ m.Along cond t as := by
  constructor
  · exact fun h => ⟨h.1, h.2 t hs⟩
  · rintro ⟨hc, ha⟩
    refine ⟨hc, fun u hu => ?_⟩
    obtain rfl : t = u := Option.some.inj (hs.symm.trans hu)
    exact ha

/-- A condition that can be tested can be tested along a run. -/
instance decidableAlong (cond : σ → α → Prop) [∀ s a, Decidable (cond s a)] :
    ∀ s as, Decidable (m.Along cond s as)
  | _, [] => inferInstanceAs (Decidable True)
  | s, a :: as =>
    match h : m.step s a with
    | none => decidable_of_iff (cond s a) ⟨fun hc => ⟨hc, by simp [h]⟩, And.left⟩
    | some t =>
      have := decidableAlong cond t as
      decidable_of_iff (cond s a ∧ m.Along cond t as) (along_cons h).symm

theorem along_append {cond : σ → α → Prop} {s t : σ} {as bs : List α}
    (hr : m.run s as = some t) :
    m.Along cond s (as ++ bs) ↔ m.Along cond s as ∧ m.Along cond t bs := by
  induction as generalizing s with
  | nil =>
    obtain rfl : s = t := Option.some.inj hr
    simp [Along]
  | cons a as ih =>
    obtain ⟨u, hu, hr⟩ := run_cons.mp hr
    rw [List.cons_append, along_cons hu, along_cons hu, ih hr, and_assoc]

theorem Along.mono {cond cond' : σ → α → Prop} (h : ∀ s a, cond s a → cond' s a) {s : σ}
    {as : List α} (ha : m.Along cond s as) : m.Along cond' s as := by
  induction as generalizing s with
  | nil => trivial
  | cons a as ih => exact ⟨h s a ha.1, fun t ht => ih (ha.2 t ht)⟩

/-- A property kept by every step that meets `cond` is kept by every run that
meets `cond` throughout. -/
theorem run_preserves {cond : σ → α → Prop} {I : σ → Prop}
    (hI : ∀ s a t, cond s a → I s → m.step s a = some t → I t)
    {s t : σ} {as : List α} (hc : m.Along cond s as) (hs : I s)
    (hr : m.run s as = some t) : I t := by
  induction as generalizing s with
  | nil => exact Option.some.inj hr ▸ hs
  | cons a as ih =>
    obtain ⟨u, hu, hr⟩ := run_cons.mp hr
    exact ih (hc.2 u hu) (hI s a u hc.1 hs hu) hr

/-- A side condition that the invariant gives at every step of the run. -/
theorem Along.of_invariant {cond cond' : σ → α → Prop} {I : σ → Prop}
    (hI : ∀ s a t, cond s a → I s → m.step s a = some t → I t)
    (hc : ∀ s a, cond s a → I s → cond' s a) {s : σ} {as : List α}
    (ha : m.Along cond s as) (hs : I s) : m.Along cond' s as := by
  induction as generalizing s with
  | nil => trivial
  | cons a as ih =>
    exact ⟨hc s a ha.1 hs, fun t ht => ih (ha.2 t ht) (hI s a t ha.1 hs ht)⟩

theorem along_true (s : σ) (as : List α) : m.Along (fun _ _ => True) s as := by
  induction as generalizing s with
  | nil => trivial
  | cons a as ih => exact ⟨trivial, fun t _ => ih t⟩

theorem run_invariant {I : σ → Prop} (hI : ∀ s a t, I s → m.step s a = some t → I t)
    {s t : σ} {as : List α} (hs : I s) (hr : m.run s as = some t) : I t :=
  run_preserves (fun s a t _ => hI s a t) (along_true s as) hs hr

/-- A relation between a state and what the run has shown, kept by every step. -/
theorem run_trace {view : σ → α → List ο} {cond : σ → α → Prop} {I : σ → List ο → Prop}
    (hI : ∀ s a t seen, cond s a → I s seen → m.step s a = some t → I t (seen ++ view s a))
    {s t : σ} {as : List α} {seen : List ο} (hc : m.Along cond s as) (hs : I s seen)
    (hr : m.run s as = some t) : I t (seen ++ m.trace view s as) := by
  induction as generalizing s seen with
  | nil =>
    obtain rfl : s = t := Option.some.inj hr
    rw [trace, List.append_nil]
    exact hs
  | cons a as ih =>
    obtain ⟨u, hu, hr⟩ := run_cons.mp hr
    rw [trace_cons as hu, ← List.append_assoc]
    exact ih (hc.2 u hu) (hI s a u seen hc.1 hs hu) hr

/-- What is put in and not got out yet is kept, in order. -/
theorem run_conserves {cond : σ → α → Prop} {I : σ → Prop} {content : σ → List ο}
    {put got : σ → α → List ο}
    (hI : ∀ s a t, cond s a → I s → m.step s a = some t →
      I t ∧ content s ++ put s a = got s a ++ content t)
    {s t : σ} {as : List α} (hc : m.Along cond s as) (hs : I s) (hr : m.run s as = some t) :
    content s ++ m.trace put s as = m.trace got s as ++ content t := by
  induction as generalizing s with
  | nil =>
    obtain rfl : s = t := Option.some.inj hr
    simp [trace]
  | cons a as ih =>
    obtain ⟨u, hu, hr⟩ := run_cons.mp hr
    obtain ⟨hIu, hstep⟩ := hI s a u hc.1 hs hu
    calc content s ++ m.trace put s (a :: as)
        = (content s ++ put s a) ++ m.trace put u as := by
          rw [trace_cons as hu, List.append_assoc]
      _ = got s a ++ (content u ++ m.trace put u as) := by rw [hstep, List.append_assoc]
      _ = got s a ++ (m.trace got u as ++ content t) := by rw [ih (hc.2 u hu) hIu hr]
      _ = m.trace got s (a :: as) ++ content t := by rw [trace_cons as hu, List.append_assoc]

/-- What holds at the end of a run has held from the start or from one of its steps on,
and `f` has not changed since. -/
theorem run_enters {ι : Type*} {f : σ → ι} {P I : σ → Prop} {cond enters : σ → α → Prop}
    (hI : ∀ s a t, cond s a → I s → m.step s a = some t →
      I t ∧ (P t → f t = f s ∧ (P s ∨ enters s a)))
    {s t : σ} {as : List α} (hc : m.Along cond s as) (hs : I s) (hr : m.run s as = some t)
    (ht : P t) :
    P s ∧ f t = f s ∨
      ∃ bs a cs u, as = bs ++ a :: cs ∧ m.run s bs = some u ∧ enters u a ∧ f t = f u := by
  induction as generalizing s with
  | nil =>
    obtain rfl : s = t := Option.some.inj hr
    exact Or.inl ⟨ht, rfl⟩
  | cons a as ih =>
    obtain ⟨u, hu, hr⟩ := run_cons.mp hr
    obtain ⟨hIu, hstep⟩ := hI s a u hc.1 hs hu
    rcases ih (hc.2 u hu) hIu hr with ⟨hPu, hfu⟩ | ⟨bs, b, cs, v, rfl, hv, hb, hf⟩
    · obtain ⟨hfs, hPs | henters⟩ := hstep hPu
      · exact Or.inl ⟨hPs, hfu.trans hfs⟩
      · exact Or.inr ⟨[], a, as, s, rfl, rfl, henters, hfu.trans hfs⟩
    · exact Or.inr ⟨a :: bs, b, cs, v, rfl, run_cons.mpr ⟨u, hu, hv⟩, hb, hf⟩

/-- A number that no step lowers is the same at the end exactly if every step kept it. -/
theorem run_measure {μ : σ → Nat} {cond : σ → α → Prop} {I : σ → Prop}
    (hI : ∀ s a t, I s → m.step s a = some t → I t ∧ μ s ≤ μ t ∧ (μ t = μ s ↔ cond s a))
    {s t : σ} {as : List α} (hs : I s) (hr : m.run s as = some t) :
    μ s ≤ μ t ∧ (μ t = μ s ↔ m.Along cond s as) := by
  induction as generalizing s with
  | nil =>
    obtain rfl : s = t := Option.some.inj hr
    exact ⟨Nat.le_refl _, iff_of_true rfl trivial⟩
  | cons a as ih =>
    obtain ⟨u, hu, hr⟩ := run_cons.mp hr
    obtain ⟨hIu, hle, hstep⟩ := hI s a u hs hu
    obtain ⟨hle', hrun⟩ := ih hIu hr
    refine ⟨Nat.le_trans hle hle', fun he => ⟨hstep.mp (by omega), fun v hv => ?_⟩, fun hc => ?_⟩
    · obtain rfl : u = v := Option.some.inj (hu.symm.trans hv)
      exact hrun.mp (by omega)
    · have hu' := hstep.mpr hc.1
      have ht := hrun.mpr (hc.2 u hu)
      omega

/-- A step of `m` is a step of `n` under the same action that shows the same. -/
theorem run_refines {n : Machine τ α} {R : σ → τ → Prop} {view : σ → α → List ο}
    {view' : τ → α → List ο}
    (hR : ∀ s x a t, R s x → m.step s a = some t →
      ∃ y, n.step x a = some y ∧ R t y ∧ view s a = view' x a)
    {s t : σ} {x : τ} {as : List α} (hs : R s x) (hr : m.run s as = some t) :
    ∃ y, n.run x as = some y ∧ R t y ∧ m.trace view s as = n.trace view' x as := by
  induction as generalizing s x with
  | nil =>
    obtain rfl : s = t := Option.some.inj hr
    exact ⟨x, rfl, hs, rfl⟩
  | cons a as ih =>
    obtain ⟨u, hu, hr⟩ := run_cons.mp hr
    obtain ⟨z, hz, hRz, hview⟩ := hR s x a u hs hu
    obtain ⟨y, hy, hRy, htrace⟩ := ih hRz hr
    refine ⟨y, run_cons.mpr ⟨z, hz, hy⟩, hRy, ?_⟩
    rw [trace_cons as hu, trace_cons as hz, hview, htrace]

theorem Reachable.start {s : σ} (h : m.start s) : m.Reachable s := ⟨s, [], h, rfl⟩

theorem Reachable.run {s t : σ} {as : List α} (h : m.Reachable s)
    (hr : m.run s as = some t) : m.Reachable t := by
  obtain ⟨s₀, bs, h₀, hb⟩ := h
  exact ⟨s₀, bs ++ as, h₀, run_append.mpr ⟨s, hb, hr⟩⟩

theorem Reachable.step {s t : σ} {a : α} (h : m.Reachable s) (hs : m.step s a = some t) :
    m.Reachable t :=
  h.run (run_single.mpr hs)

theorem Reachable.invariant {I : σ → Prop} (h₀ : ∀ s, m.start s → I s)
    (hI : ∀ s a t, I s → m.step s a = some t → I t) {s : σ} (h : m.Reachable s) : I s := by
  obtain ⟨s₀, as, hs, hr⟩ := h
  exact run_invariant hI (h₀ s₀ hs) hr

/-- Each step of `m` is, through `f`, either no step or one step of `n`. -/
structure Simulation (m : Machine σ α) (n : Machine τ β) (f : σ → τ) : Prop where
  start : ∀ s, m.start s → n.start (f s)
  step : ∀ s a t, m.Reachable s → n.Reachable (f s) → m.step s a = some t →
    f t = f s ∨ ∃ b, n.step (f s) b = some (f t)

theorem Simulation.reachable {n : Machine τ β} {f : σ → τ} (sim : Simulation m n f) {s : σ}
    (h : m.Reachable s) : n.Reachable (f s) := by
  refine (h.invariant (I := fun s => m.Reachable s ∧ n.Reachable (f s)) ?_ ?_).2
  · exact fun s h₀ => ⟨.start h₀, .start (sim.start s h₀)⟩
  · rintro s a t ⟨hm, hn⟩ hst
    refine ⟨hm.step hst, ?_⟩
    rcases sim.step s a t hm hn hst with h | ⟨b, hb⟩
    · rw [h]
      exact hn
    · exact hn.step hb

end Machine
end Transition
