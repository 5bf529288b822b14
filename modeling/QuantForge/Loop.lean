import Mathlib.Computability.StateTransition

/-!
# Loops and runs

A loop body is a function `f : σ → Option σ` that makes one iteration, or answers `none` when the loop is left;
`StateTransition.Reaches f a b` says that some number of iterations leads from `a` to `b`, and the loop ends from
`a` when `StateTransition.eval f a` is defined.  The rules used for loops here: an invariant of the body holds in
every state reached (`reaches_invariant`), a body that decreases a well-founded measure ends (`halts_of_measure`),
and a body that can never be left from a set of states does not (`not_halts_of_closed`).  What a loop does to the
outside on its way is a list of events, `Trace f emit a evs b`, where `emit` names the events of one iteration.
-/

namespace Loop

open StateTransition Relation

variable {σ : Type}

/-- The loop with body `f`, started in `a`, ends after finitely many iterations. -/
def Halts (f : σ → Option σ) (a : σ) : Prop := (eval f a).Dom

/-- The state after at most `n` iterations. -/
def iter (f : σ → Option σ) : ℕ → σ → σ
  | 0, a => a
  | n + 1, a => match f a with
    | none => a
    | some b => iter f n b

theorem reaches_iter (f : σ → Option σ) (n : ℕ) (a : σ) : Reaches f a (iter f n a) := by
  induction n generalizing a with
  | zero => exact ReflTransGen.refl
  | succ n ih =>
    unfold iter
    split
    · exact ReflTransGen.refl
    · rename_i b hb
      exact ReflTransGen.head hb (ih b)

theorem iter_succ (f : σ → Option σ) (n : ℕ) (a : σ) :
    iter f (n + 1) a = (f (iter f n a)).getD (iter f n a) := by
  induction n generalizing a with
  | zero =>
    unfold iter
    cases f a <;> simp [iter]
  | succ n ih =>
    rw [iter]
    rcases h : f a with _ | b
    · simp [iter, h]
    · simp only [iter, h]
      exact ih b

theorem reaches_iter_of_le (f : σ → Option σ) {m n : ℕ} (h : m ≤ n) (a : σ) :
    Reaches f (iter f m a) (iter f n a) := by
  induction n, h using Nat.le_induction with
  | base => exact ReflTransGen.refl
  | succ n _ ih =>
    rw [iter_succ]
    rcases hf : f (iter f n a) with _ | b
    · exact ih
    · exact ReflTransGen.tail ih hf

/-- Every state reached is reached after some number of iterations. -/
theorem exists_iter_of_reaches {f : σ → Option σ} {a b : σ} (h : Reaches f a b) : ∃ n, iter f n a = b := by
  induction h with
  | refl => exact ⟨0, rfl⟩
  | tail _ hs ih =>
    obtain ⟨n, hn⟩ := ih
    refine ⟨n + 1, ?_⟩
    rw [iter_succ, hn, Option.mem_def.1 hs]
    rfl

/-- A loop that has been left stays where it is. -/
theorem iter_of_none {f : σ → Option σ} {a : σ} {n k : ℕ} (h : f (iter f n a) = none) (hk : n ≤ k) :
    iter f k a = iter f n a := by
  induction k, hk using Nat.le_induction with
  | base => rfl
  | succ k _ ih => rw [iter_succ, ih, h]; rfl

theorem reaches_invariant {f : σ → Option σ} {P : σ → Prop} (hstep : ∀ a b, P a → f a = some b → P b)
    {a b : σ} (ha : P a) (h : Reaches f a b) : P b := by
  induction h with
  | refl => exact ha
  | tail _ hs ih => exact hstep _ _ ih hs

theorem halts_of_none {f : σ → Option σ} {a : σ} (h : f a = none) : Halts f a :=
  Part.dom_iff_mem.2 ⟨a, mem_eval.2 ⟨ReflTransGen.refl, h⟩⟩

theorem halts_of_step {f : σ → Option σ} {a b : σ} (h : f a = some b) (hb : Halts f b) : Halts f a := by
  obtain ⟨c, hc⟩ := Part.dom_iff_mem.1 hb
  obtain ⟨h1, h2⟩ := mem_eval.1 hc
  exact Part.dom_iff_mem.2 ⟨c, mem_eval.2 ⟨ReflTransGen.head h h1, h2⟩⟩

/-- Termination by a measure that every iteration from a state of the invariant decreases. -/
theorem halts_of_measure {M : Type} {r : M → M → Prop} (hr : WellFounded r) (m : σ → M) {f : σ → Option σ}
    {P : σ → Prop} (hstep : ∀ a b, P a → f a = some b → P b ∧ r (m b) (m a)) {a : σ} (ha : P a) :
    Halts f a := by
  induction h : m a using hr.induction generalizing a with
  | _ x ih =>
    subst h
    rcases hf : f a with _ | b
    · exact halts_of_none hf
    · obtain ⟨hb, hlt⟩ := hstep a b ha hf
      exact halts_of_step hf (ih (m b) hlt hb rfl)

/-- A loop whose body always makes another iteration inside `P` does not end. -/
theorem not_halts_of_closed {f : σ → Option σ} {P : σ → Prop} (hstep : ∀ a, P a → ∃ b, f a = some b ∧ P b)
    {a : σ} (ha : P a) : ¬ Halts f a := by
  intro h
  obtain ⟨c, hc⟩ := Part.dom_iff_mem.1 h
  obtain ⟨hac, hnone⟩ := mem_eval.1 hc
  have hPc : P c := by
    refine reaches_invariant (P := P) ?_ ha hac
    intro x y hx hxy
    obtain ⟨z, hz, hPz⟩ := hstep x hx
    rw [hxy, Option.some.injEq] at hz
    exact hz ▸ hPz
  obtain ⟨d, hd, -⟩ := hstep c hPc
  rw [hnone] at hd
  cases hd

/-! ### Events -/

section Trace

variable {ε : Type} {f : σ → Option σ} {emit : σ → List ε} {a b : σ} {evs : List ε}

/-- The iterations that lead from `a` to `b` emit the events `evs`. -/
inductive Trace (f : σ → Option σ) (emit : σ → List ε) (a : σ) : List ε → σ → Prop
  | refl : Trace f emit a [] a
  | tail {evs : List ε} {b c : σ} (h : Trace f emit a evs b) (hs : f b = some c) : Trace f emit a (evs ++ emit b) c

theorem Trace.reaches (h : Trace f emit a evs b) : Reaches f a b := by
  induction h with
  | refl => exact ReflTransGen.refl
  | tail _ hs ih => exact ReflTransGen.tail ih hs

theorem exists_trace (emit : σ → List ε) (h : Reaches f a b) : ∃ evs, Trace f emit a evs b := by
  induction h with
  | refl => exact ⟨[], .refl⟩
  | tail _ hs ih =>
    obtain ⟨evs, h⟩ := ih
    exact ⟨_, h.tail hs⟩

/-- A relation between the events so far and the state that every iteration keeps. -/
theorem trace_invariant {P : List ε → σ → Prop} (h0 : P [] a)
    (hstep : ∀ evs b c, Reaches f a b → P evs b → f b = some c → P (evs ++ emit b) c) (h : Trace f emit a evs b) :
    P evs b := by
  induction h with
  | refl => exact h0
  | tail h hs ih => exact hstep _ _ _ h.reaches ih hs

/-- The events after `n` iterations. -/
def events (f : σ → Option σ) (emit : σ → List ε) : ℕ → σ → List ε
  | 0, _ => []
  | n + 1, a => match f a with
    | none => []
    | some b => emit a ++ events f emit n b

theorem Trace.head {c : σ} (hs : f a = some b) (h : Trace f emit b evs c) : Trace f emit a (emit a ++ evs) c := by
  induction h with
  | refl =>
    rw [List.append_nil]
    exact Trace.refl.tail hs
  | tail _ hs' ih =>
    rw [← List.append_assoc]
    exact ih.tail hs'

theorem trace_iter (f : σ → Option σ) (emit : σ → List ε) (n : ℕ) (a : σ) :
    Trace f emit a (events f emit n a) (iter f n a) := by
  induction n generalizing a with
  | zero => exact .refl
  | succ n ih =>
    unfold events iter
    split
    · exact .refl
    · rename_i b hb
      exact (ih b).head hb

/-- Forward simulation: the other loop follows iteration by iteration and emits the same events. -/
theorem Trace.simulate {τ : Type} {g : τ → Option τ} {emit' : τ → List ε} {R : σ → τ → Prop}
    (hstep : ∀ b c t, Reaches f a b → R b t → f b = some c → ∃ t', g t = some t' ∧ R c t' ∧ emit' t = emit b)
    (h : Trace f emit a evs b) {t : τ} (hR : R a t) : ∃ t', R b t' ∧ Trace g emit' t evs t' := by
  induction h with
  | refl => exact ⟨t, hR, .refl⟩
  | tail h hs ih =>
    obtain ⟨u, hu, htrace⟩ := ih
    obtain ⟨u', hs', hu', hemit⟩ := hstep _ _ u h.reaches hu hs
    exact ⟨u', hu', hemit ▸ htrace.tail hs'⟩

/-- Backward simulation: what is chosen late in the one loop is known from the start in the other, so that the
iterations are matched from the last to the first. -/
theorem Trace.simulate_back {τ : Type} {g : τ → Option τ} {emit' : τ → List ε} {R : σ → τ → Prop}
    (hstep : ∀ a b t', f a = some b → R b t' → ∃ t, g t = some t' ∧ R a t ∧ emit' t = emit a)
    (h : Trace f emit a evs b) {t' : τ} (hR : R b t') : ∃ t, R a t ∧ Trace g emit' t evs t' := by
  induction h generalizing t' with
  | refl => exact ⟨t', hR, .refl⟩
  | tail _ hs ih =>
    obtain ⟨u, hs', hu, hemit⟩ := hstep _ _ t' hs hR
    obtain ⟨t, ht, htrace⟩ := ih hu
    exact ⟨t, ht, hemit ▸ htrace.tail hs'⟩

theorem Trace.trans {evs' : List ε} {c : σ} (h : Trace f emit a evs b) (h' : Trace f emit b evs' c) :
    Trace f emit a (evs ++ evs') c := by
  induction h' with
  | refl => rwa [List.append_nil]
  | tail _ hs ih =>
    rw [← List.append_assoc]
    exact ih.tail hs

/-- Iterations that change nothing of what is looked at, and emit nothing, can be left out. -/
theorem trace_project_iff {τ : Type} {g : τ → Option τ} {emit' : τ → List ε} {p : σ → τ}
    (hforth : ∀ a b, f a = some b → p b = p a ∧ emit a = [] ∨ g (p a) = some (p b) ∧ emit' (p a) = emit a)
    (hback : ∀ a t, g (p a) = some t → ∃ b, p b = t ∧ Trace f emit a (emit' (p a)) b) {t : τ} :
    Trace g emit' (p a) evs t ↔ ∃ b, p b = t ∧ Trace f emit a evs b := by
  constructor
  · intro h
    induction h with
    | refl => exact ⟨a, rfl, .refl⟩
    | tail _ hs ih =>
      obtain ⟨b, rfl, hb⟩ := ih
      obtain ⟨c, rfl, hc⟩ := hback b _ hs
      exact ⟨c, rfl, hb.trans hc⟩
  · rintro ⟨b, rfl, h⟩
    induction h with
    | refl => exact .refl
    | tail _ hs ih =>
      rcases hforth _ _ hs with ⟨hp, hemit⟩ | ⟨hstep, hemit⟩
      · rwa [hp, hemit, List.append_nil]
      · exact hemit ▸ ih.tail hstep

end Trace

end Loop
