import Mathlib.Logic.Relation
import Mathlib.Tactic.SplitIfs

/-!
# Runs of a guarded step function

A system is a step function that may fail and a guard that says which operations are allowed in a
state. A run is a finite sequence of allowed operations that all succeed. `Run.invariant` is the
induction over runs, and `execute` computes a run from a list of operations, so that a concrete one
can be evaluated (`run_of_execute`). `Recorded` adds to a state the states passed before it, for
properties that speak about the past.

`Outcome` is a postcondition for a computation that may fail, and `Outcome.bind` its rule for
sequences. `whileLoop` is a loop with a bound on its iterations, and `whileLoop_spec` its rule: an
invariant that counts the iterations shows that the bound is not reached.
-/

set_option autoImplicit false

namespace KvmUnitTests.Foundation

universe u v w

variable {σ : Type u} {ω : Type v} {ε : Type w}

theorem map_eq_ok {α : Type*} {f : α → σ} {x : Except ε α} {t : σ} (h : x.map f = .ok t) :
    ∃ a, x = .ok a ∧ f a = t := by
  cases x with
  | error e => cases h
  | ok a => exact ⟨a, rfl, Except.ok.inj h⟩

/-- One allowed operation that succeeds. -/
def GuardedStep (step : σ → ω → Except ε σ) (ok : σ → ω → Prop) (s t : σ) : Prop :=
  ∃ op, ok s op ∧ step s op = .ok t

/-- Finitely many allowed operations that succeed. -/
abbrev Run (step : σ → ω → Except ε σ) (ok : σ → ω → Prop) : σ → σ → Prop :=
  Relation.ReflTransGen (GuardedStep step ok)

variable {step : σ → ω → Except ε σ} {ok ok' : σ → ω → Prop} {s t : σ}

/-- What every allowed step preserves holds at the end of a run. -/
theorem Run.invariant {I : σ → Prop}
    (hstep : ∀ s op t, I s → ok s op → step s op = .ok t → I t) (hrun : Run step ok s t)
    (hs : I s) : I t := by
  induction hrun with
  | refl => exact hs
  | tail _ hlast ih =>
    obtain ⟨op, hok, hop⟩ := hlast
    exact hstep _ op _ ih hok hop

theorem Run.mono (h : ∀ s op, ok s op → ok' s op) (hrun : Run step ok s t) : Run step ok' s t :=
  Relation.ReflTransGen.mono (fun s _ ⟨op, hok, hop⟩ => ⟨op, h s op hok, hop⟩) s t hrun

/-- Perform the operations in order; `none` when one is not allowed or fails. -/
def execute (step : σ → ω → Except ε σ) (ok : σ → ω → Prop) [∀ s op, Decidable (ok s op)] :
    List ω → σ → Option σ
  | [], s => some s
  | op :: ops, s =>
    if ok s op then
      match step s op with
      | .ok t => execute step ok ops t
      | .error _ => none
    else none

theorem run_of_execute [∀ s op, Decidable (ok s op)] (ops : List ω) :
    ∀ s, execute step ok ops s = some t → Run step ok s t := by
  induction ops with
  | nil =>
    intro s h
    cases h
    exact Relation.ReflTransGen.refl
  | cons op ops ih =>
    intro s h
    simp only [execute] at h
    split_ifs at h with hok
    cases hop : step s op with
    | error e =>
      rw [hop] at h
      cases h
    | ok r =>
      rw [hop] at h
      exact Relation.ReflTransGen.head ⟨op, hok, hop⟩ (ih r h)

/-- A state that a concrete run reaches, with a property that can be evaluated. -/
theorem exists_run_of_execute (step : σ → ω → Except ε σ) (ok : σ → ω → Prop)
    [∀ s op, Decidable (ok s op)] (s : σ) (ops : List ω) (q : σ → Prop) [DecidablePred q]
    (h : (execute step ok ops s).any (fun t => q t) = true) : ∃ t, Run step ok s t ∧ q t := by
  cases hex : execute step ok ops s with
  | none =>
    rw [hex] at h
    cases h
  | some t =>
    rw [hex] at h
    exact ⟨t, run_of_execute ops s hex, of_decide_eq_true h⟩

/-- Whether a computation has a result with a property can be evaluated. -/
instance decidableExistsOk {α : Type*} {q : α → Prop} [DecidablePred q] (r : Except ε α) :
    Decidable (∃ x, r = .ok x ∧ q x) :=
  match r with
  | .error _ => .isFalse fun ⟨_, h, _⟩ => nomatch h
  | .ok x => decidable_of_iff (q x) (by simp)

instance decidableEqError {α : Type*} [DecidableEq ε] (r : Except ε α) (e : ε) :
    Decidable (r = .error e) :=
  match r with
  | .error e' => decidable_of_iff (e' = e) (by simp)
  | .ok _ => .isFalse nofun

/-! ## Runs with their past -/

/-- A state and the states passed before it, the latest first. -/
structure Recorded (σ : Type u) where
  now : σ
  past : List σ

/-- All states of the run so far. -/
def Recorded.visited (h : Recorded σ) : List σ := h.now :: h.past

/-- The step function with a record of the past. -/
def recordStep (step : σ → ω → Except ε σ) (h : Recorded σ) (op : ω) : Except ε (Recorded σ) :=
  (step h.now op).map fun t => ⟨t, h.visited⟩

theorem Run.now {h k : Recorded σ} (hrun : Run (recordStep step) (fun h op => ok h.now op) h k) :
    Run step ok h.now k.now := by
  refine Relation.ReflTransGen.lift Recorded.now (fun a b hlast => ?_) h k hrun
  obtain ⟨op, hok, hop⟩ := hlast
  obtain ⟨t, hstep, rfl⟩ := map_eq_ok hop
  exact ⟨op, hok, hstep⟩

/-! ## Computations that may fail -/

variable {E E' : ε → Prop}

section Outcome

variable {α : Type u} {β : Type v} {P Q : α → Prop} {Q' : β → Prop}

/-- The errors of the computation are in `E`, its results in `Q`. -/
def Outcome (E : ε → Prop) (Q : α → Prop) : Except ε α → Prop
  | .error e => E e
  | .ok x => Q x

variable {r r' : Except ε α}

theorem Outcome.cases (h : Outcome E Q r) : (∃ e, E e ∧ r = .error e) ∨ ∃ x, r = .ok x ∧ Q x := by
  cases r with
  | error e => exact .inl ⟨e, h, rfl⟩
  | ok x => exact .inr ⟨x, rfl, h⟩

theorem Outcome.imp (h : Outcome E P r) (hQ : ∀ x, P x → Q x) : Outcome E Q r := by
  cases r with
  | error e => exact h
  | ok x => exact hQ x h

theorem Outcome.weaken (h : Outcome E Q r) (hE : ∀ e, E e → E' e) :
    Outcome E' Q r := by
  cases r with
  | error e => exact hE e h
  | ok x => exact h

theorem Outcome.map {g : α → β} (h : Outcome E Q r) (hg : ∀ x, Q x → Q' (g x)) :
    Outcome E Q' (r.map g) := by
  cases r with
  | error e => exact h
  | ok x => exact hg x h

variable {c : Prop} {f : α → Except ε β}

theorem Outcome.bind (h : Outcome E Q r)
    (hf : ∀ x, Q x → Outcome E Q' (f x)) : Outcome E Q' (r.bind f) := by
  cases r with
  | error e => exact h
  | ok x => exact hf x h

/-- What is left by every step that is allowed holds at the end of a run. -/
theorem Run.invariant_of_outcome {I : σ → Prop} {E : σ → ω → ε → Prop}
    (hstep : ∀ s op, I s → ok s op → Outcome (E s op) I (step s op)) (hrun : Run step ok s t)
    (hs : I s) : I t := by
  refine hrun.invariant (fun s op t hs hok hop => ?_) hs
  have h := hstep s op hs hok
  rw [hop] at h
  exact h

theorem Outcome.ite [Decidable c] (hr : c → Outcome E Q r) (hr' : ¬ c → Outcome E Q r') :
    Outcome E Q (if c then r else r') := by
  by_cases hc : c
  · rw [if_pos hc]
    exact hr hc
  · rw [if_neg hc]
    exact hr' hc

end Outcome

/-! ## Loops -/

/-- `while (cond) body`, for at most so many iterations; `stuck` when they do not suffice. -/
def whileLoop (stuck : ε) (cond : σ → Bool) (body : σ → Except ε σ) : Nat → σ → Except ε σ
  | 0, s => if cond s then .error stuck else .ok s
  | n + 1, s =>
    if cond s then
      match body s with
      | .error e => .error e
      | .ok t => whileLoop stuck cond body n t
    else .ok s

/-- A loop whose invariant counts its iterations makes `n` of them, unless its body fails. -/
theorem whileLoop_spec (stuck : ε) (cond : σ → Bool) (body : σ → Except ε σ) {I : Nat → σ → Prop}
    {n fuel : Nat} (hcond : ∀ i s, I i s → i ≤ n → (cond s = true ↔ i < n))
    (hbody : ∀ i s, I i s → i < n → Outcome E (I (i + 1)) (body s)) (hfuel : n ≤ fuel)
    (hs : I 0 s) : Outcome E (I n) (whileLoop stuck cond body fuel s) := by
  have hend : ∀ s, I n s → cond s = false := by
    intro s hs
    refine Bool.eq_false_iff.2 fun htrue => ?_
    exact Nat.lt_irrefl n ((hcond n s hs (Nat.le_refl n)).1 htrue)
  -- from any iteration on, with enough fuel for the rest
  have hrest : ∀ fuel i s, i ≤ n → n ≤ i + fuel → I i s →
      Outcome E (I n) (whileLoop stuck cond body fuel s) := by
    intro fuel
    induction fuel with
    | zero =>
      intro i s hi hle hs
      obtain rfl : i = n := Nat.le_antisymm hi hle
      rw [whileLoop, hend s hs]
      exact hs
    | succ fuel ih =>
      intro i s hi hle hs
      rw [whileLoop]
      rcases Nat.lt_or_eq_of_le hi with hlt | rfl
      · rw [if_pos ((hcond i s hs hi).2 hlt)]
        have hnext := hbody i s hs hlt
        revert hnext
        cases body s with
        | error e => exact id
        | ok t => exact ih (i + 1) t hlt (by omega)
      · rw [hend s hs]
        exact hs
  exact hrest fuel 0 s (Nat.zero_le n) (by omega) hs

end KvmUnitTests.Foundation
