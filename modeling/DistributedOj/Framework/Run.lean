import Mathlib

/-!
# Runs of a guarded step function

A model is a step function `step : σ → ε → Option σ`: `step s e` is the state
after the event `e`, or `none` if `e` cannot happen in `s`. `Run step C s es t`
says that the events `es` lead from `s` to `t`, each of them meeting the
condition `C` in the state it happens in; what the environment may do is such
a condition. The rules:

* `Run.inv`, `Run.inv_trace`: what every step keeps holds along a run, also
  for what is said of the events so far, as that something has `Happened`;
* `Run.length_le`, `Run.countP_le`: a measure that every step decreases bounds the
  run, and one that some steps decrease, their number;
* `Ends`: every run is bounded, and one that nothing can extend is in a final
  state (`Ends.of_measure`).
-/

namespace OJ.Framework

variable {σ ε : Type*} {step : σ → ε → Option σ} {C D : σ → ε → Prop}

/-- The events `es` lead from `s` to `t`, each meeting `C` where it happens. -/
inductive Run (step : σ → ε → Option σ) (C : σ → ε → Prop) : σ → List ε → σ → Prop
  | nil (s : σ) : Run step C s [] s
  | cons {s s₁ t : σ} {e : ε} {es : List ε} :
      C s e → step s e = some s₁ → Run step C s₁ es t → Run step C s (e :: es) t

/-- Any step. -/
def Free (_ : σ) (_ : ε) : Prop := True

instance (s : σ) (e : ε) : Decidable (Free s e) := isTrue trivial

/-- The state after the events `es`, or `none` if one of them cannot happen or
does not meet `C`. -/
def replay (step : σ → ε → Option σ) (C : σ → ε → Prop) [∀ s e, Decidable (C s e)] :
    σ → List ε → Option σ
  | s, [] => some s
  | s, e :: es => if C s e then (step s e).bind fun s₁ => replay step C s₁ es else none

theorem Run.of_replay [∀ s e, Decidable (C s e)] {s t : σ} {es : List ε}
    (h : replay step C s es = some t) : Run step C s es t := by
  induction es generalizing s with
  | nil => cases h; exact .nil _
  | cons e es ih =>
    rw [replay] at h
    split at h
    · next hC =>
      obtain ⟨s₁, h₁, h₂⟩ := Option.bind_eq_some_iff.mp h
      exact .cons hC h₁ (ih h₂)
    · cases h

theorem Run.mono {s t : σ} {es : List ε} (h : Run step C s es t) (hCD : ∀ s e, C s e → D s e) :
    Run step D s es t := by
  induction h with
  | nil s => exact .nil s
  | cons hC hs _ ih => exact .cons (hCD _ _ hC) hs ih

theorem Run.mono_mem {s t : σ} {es : List ε} (h : Run step C s es t)
    (hCD : ∀ e ∈ es, ∀ s, C s e → D s e) : Run step D s es t := by
  induction h with
  | nil s => exact .nil s
  | cons hC hs _ ih =>
    exact .cons (hCD _ List.mem_cons_self _ hC) hs (ih fun e he => hCD e (List.mem_cons_of_mem _ he))

/-- A run whose steps all meet a condition. -/
theorem Run.of_forall {s t : σ} {es : List ε} (h : Run step C s es t)
    (hD : ∀ es₁ e es₂ s₁ s₂, es = es₁ ++ e :: es₂ → Run step C s es₁ s₁ → C s₁ e →
      step s₁ e = some s₂ → D s₁ e) : Run step D s es t := by
  induction h with
  | nil s => exact .nil s
  | @cons s s₁ t e es hC hs _ ih =>
    refine .cons (hD [] e es s s₁ rfl (.nil s) hC hs) hs (ih ?_)
    intro es₁ e' es₂ s₂ s₃ he h₁ hC' hs'
    exact hD (e :: es₁) e' es₂ s₂ s₃ (by rw [he]; rfl) (.cons hC hs h₁) hC' hs'

theorem Run.forall_mem {P : ε → Prop} {s t : σ} {es : List ε}
    (h : Run step (fun _ e => P e) s es t) : ∀ e ∈ es, P e := by
  induction h with
  | nil s => exact fun e he => absurd he List.not_mem_nil
  | cons hC _ _ ih =>
    intro e he
    rcases List.mem_cons.mp he with rfl | he
    · exact hC
    · exact ih e he

theorem Run.append {s t u : σ} {es fs : List ε} (h₁ : Run step C s es t) (h₂ : Run step C t fs u) :
    Run step C s (es ++ fs) u := by
  induction h₁ with
  | nil _ => exact h₂
  | cons hC hs _ ih => exact .cons hC hs (ih h₂)

theorem Run.single {s t : σ} {e : ε} (hC : C s e) (hs : step s e = some t) : Run step C s [e] t :=
  .cons hC hs (.nil t)

theorem Run.split {s u : σ} {es fs : List ε} (h : Run step C s (es ++ fs) u) :
    ∃ t, Run step C s es t ∧ Run step C t fs u := by
  induction es generalizing s with
  | nil => exact ⟨s, .nil s, h⟩
  | cons e es ih =>
    cases h with
    | cons hC hs h =>
      obtain ⟨t, h₁, h₂⟩ := ih h
      exact ⟨t, .cons hC hs h₁, h₂⟩

/-- The events determine where they lead. -/
theorem Run.det {s t u : σ} {es : List ε} (h₁ : Run step C s es t) (h₂ : Run step D s es u) : t = u := by
  induction h₁ with
  | nil s =>
    cases h₂
    rfl
  | cons _ hs _ ih =>
    cases h₂ with
    | cons _ hs' h₂ =>
      cases Option.some.inj (hs.symm.trans hs')
      exact ih h₂

/-! ## Invariants -/

/-- What every step keeps holds at the end of a run. -/
theorem Run.inv {I : σ → Prop} (hI : ∀ s e s₁, I s → C s e → step s e = some s₁ → I s₁) {s t : σ}
    {es : List ε} (h : Run step C s es t) (h₀ : I s) : I t := by
  induction h with
  | nil _ => exact h₀
  | cons hC hs _ ih => exact ih (hI _ _ _ h₀ hC hs)

/-- What is said of the events so far and the state, if every step keeps it. -/
theorem Run.inv_trace {I : List ε → σ → Prop} {s t : σ} {es : List ε} (h : Run step C s es t)
    (hI : ∀ es s e s₁, I es s → C s e → step s e = some s₁ → I (es ++ [e]) s₁) (h₀ : I [] s) :
    I es t := by
  have gen : ∀ {s t : σ} {es : List ε}, Run step C s es t → ∀ fs, I fs s → I (fs ++ es) t := by
    intro s t es h
    induction h with
    | nil _ => intro fs h; rwa [List.append_nil]
    | @cons _ _ _ e es hC hs _ ih =>
      intro fs h
      have := ih (fs ++ [e]) (hI _ _ _ _ h hC hs)
      rwa [List.append_assoc] at this
  exact gen h [] h₀

/-- The run together with an invariant of its states: every step meets `C` in
a state that has `I`. -/
theorem Run.with_inv {I : σ → Prop} (hI : ∀ s e s₁, I s → C s e → step s e = some s₁ → I s₁)
    {s t : σ} {es : List ε} (h : Run step C s es t) (h₀ : I s) :
    Run step (fun s e => I s ∧ C s e) s es t := by
  induction h with
  | nil s => exact .nil s
  | cons hC hs _ ih => exact .cons ⟨h₀, hC⟩ hs (ih (hI _ _ _ h₀ hC hs))

/-- Some event of a run had `P` in the state it happened in. -/
def Happened (step : σ → ε → Option σ) (C : σ → ε → Prop) (s : σ) (es : List ε)
    (P : σ → ε → Prop) : Prop :=
  ∃ es₁ e es₂ s₁, es = es₁ ++ e :: es₂ ∧ Run step C s es₁ s₁ ∧ P s₁ e

theorem Happened.concat {P : σ → ε → Prop} {s : σ} {es : List ε} (h : Happened step C s es P) (e : ε) :
    Happened step C s (es ++ [e]) P := by
  obtain ⟨es₁, e₁, es₂, s₁, rfl, h₁, hP⟩ := h
  refine ⟨es₁, e₁, es₂ ++ [e], s₁, ?_, h₁, hP⟩
  rw [List.append_assoc, List.cons_append]

theorem Run.happened {P : σ → ε → Prop} {s t : σ} {es : List ε} (h : Run step C s es t) {e : ε}
    (hP : P t e) : Happened step C s (es ++ [e]) P := ⟨es, e, [], t, rfl, h, hP⟩

/-- A run under two conditions. -/
theorem Run.and {s t u : σ} {es : List ε} (h₁ : Run step C s es t) (h₂ : Run step D s es u) :
    Run step (fun s e => C s e ∧ D s e) s es t := by
  induction h₁ with
  | nil s => exact .nil s
  | cons hC hs _ ih =>
    cases h₂ with
    | cons hD hs' h₂ =>
      cases Option.some.inj (hs.symm.trans hs')
      exact .cons ⟨hC, hD⟩ hs (ih h₂)

/-! ## Termination -/

/-- A measure that no step increases bounds the number of steps that decrease it. -/
theorem Run.countP_le (μ : σ → Nat) (p : ε → Bool)
    (hμ : ∀ s e s₁, C s e → step s e = some s₁ → μ s₁ + (p e).toNat ≤ μ s) {s t : σ} {es : List ε}
    (h : Run step C s es t) : es.countP p + μ t ≤ μ s := by
  induction h with
  | nil _ => simp
  | @cons s s₁ t e es hC hs _ ih =>
    have hstep := hμ s e s₁ hC hs
    rw [List.countP_cons]
    cases hp : p e with
    | true =>
      rw [hp, Bool.toNat_true] at hstep
      simp only [if_true]
      omega
    | false =>
      rw [hp, Bool.toNat_false] at hstep
      simp only [Bool.false_eq_true, if_false]
      omega

/-- A measure that every step decreases bounds the number of steps. -/
theorem Run.length_le (μ : σ → Nat) (hμ : ∀ s e s₁, C s e → step s e = some s₁ → μ s₁ < μ s)
    {s t : σ} {es : List ε} (h : Run step C s es t) : es.length + μ t ≤ μ s := by
  have hcount := h.countP_le μ (fun _ => true) hμ
  rwa [List.countP_true] at hcount

/-- Every run from `s` is bounded, and one that no event can extend is in a
final state. -/
structure Ends (step : σ → ε → Option σ) (C : σ → ε → Prop) (s : σ) (final : σ → Prop) : Prop where
  bound : ∃ B, ∀ es t, Run step C s es t → es.length ≤ B
  last : ∀ es t, Run step C s es t → (∀ e t₁, C t e → step t e ≠ some t₁) → final t

theorem Ends.of_measure {s : σ} {I final : σ → Prop} (μ : σ → Nat)
    (hI : ∀ s e s₁, I s → C s e → step s e = some s₁ → I s₁) (h₀ : I s)
    (hμ : ∀ s e s₁, I s → C s e → step s e = some s₁ → μ s₁ < μ s)
    (hf : ∀ s, I s → (∀ e s₁, C s e → step s e ≠ some s₁) → final s) : Ends step C s final where
  bound := ⟨μ s, fun es t h => by
    have := (h.with_inv hI h₀).length_le μ fun s e s₁ hs he => hμ s e s₁ hs.1 hs.2 he
    omega⟩
  last := fun _ t h hn => hf t (h.inv hI h₀) hn

end OJ.Framework
