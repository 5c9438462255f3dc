import DistributedOj.Framework.Run

/-!
# Runs of a system seen from elsewhere

Where each step of a system is, seen through `f`, a step of another one or
nothing, so is each run (`Run.project`). The version with an invariant of the
first system is `Run.project_inv`.
-/

namespace OJ.Framework

variable {σ ε σ' ε' : Type*} {step : σ → ε → Option σ} {step' : σ' → ε' → Option σ'} {C : σ → ε → Prop}
  {D : σ' → ε' → Prop} {f : σ → σ'} {s t : σ} {es : List ε}

/-- A step, seen through `f`: nothing, or a step under `D`. -/
def Shows (step' : σ' → ε' → Option σ') (D : σ' → ε' → Prop) (x y : σ') : Prop :=
  y = x ∨ ∃ e, D x e ∧ step' x e = some y

theorem Run.project (hf : ∀ s e s₁, C s e → step s e = some s₁ → Shows step' D (f s) (f s₁))
    (h : Run step C s es t) : ∃ es', Run step' D (f s) es' (f t) := by
  induction h with
  | nil s => exact ⟨[], .nil _⟩
  | cons hC hs _ ih =>
    obtain ⟨es', h'⟩ := ih
    rcases hf _ _ _ hC hs with e | ⟨e, hD, he⟩
    · exact ⟨es', e ▸ h'⟩
    · exact ⟨e :: es', .cons hD he h'⟩

theorem Run.project_inv {I : σ → Prop} (hI : ∀ s e s₁, I s → C s e → step s e = some s₁ → I s₁)
    (hf : ∀ s e s₁, I s → C s e → step s e = some s₁ → Shows step' D (f s) (f s₁))
    (h : Run step C s es t) (h₀ : I s) : ∃ es', Run step' D (f s) es' (f t) :=
  (h.with_inv hI h₀).project fun s e s₁ hC => hf s e s₁ hC.1 hC.2

end OJ.Framework
