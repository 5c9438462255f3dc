import Mathlib

/-!
# Two runs of a computation

Two computations are in step (`InStep`) if from states that are alike (`S`) they
come to states that are alike, with results that are alike (`R`). This is proved
part by part: `InStep.pure`, `InStep.bind` and what reads or changes the state.
With exceptions (`InStepE`) they also stop with the same one.
-/

namespace OJ.Framework

universe u

section
variable {σ α α' β β' : Type u} {S : σ → σ → Prop} {R R' : α → α' → Prop} {Q : β → β' → Prop}

def InStep (S : σ → σ → Prop) (R : α → α' → Prop) (x : StateM σ α) (y : StateM σ α') : Prop :=
  ∀ s t, S s t → R (x.run s).1 (y.run t).1 ∧ S (x.run s).2 (y.run t).2

namespace InStep

variable {x : StateM σ α} {y : StateM σ α'}

theorem pure {a : α} {b : α'} (h : R a b) : InStep S R (Pure.pure a) (Pure.pure b) :=
  fun _ _ hs => ⟨h, hs⟩

theorem bind {f : α → StateM σ β} {g : α' → StateM σ β'} (hx : InStep S R x y)
    (hf : ∀ a b, R a b → InStep S Q (f a) (g b)) : InStep S Q (x >>= f) (y >>= g) := fun s t hs => by
  obtain ⟨hr, hs'⟩ := hx s t hs
  exact hf _ _ hr _ _ hs'

end InStep

end

/-! ## With exceptions -/

section
variable {ε σ α α' β β' : Type u} {S : σ → σ → Prop} {R : α → α' → Prop} {Q : β → β' → Prop}

/-- The same exception, or results that are alike. -/
inductive SameOutcome (R : α → α' → Prop) : Except ε α → Except ε α' → Prop
  | ok {a : α} {b : α'} : R a b → SameOutcome R (.ok a) (.ok b)
  | error (e : ε) : SameOutcome R (.error e) (.error e)

theorem SameOutcome.map_eq {R : α → α' → Prop} {f : α → β} {g : α' → β} {x : Except ε α} {y : Except ε α'}
    (h : SameOutcome R x y) (hf : ∀ a b, R a b → f a = g b) : x.map f = y.map g := by
  cases h with
  | ok hr => exact congrArg Except.ok (hf _ _ hr)
  | error => rfl

def InStepE (S : σ → σ → Prop) (R : α → α' → Prop) (x : ExceptT ε (StateM σ) α)
    (y : ExceptT ε (StateM σ) α') : Prop :=
  InStep S (SameOutcome R) x.run y.run

namespace InStepE

variable {x : ExceptT ε (StateM σ) α} {y : ExceptT ε (StateM σ) α'}

theorem pure {a : α} {b : α'} (h : R a b) :
    InStepE S R (Pure.pure a : ExceptT ε (StateM σ) α) (Pure.pure b) :=
  InStep.pure (.ok h)

theorem throw (e : ε) : InStepE S R (throw e : ExceptT ε (StateM σ) α) (MonadExcept.throw e) :=
  InStep.pure (.error e)

theorem lift {x : StateM σ α} {y : StateM σ α'} (h : InStep S R x y) :
    InStepE S R (ExceptT.lift x : ExceptT ε (StateM σ) α) (ExceptT.lift y) := fun s t hs =>
  ⟨.ok (h s t hs).1, (h s t hs).2⟩

theorem bind {f : α → ExceptT ε (StateM σ) β} {g : α' → ExceptT ε (StateM σ) β'} (hx : InStepE S R x y)
    (hf : ∀ a b, R a b → InStepE S Q (f a) (g b)) : InStepE S Q (x >>= f) (y >>= g) := by
  rw [InStepE, ExceptT.run_bind, ExceptT.run_bind]
  refine InStep.bind hx fun a b hab => ?_
  cases hab with
  | ok hr => exact hf _ _ hr
  | error e => exact InStep.pure (.error e)

theorem get : InStepE S S (MonadState.get : ExceptT ε (StateM σ) σ) MonadState.get :=
  lift fun _ _ hs => ⟨hs, hs⟩

theorem update {f g : σ → σ} (h : ∀ s t, S s t → S (f s) (g t)) :
    InStepE S Eq (modify f : ExceptT ε (StateM σ) PUnit) (modify g) := fun s t hs =>
  ⟨.ok rfl, h s t hs⟩

theorem ite {p : Prop} [Decidable p] {x' : ExceptT ε (StateM σ) α} {y' : ExceptT ε (StateM σ) α'}
    (hx : InStepE S R x y) (hx' : InStepE S R x' y') :
    InStepE S R (if p then x else x') (if p then y else y') := by
  split
  · exact hx
  · exact hx'

end InStepE

end

end OJ.Framework
