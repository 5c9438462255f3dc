import Mathlib

/-!
# Computations with a log

A computation on a state may note what it does in a log that it never reads
(`Logged`). Without its notes it is a plain computation (`Erases`), which is
proved part by part: `Erases.of`, `Erases.note` and `Erases.bind`.
-/

namespace OJ.Framework

universe u

variable {σ ν β γ : Type u}

/-- A computation on the state `σ` that also writes a log. -/
abbrev Logged (σ ν : Type u) := StateM (σ × List ν)

namespace Logged

def note (n : ν) : Logged σ ν PUnit := modify fun s => (s.1, s.2 ++ [n])

/-- A computation that notes nothing. -/
def of (x : StateM σ β) : Logged σ ν β := fun s => ((x.run s.1).1, ((x.run s.1).2, s.2))

theorem run_note (n : ν) (s : σ × List ν) :
    (note n).run s = (PUnit.unit, (s.1, s.2 ++ [n])) := (rfl)

theorem run_of (x : StateM σ β) (s : σ × List ν) :
    (of x : Logged σ ν β).run s = ((x.run s.1).1, ((x.run s.1).2, s.2)) := (rfl)

/-- Without its notes, `x` is `y`. -/
def Erases (x : Logged σ ν β) (y : StateM σ β) : Prop :=
  ∀ s, (x.run s).1 = (y.run s.1).1 ∧ (x.run s).2.1 = (y.run s.1).2

namespace Erases

variable {x : Logged σ ν β} {y : StateM σ β}

theorem pure (b : β) : Erases (Pure.pure b : Logged σ ν β) (Pure.pure b) := fun _ => ⟨rfl, rfl⟩

theorem of (y : StateM σ β) : Erases (Logged.of y : Logged σ ν β) y := fun _ => ⟨rfl, rfl⟩

theorem bind {f : β → Logged σ ν γ} {g : β → StateM σ γ} (hx : Erases x y)
    (hf : ∀ b, Erases (f b) (g b)) : Erases (x >>= f) (y >>= g) := fun s => by
  obtain ⟨e₁, e₂⟩ := hx s
  have := hf (x.run s).1 (x.run s).2
  rw [e₂] at this
  rw [show (y >>= g).run s.1 = (g (y.run s.1).1).run (y.run s.1).2 from rfl, ← e₁]
  exact this

/-- A note changes nothing. -/
theorem note (n : ν) {x : PUnit → Logged σ ν β} (hx : Erases (x ⟨⟩) y) :
    Erases (Logged.note n >>= x) y := fun s => hx (s.1, s.2 ++ [n])

/-- So does what only notes something about the result. -/
theorem bind_self {f : β → Logged σ ν β} (hx : Erases x y) (hf : ∀ b, Erases (f b) (Pure.pure b)) :
    Erases (x >>= f) y := by
  have := hx.bind hf
  rwa [bind_pure] at this

/-- What changes nothing may be done for a note. -/
theorem peek {z : StateM σ γ} (hz : ∀ s, (z.run s).2 = s) {f : γ → Logged σ ν β}
    (hf : ∀ c, Erases (f c) y) : Erases (Logged.of z >>= f) y := fun s => by
  have := hf (z.run s.1).1 ((z.run s.1).2, s.2)
  rw [show y.run s.1 = y.run (z.run s.1).2 by rw [hz]]
  exact this

theorem ite {p : Prop} [Decidable p] {x' : Logged σ ν β} {y' : StateM σ β} (hx : Erases x y)
    (hx' : Erases x' y') : Erases (if p then x else x') (if p then y else y') := by
  split
  · exact hx
  · exact hx'

end Erases

end Logged

end OJ.Framework
