import Mathlib

/-!
# Dispatch

What comes in goes to the first of a list of handlers that accepts it. Where no
two of them accept the same (`Apart`), it goes to whichever does
(`dispatch_eq_some_iff`), so their order makes no difference (`dispatch_perm`).
-/

namespace OJ.Framework

variable {α β γ : Type*} (accepts : α → β → Option γ)

def dispatch (handlers : List α) (x : β) : Option γ := handlers.findSome? fun a => accepts a x

/-- The handlers do not accept the same. -/
def Apart (a b : α) : Prop := ∀ x, accepts a x = none ∨ accepts b x = none

variable {accepts} {handlers handlers' : List α} {x : β} {c : γ}

theorem Apart.symm {a b : α} (h : Apart accepts a b) : Apart accepts b a := fun x => (h x).symm

theorem dispatch_eq_some_iff (h : handlers.Pairwise (Apart accepts)) :
    dispatch accepts handlers x = some c ↔ ∃ a ∈ handlers, accepts a x = some c := by
  refine ⟨List.exists_of_findSome?_eq_some, ?_⟩
  rintro ⟨a, ha, hc⟩
  induction h with
  | nil => cases ha
  | @cons b handlers hb _ ih =>
    rcases List.mem_cons.mp ha with rfl | ha
    · exact (List.findSome?_cons_of_isSome (hc ▸ rfl)).trans hc
    · have hnone : accepts b x = none := by
        rcases hb a ha x with h | h
        · exact h
        · rw [hc] at h
          cases h
      exact (List.findSome?_cons_of_isNone (hnone ▸ rfl)).trans (ih ha)

/-- The order of the handlers makes no difference. -/
theorem dispatch_perm (h : handlers.Pairwise (Apart accepts)) (hperm : handlers.Perm handlers') (x : β) :
    dispatch accepts handlers' x = dispatch accepts handlers x := by
  have h' : handlers'.Pairwise (Apart accepts) := hperm.pairwise h fun hab => hab.symm
  refine Option.ext fun c => ?_
  show dispatch accepts handlers' x = some c ↔ dispatch accepts handlers x = some c
  rw [dispatch_eq_some_iff h, dispatch_eq_some_iff h']
  exact exists_congr fun a => and_congr_left fun _ => hperm.mem_iff.symm

end OJ.Framework
