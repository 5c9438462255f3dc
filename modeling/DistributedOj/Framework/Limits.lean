import DistributedOj.Framework.Run

/-!
# Resource limits

A resource has a soft limit, the one in effect, and a hard limit that is never
below it (`Limit`). Without privileges a process can set both up to its hard
limit. So in every run of its calls the soft limit stays within a bound iff the
hard limit is within it at the start (`Limit.Capped.set`, `Limit.cur_set_max`).
-/

namespace OJ.Framework

/-- A soft limit and a hard one. -/
structure Limit (α : Type*) [LE α] where
  cur : α
  max : α
  le : cur ≤ max

namespace Limit

variable {α : Type*} [LinearOrder α] {old : Limit α} {cur max bound : α} {privileged : Bool}

/-- `setrlimit`, whose failure leaves the limits as they were: only a privileged
process can raise the hard one. -/
def set (privileged : Bool) (cur max : α) (old : Limit α) : Limit α :=
  if h : cur ≤ max ∧ (privileged = true ∨ max ≤ old.max) then ⟨cur, max, h.1⟩ else old

theorem set_of_le (hc : cur ≤ max) (hm : privileged = true ∨ max ≤ old.max) :
    old.set privileged cur max = ⟨cur, max, hc⟩ := dif_pos ⟨hc, hm⟩

theorem set_of_not (h : ¬ (privileged = true ∨ max ≤ old.max)) : old.set privileged cur max = old :=
  dif_neg fun hm => h hm.2

/-- The hard limit is within a bound. -/
def Capped (bound : α) (l : Limit α) : Prop := l.max ≤ bound

/-- A process without privileges keeps it there. -/
theorem Capped.set (h : old.Capped bound) : (old.set false cur max).Capped bound := by
  rw [Limit.set]
  split
  · next hs => exact (hs.2.resolve_left Bool.false_ne_true).trans h
  · exact h

/-- It can raise the soft limit to the hard one. -/
theorem cur_set_max (old : Limit α) : (old.set false old.max old.max).cur = old.max := by
  rw [set_of_le le_rfl (.inr le_rfl)]

end Limit

end OJ.Framework
