import Mathlib

/-!
# Threads in a list

The threads of a system are the members of a list, and a step replaces one of
them: what then holds of a member (`getElem?_set_cases`), and counts and sums
over all of them (`countP_set_add`, `sum_map_set_lt`, `sum_map_set_add`), also
where they are numbered by a function (`sum_update_add`).
-/

namespace OJ.Framework

variable {α : Type*} {l : List α} {t u : Nat} {x y z : α}

/-- A thread after a step of thread `t` is what `t` became or another one,
unchanged. -/
theorem getElem?_set_cases (h : (l.set t y)[u]? = some z) :
    (u = t ∧ z = y) ∨ (u ≠ t ∧ l[u]? = some z) := by
  by_cases e : t = u
  · subst e
    rw [List.getElem?_set_self', Option.map_eq_map, Option.map_eq_some_iff] at h
    obtain ⟨_, -, h⟩ := h
    exact .inl ⟨rfl, h.symm⟩
  · rw [List.getElem?_set_ne e] at h
    exact .inr ⟨fun h => e h.symm, h⟩

theorem getElem?_set_self_of_some (h : l[t]? = some x) : (l.set t y)[t]? = some y := by
  simp [List.getElem?_set_self', h]

theorem getElem?_set_of_ne (h : u ≠ t) : (l.set t y)[u]? = l[u]? :=
  List.getElem?_set_ne fun e => h e.symm

/-- What a step does not change, of the thread that takes it. -/
theorem map_set_of_eq {β : Type*} {f : α → β} (hx : l[t]? = some x) (h : f y = f x) :
    (l.set t y).map f = l.map f := by
  refine List.ext_getElem? fun u => ?_
  rw [List.getElem?_map, List.getElem?_map]
  by_cases e : t = u
  · subst e
    rw [getElem?_set_self_of_some hx, hx, Option.map_some, Option.map_some, h]
  · rw [List.getElem?_set_ne e]

/-- How many threads have a property, after a step of one of them. -/
theorem countP_set_add {p : α → Bool} (hx : l[t]? = some x) :
    (l.set t y).countP p + (p x).toNat = l.countP p + (p y).toNat := by
  obtain ⟨ht, rfl⟩ := List.getElem?_eq_some_iff.mp hx
  rw [List.countP_set ht]
  have : p l[t] = true → 0 < l.countP p := fun h =>
    List.countP_pos_iff.mpr ⟨l[t], List.getElem_mem ht, h⟩
  cases h : p l[t] with
  | false => cases p y <;> simp
  | true =>
    have := this h
    cases p y <;> simp <;> omega

/-- A sum over the threads falls if the share of the one that steps does and
no share grows. -/
theorem sum_map_set_lt {f g : α → Nat} (hx : l[t]? = some x) (hle : ∀ z ∈ l, g z ≤ f z)
    (hlt : g y < f x) : ((l.set t y).map g).sum < (l.map f).sum := by
  induction l generalizing t with
  | nil => simp at hx
  | cons a l ih =>
    have ha := hle a List.mem_cons_self
    have hl : ∀ z ∈ l, g z ≤ f z := fun z hz => hle z (List.mem_cons_of_mem _ hz)
    cases t with
    | zero =>
      simp only [List.getElem?_cons_zero, Option.some.injEq] at hx
      subst hx
      have := List.sum_le_sum hl
      simp only [List.set_cons_zero, List.map_cons, List.sum_cons]
      omega
    | succ t =>
      have := ih (by simpa using hx) hl
      simp only [List.set_cons_succ, List.map_cons, List.sum_cons]
      omega

theorem sum_map_set_add {f : α → Nat} (hx : l[t]? = some x) :
    ((l.set t y).map f).sum + f x = (l.map f).sum + f y := by
  induction l generalizing t with
  | nil => simp at hx
  | cons a l ih =>
    cases t with
    | zero =>
      simp only [List.getElem?_cons_zero, Option.some.injEq] at hx
      subst hx
      simp only [List.set_cons_zero, List.map_cons, List.sum_cons]
      omega
    | succ t =>
      have := ih (by simpa using hx)
      simp only [List.set_cons_succ, List.map_cons, List.sum_cons]
      omega

/-- A sum over the first `n` of a family, one of which changes. -/
theorem sum_update_add {g : Nat → α} {n : Nat} (f : α → Nat) (ht : t < n) (y : α) :
    ∑ i ∈ Finset.range n, f (Function.update g t y i) + f (g t) =
      ∑ i ∈ Finset.range n, f (g i) + f y := by
  have ht : t ∈ Finset.range n := Finset.mem_range.mpr ht
  have hrest : ∑ i ∈ (Finset.range n).erase t, f (Function.update g t y i) =
      ∑ i ∈ (Finset.range n).erase t, f (g i) :=
    Finset.sum_congr rfl fun i hi => by rw [Function.update_of_ne (Finset.ne_of_mem_erase hi)]
  rw [← Finset.add_sum_erase _ _ ht, ← Finset.add_sum_erase _ (fun i => f (g i)) ht, hrest,
    Function.update_self]
  omega

end OJ.Framework
