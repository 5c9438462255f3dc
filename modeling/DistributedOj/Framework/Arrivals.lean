import DistributedOj.Framework.Footprint

/-!
# Components that arrive during a run

A component that has taken no step yet could as well have been there from the
start (`Run.arrive`); so what is known of components that share a store holds
of a system that takes on new ones. Locations that are in the part of none
keep their values (`Run.untouched`).
-/

namespace OJ.Framework

universe u

variable {L V κ : Type u} {step : κ → Option (StateM (L → V) κ)} {F : κ → Set L} {m m' : L → V}
  {ks ks' : List κ} {k : κ} {es : List Nat}

theorem sharedStep_arrive {t : Nat} (h : sharedStep step (m, ks) t = some (m', ks')) (k : κ) :
    sharedStep step (m, ks ++ [k]) t = some (m', ks' ++ [k]) := by
  obtain ⟨l, x, hl, hx, e⟩ := sharedStep_cases h
  cases e
  have ht : t < ks.length := (List.getElem?_eq_some_iff.mp hl).1
  rw [sharedStep_eq ((List.getElem?_append_left ht).trans hl) hx, List.set_append_left _ _ ht]

theorem Run.arrive (h : Run (sharedStep step) Free (m, ks) es (m', ks')) (k : κ) :
    Run (sharedStep step) Free (m, ks ++ [k]) es (m', ks' ++ [k]) := by
  generalize hs : (m, ks) = s at h
  generalize ht : (m', ks') = t at h
  induction h generalizing m ks with
  | nil _ =>
    cases hs
    cases ht
    exact .nil _
  | cons _ hstep _ ih =>
    cases hs
    exact .cons trivial (sharedStep_arrive hstep k) (ih rfl ht)

/-- What no component has among its locations stays as it was. -/
theorem Run.untouched {P : κ → Prop} (hK : KeepTo step P F) (hP : ∀ k ∈ ks, P k)
    (h : Run (sharedStep step) Free (m, ks) es (m', ks')) {l : L} (hl : ∀ k ∈ ks, l ∉ F k) :
    m' l = m l := by
  refine (h.inv (I := fun s => s.1 l = m l ∧ ∀ k ∈ s.2, P k ∧ l ∉ F k) (fun s t s' hs _ hstep => ?_)
    ⟨rfl, fun k hk => ⟨hP k hk, hl k hk⟩⟩).1
  obtain ⟨k, x, hk, hx, rfl⟩ := sharedStep_cases hstep
  obtain ⟨hl, hks⟩ := hs
  obtain ⟨hPk, hkl⟩ := hks k (List.mem_of_getElem? hk)
  refine ⟨((hK.within k x hPk hx).frame s.1 hkl).trans hl, fun k' hk' => ?_⟩
  rcases List.mem_or_eq_of_mem_set hk' with hk' | rfl
  · exact hks k' hk'
  · refine ⟨hK.keep k x s.1 hPk hx, ?_⟩
    rw [hK.stay k x s.1 hPk hx]
    exact hkl

end OJ.Framework
