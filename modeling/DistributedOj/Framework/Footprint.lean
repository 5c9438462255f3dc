import DistributedOj.Framework.Run
import DistributedOj.Framework.Threads

/-!
# Components that share a store

A computation on a store is within a set of locations if it changes no other
and depends on no other (`Within`); so are computations composed of such ones
(`Within.bind`). Components that keep to disjoint sets (`KeepTo`) do in any
interleaving what they do alone (`Run.alone`): each is, after as many steps,
in the same state, with the same values in its own locations. A component alone
carries out the computation that it stands for (`alone_rest`).
-/

namespace OJ.Framework

universe u

variable {L V β γ κ : Type u}

/-! ## Computations on a state -/

namespace Stateful

variable {σ : Type u}

theorem run_bind (x : StateM σ β) (f : β → StateM σ γ) (s : σ) :
    (x >>= f).run s = (f (x.run s).1).run (x.run s).2 := (rfl)

theorem run_pure (b : β) (s : σ) : (pure b : StateM σ β).run s = (b, s) := (rfl)

end Stateful

/-- The value at a location. -/
def readAt (l : L) : StateM (L → V) V := return (← get) l

def writeAt [DecidableEq L] (l : L) (v : V) : StateM (L → V) PUnit :=
  modify fun m => Function.update m l v

theorem run_readAt (l : L) (m : L → V) : (readAt l).run m = (m l, m) := (rfl)

theorem run_writeAt [DecidableEq L] (l : L) (v : V) (m : L → V) :
    (writeAt l v).run m = (⟨⟩, Function.update m l v) := (rfl)

/-- The computation `x` reads and writes in `F` only. -/
structure Within (F : Set L) (x : StateM (L → V) β) : Prop where
  frame : ∀ m, Set.EqOn (x.run m).2 m Fᶜ
  only : ∀ m n, Set.EqOn m n F → (x.run m).1 = (x.run n).1 ∧ Set.EqOn (x.run m).2 (x.run n).2 F

namespace Within

variable {F : Set L}

theorem pure (b : β) : Within F (Pure.pure b : StateM (L → V) β) :=
  ⟨fun _ _ _ => rfl, fun _ _ h => ⟨rfl, h⟩⟩

/-- `bind`, with what can be said of the result of `x`. -/
theorem bind_run {x : StateM (L → V) β} {f : β → StateM (L → V) γ} (hx : Within F x)
    (hf : ∀ m, Within F (f (x.run m).1)) : Within F (x >>= f) := by
  refine ⟨fun m => ?_, fun m n h => ?_⟩
  · exact ((hf _).frame _).trans (hx.frame m)
  · obtain ⟨e, h⟩ := hx.only m n h
    rw [show (x >>= f).run n = (f (x.run n).1).run (x.run n).2 from rfl, ← e]
    exact (hf m).only _ _ h

theorem bind {x : StateM (L → V) β} {f : β → StateM (L → V) γ} (hx : Within F x)
    (hf : ∀ b, Within F (f b)) : Within F (x >>= f) := hx.bind_run fun _ => hf _

theorem ite {p : Prop} [Decidable p] {x y : StateM (L → V) β} (hx : Within F x)
    (hy : Within F y) : Within F (if p then x else y) := by
  split
  · exact hx
  · exact hy

theorem readAt {l : L} (hl : l ∈ F) : Within F (Framework.readAt l : StateM (L → V) V) :=
  ⟨fun _ _ _ => rfl, fun _ _ h => ⟨h hl, h⟩⟩

theorem writeAt [DecidableEq L] {l : L} (hl : l ∈ F) (v : V) : Within F (Framework.writeAt l v) := by
  refine ⟨fun m k hk => ?_, fun m n h => ⟨rfl, fun k hk => ?_⟩⟩
  · have e : k ≠ l := fun e => hk (by rwa [e])
    exact Function.update_of_ne e v m
  · show Function.update m l v k = Function.update n l v k
    by_cases e : k = l
    · rw [e, Function.update_self, Function.update_self]
    · rw [Function.update_of_ne e, Function.update_of_ne e]
      exact h hk

end Within

/-! ## Interleavings -/

/-- Component `t` of a list takes its next step. -/
def sharedStep (step : κ → Option (StateM (L → V) κ)) (s : (L → V) × List κ) (t : Nat) :
    Option ((L → V) × List κ) := do
  let k ← s.2[t]?
  let x ← step k
  return ((x.run s.1).2, s.2.set t (x.run s.1).1)

/-- The first `n` steps of a component on its own. -/
def alone (step : κ → Option (StateM (L → V) κ)) (m : L → V) (k : κ) : Nat → Option ((L → V) × κ)
  | 0 => some (m, k)
  | n + 1 => (alone step m k n).bind fun r =>
    (step r.2).map fun x => ((x.run r.1).2, (x.run r.1).1)

variable {step : κ → Option (StateM (L → V) κ)} {F : κ → Set L}

theorem sharedStep_eq {s : (L → V) × List κ} {t : Nat} {k : κ} {x : StateM (L → V) κ}
    (hk : s.2[t]? = some k) (hx : step k = some x) :
    sharedStep step s t = some ((x.run s.1).2, s.2.set t (x.run s.1).1) := by
  simp only [sharedStep, hk, hx, Option.bind_eq_bind, Option.bind_some]
  rfl

theorem sharedStep_cases {s s' : (L → V) × List κ} {t : Nat} (h : sharedStep step s t = some s') :
    ∃ k x, s.2[t]? = some k ∧ step k = some x ∧
      s' = ((x.run s.1).2, s.2.set t (x.run s.1).1) := by
  simp only [sharedStep, Option.bind_eq_bind, Option.bind_eq_some_iff] at h
  obtain ⟨k, hk, x, hx, h⟩ := h
  cases h
  exact ⟨k, x, hk, hx, rfl⟩

/-- Where a step takes the first part off the computation `R` that is left,
so do any number of them. -/
theorem alone_rest {R : κ → StateM (L → V) β} (hR : ∀ k x, step k = some x → R k = x >>= R)
    {m m' : L → V} {k k' : κ} {n : Nat} (h : Framework.alone step m k n = some (m', k')) :
    (R k).run m = (R k').run m' := by
  induction n generalizing m' k' with
  | zero => cases h; rfl
  | succ n ih =>
    obtain ⟨⟨m₁, k₁⟩, h₁, h⟩ := Option.bind_eq_some_iff.mp h
    obtain ⟨x, hx, h⟩ := Option.map_eq_some_iff.mp h
    cases h
    rw [ih h₁, hR k₁ x hx]
    rfl

/-- Components that have `P` keep it, and keep to their locations. -/
structure KeepTo (step : κ → Option (StateM (L → V) κ)) (P : κ → Prop) (F : κ → Set L) : Prop where
  within : ∀ k x, P k → step k = some x → Within (F k) x
  keep : ∀ k x m, P k → step k = some x → P (x.run m).1
  stay : ∀ k x m, P k → step k = some x → F (x.run m).1 = F k

/-- Component `t`, which is `k` in the store `m`, after the steps `es` of all:
alone it comes to the same state, with the same values in its locations. -/
theorem Run.alone {P : κ → Prop} (hK : KeepTo step P F) {m m' : L → V} {ks ks' : List κ}
    (hP : ∀ k ∈ ks, P k)
    (hd : ∀ (t u : Nat) (k l : κ), t ≠ u → ks[t]? = some k → ks[u]? = some l → Disjoint (F k) (F l))
    {es : List Nat} (h : Run (sharedStep step) Free (m, ks) es (m', ks')) {t : Nat} {k : κ}
    (hk : ks[t]? = some k) :
    ∃ n' k', ks'[t]? = some k' ∧ Framework.alone step m k (es.count t) = some (n', k') ∧
      F k' = F k ∧ Set.EqOn n' m' (F k) := by
  -- What is said of every component after the steps so far.
  let I (es : List Nat) (s : (L → V) × List κ) : Prop :=
    s.2.length = ks.length ∧ ∀ (t : Nat) (k : κ), ks[t]? = some k →
      ∃ n' k', s.2[t]? = some k' ∧ Framework.alone step m k (es.count t) = some (n', k') ∧
        P k' ∧ F k' = F k ∧ Set.EqOn n' s.1 (F k)
  have hI : I es (m', ks') := by
    refine h.inv_trace (I := I) ?_
      ⟨rfl, fun t k hk => ⟨m, k, hk, rfl, hP k (List.mem_of_getElem? hk), rfl, fun _ _ => rfl⟩⟩
    intro es s u s' ⟨hlen, hs⟩ _ hstep
    obtain ⟨l, x, hl, hx, rfl⟩ := sharedStep_cases hstep
    refine ⟨(List.length_set ..).trans hlen, fun t k hk => ?_⟩
    obtain ⟨n', k', hk', ha, hPk, hFk, heq⟩ := hs t k hk
    by_cases hu : u = t
    · subst hu
      obtain rfl : k' = l := Option.some.inj (hk'.symm.trans hl)
      obtain ⟨e, heq'⟩ := (hK.within k' x hPk hx).only n' s.1 (hFk ▸ heq)
      refine ⟨(x.run n').2, (x.run s.1).1, getElem?_set_self_of_some hl, ?_, hK.keep k' x s.1 hPk hx,
        (hK.stay k' x s.1 hPk hx).trans hFk, hFk ▸ heq'⟩
      rw [List.count_append, List.count_singleton_self, Framework.alone, ha, Option.bind_some, hx,
        Option.map_some, e]
    · have hlt : u < ks.length := hlen ▸ (List.getElem?_eq_some_iff.mp hl).1
      obtain ⟨_, l', hl', -, hPl, hFl, -⟩ := hs u ks[u] (List.getElem?_eq_getElem hlt)
      obtain rfl : l' = l := Option.some.inj (hl'.symm.trans hl)
      have hdis : Disjoint (F l') (F k) := by
        rw [hFl]
        exact hd u t _ k hu (List.getElem?_eq_getElem hlt) hk
      refine ⟨n', k', (getElem?_set_of_ne (Ne.symm hu)).trans hk', ?_, hPk, hFk, fun p hp => ?_⟩
      · rw [List.count_append, List.count_singleton, if_neg (by simpa using hu), Nat.add_zero]
        exact ha
      · rw [heq hp]
        exact ((hK.within l' x hPl hx).frame s.1 (Set.disjoint_right.mp hdis hp)).symm
  obtain ⟨n', k', hk', ha, -, hF⟩ := hI.2 t k hk
  exact ⟨n', k', hk', ha, hF⟩

end OJ.Framework
