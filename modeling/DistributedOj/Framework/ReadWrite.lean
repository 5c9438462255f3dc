import DistributedOj.Framework.Run
import DistributedOj.Framework.Threads

/-!
# Reading, then writing

An operation that looks at a store in one step and writes in another
(`ReadWrite`) may be overtaken between them. If every write happens where the
operation would see again what it saw (`Shared.Fresh`), a run is as good as the
operations one after another, in the order of their writes (`Run.in_turn`).
-/

namespace OJ.Framework

variable {α σ ρ β : Type*}

/-- What each operation sees of the store, and what it does by that, with its
result. -/
structure ReadWrite (α σ ρ β : Type*) where
  look : α → σ → ρ
  write : α → ρ → σ → β × σ

/-- How far an operation is. -/
inductive Phase (ρ β : Type*) where
  | start
  | seen (r : ρ)
  | done (b : β)

def Phase.sight : Phase ρ β → Option ρ
  | seen r => some r
  | _ => none

def Phase.result : Phase ρ β → Option β
  | done b => some b
  | _ => none

inductive ReadWriteEvent where
  | look (t : Nat)
  | write (t : Nat)
  deriving DecidableEq, Repr

/-- A store and the operations under way on it. -/
structure Shared (α σ ρ β : Type*) where
  store : σ
  threads : List (α × Phase ρ β)

namespace Shared

def start (ops : List α) (store : σ) : Shared α σ ρ β := ⟨store, ops.map (·, .start)⟩

def step (p : ReadWrite α σ ρ β) (s : Shared α σ ρ β) : ReadWriteEvent → Option (Shared α σ ρ β)
  | .look t => match s.threads[t]? with
    | some (a, .start) => some { s with threads := s.threads.set t (a, .seen (p.look a s.store)) }
    | _ => none
  | .write t => match s.threads[t]? with
    | some (a, .seen r) =>
      let (b, store) := p.write a r s.store
      some ⟨store, s.threads.set t (a, .done b)⟩
    | _ => none

/-- An operation that writes would see what it saw. -/
def Fresh (p : ReadWrite α σ ρ β) (s : Shared α σ ρ β) : ReadWriteEvent → Prop
  | .look _ => True
  | .write t => ∀ x ∈ s.threads[t]?, ∀ r ∈ x.2.sight, p.look x.1 s.store = r

instance [DecidableEq ρ] (p : ReadWrite α σ ρ β) (s : Shared α σ ρ β) (e : ReadWriteEvent) :
    Decidable (Fresh p s e) :=
  match e with
  | .look _ => isTrue trivial
  | .write t => inferInstanceAs (Decidable (∀ x ∈ s.threads[t]?, ∀ r ∈ x.2.sight, p.look x.1 s.store = r))

/-- The operation with its result, if it is done. -/
def ended (x : α × Phase ρ β) : Option (α × β) := x.2.result.map (x.1, ·)

/-- The operations that are done, with their results. -/
def finished (s : Shared α σ ρ β) : List (α × β) := s.threads.filterMap ended

end Shared

namespace ReadWrite

/-- The operations one after another. -/
def inTurn (p : ReadWrite α σ ρ β) : List α → σ → List (α × β) × σ
  | [], store => ([], store)
  | a :: ops, store =>
    let (b, store) := p.write a (p.look a store) store
    let (results, store) := inTurn p ops store
    ((a, b) :: results, store)

theorem inTurn_concat (p : ReadWrite α σ ρ β) (ops : List α) (a : α) (store : σ) :
    p.inTurn (ops ++ [a]) store =
      let x := p.inTurn ops store
      let y := p.write a (p.look a x.2) x.2
      (x.1 ++ [(a, y.1)], y.2) := by
  induction ops generalizing store with
  | nil => rfl
  | cons b ops ih =>
    simp only [List.cons_append, inTurn, ih]

end ReadWrite

/-- A member that comes to count is one more, in some place. -/
theorem perm_filterMap_set {γ : Type*} {f : α → Option γ} {l : List α} {t : Nat} {x y : α} {c : γ}
    (hx : l[t]? = some x) (hfx : f x = none) (hfy : f y = some c) :
    ((l.set t y).filterMap f).Perm (l.filterMap f ++ [c]) := by
  induction l generalizing t with
  | nil => cases hx
  | cons z l ih =>
    cases t with
    | zero =>
      cases hx
      rw [List.set_cons_zero, List.filterMap_cons_some hfy, List.filterMap_cons_none hfx]
      exact (List.perm_append_singleton c _).symm
    | succ t =>
      have h := ih hx
      rw [List.set_cons_succ, List.filterMap_cons, List.filterMap_cons]
      cases f z with
      | none => exact h
      | some d => exact h.cons d

theorem filterMap_set_of_none {γ : Type*} {f : α → Option γ} {l : List α} {t : Nat} {x y : α}
    (hx : l[t]? = some x) (hfx : f x = none) (hfy : f y = none) :
    (l.set t y).filterMap f = l.filterMap f := by
  induction l generalizing t with
  | nil => cases hx
  | cons z l ih =>
    cases t with
    | zero =>
      cases hx
      rw [List.set_cons_zero, List.filterMap_cons_none hfy, List.filterMap_cons_none hfx]
    | succ t =>
      rw [List.set_cons_succ, List.filterMap_cons, List.filterMap_cons, ih hx]

namespace Shared

variable {p : ReadWrite α σ ρ β} {s s' : Shared α σ ρ β} {e : ReadWriteEvent} {ops : List α}
  {store : σ} {es : List ReadWriteEvent}

theorem step_cases (h : s.step p e = some s') :
    (∃ t a, e = .look t ∧ s.threads[t]? = some (a, .start) ∧
      s' = ⟨s.store, s.threads.set t (a, .seen (p.look a s.store))⟩) ∨
    (∃ t a r, e = .write t ∧ s.threads[t]? = some (a, .seen r) ∧
      s' = ⟨(p.write a r s.store).2, s.threads.set t (a, .done (p.write a r s.store).1)⟩) := by
  cases e with
  | look t =>
    simp only [step] at h
    split at h
    · next a ht => exact .inl ⟨t, a, rfl, ht, (Option.some.inj h).symm⟩
    · cases h
  | write t =>
    simp only [step] at h
    split at h
    · next a r ht => exact .inr ⟨t, a, r, rfl, ht, (Option.some.inj h).symm⟩
    · cases h

/-- No step changes which operations there are. -/
theorem ops_eq (h : Run (step p) C (start ops store) es s) : s.threads.map Prod.fst = ops := by
  refine h.inv (I := fun s => s.threads.map Prod.fst = ops) ?_ ?_
  · intro s e s' hI _ hs
    rcases step_cases hs with ⟨t, a, -, ht, rfl⟩ | ⟨t, a, r, -, ht, rfl⟩
    · rw [← hI]
      exact map_set_of_eq ht rfl
    · rw [← hI]
      exact map_set_of_eq ht rfl
  · simp [start, Function.comp_def]

/-- If all operations are done, each has a result. -/
theorem finished_map_fst (h : ∀ x ∈ s.threads, x.2.result.isSome) :
    s.finished.map Prod.fst = s.threads.map Prod.fst := by
  rw [finished]
  generalize s.threads = l at h
  induction l with
  | nil => rfl
  | cons x l ih =>
    obtain ⟨b, hb⟩ := Option.isSome_iff_exists.mp (h x List.mem_cons_self)
    have hx : ended x = some (x.1, b) := by rw [ended, hb, Option.map_some]
    rw [List.filterMap_cons_some hx, List.map_cons, List.map_cons,
      ih fun y hy => h y (List.mem_cons_of_mem _ hy)]

end Shared

/-- The operations that are done did what they do one after another. -/
theorem Run.in_turn {p : ReadWrite α σ ρ β} {s : Shared α σ ρ β} {ops : List α} {store : σ}
    {es : List ReadWriteEvent} (h : Run (Shared.step p) (Shared.Fresh p) (.start ops store) es s) :
    ∃ order, order.Perm s.finished ∧ p.inTurn (order.map Prod.fst) store = (order, s.store) := by
  refine h.inv (I := fun s => ∃ order, order.Perm s.finished ∧
    p.inTurn (order.map Prod.fst) store = (order, s.store)) ?_ ?_
  · rintro s e s' ⟨order, hperm, horder⟩ hfresh hs
    rcases Shared.step_cases hs with ⟨t, a, rfl, ht, rfl⟩ | ⟨t, a, r, rfl, ht, rfl⟩
    · refine ⟨order, ?_, horder⟩
      rwa [Shared.finished, filterMap_set_of_none (f := Shared.ended) ht rfl rfl]
    · -- The write comes last in the order.
      have hlook := hfresh _ ht r rfl
      refine ⟨order ++ [(a, (p.write a r s.store).1)], ?_, ?_⟩
      · have hset := perm_filterMap_set (f := Shared.ended) (y := (a, .done (p.write a r s.store).1))
          ht rfl rfl
        exact (hperm.append_right _).trans hset.symm
      · rw [List.map_append, List.map_singleton, p.inTurn_concat, horder]
        simp only [hlook]
  · refine ⟨[], ?_, rfl⟩
    simp [Shared.finished, Shared.start, Shared.ended, Phase.result, List.filterMap_map,
      Function.comp_def]

end OJ.Framework
