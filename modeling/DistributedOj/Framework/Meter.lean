import Mathlib

/-!
# Meters

A call that reads counters, returns by how much their sum has grown since the
previous call, and keeps what it has read for the next one. Calls in turn return
the growths of a given quantity (`growths`) iff each of them reads something, and its
growth is not too large and shows as the growth of that quantity (`Meter.calls_iff`).
-/

namespace OJ.Framework

variable {ε σ β : Type*}

/-- What calls of `f` on these inputs in turn return, or `none` if one of them
returns nothing. -/
def calls (f : ε → σ → Option (β × σ)) : σ → List ε → Option (List β)
  | _, [] => some []
  | s, e :: es => (f e s).bind fun x => (calls f x.2 es).map (x.1 :: ·)

/-- By how much a quantity grows from value to value, as it is shown. -/
def growths (shown : Int → β) : Int → List Int → List β
  | _, [] => []
  | prev, n :: ns => shown (n - prev) :: growths shown n ns

structure Meter (ε σ β : Type*) where
  call : ε → σ → Option (β × σ)
  /-- What a call reads. -/
  read : ε → Option σ
  sum : σ → Int
  shown : Int → β
  /-- A growth that a call can represent. -/
  Fits : Int → Prop
  /-- What a call can have read. -/
  Ok : σ → Prop
  ok_read {e : ε} {s : σ} : read e = some s → Ok s
  call_none {e : ε} {s : σ} : Ok s → read e = none → call e s = none
  call_some {e : ε} {s s' : σ} : Ok s → read e = some s' → Fits (sum s' - sum s) →
    call e s = some (shown (sum s' - sum s), s')
  call_large {e : ε} {s s' : σ} : Ok s → read e = some s' → ¬ Fits (sum s' - sum s) → call e s = none

/-- A run of pairs, by its first pair. -/
theorem exists_zip_isChain_cons {α γ : Type*} {R : α × γ → α × γ → Prop} {x : α × γ} {a : α} {c : γ}
    {l : List (Option α)} {cs : List γ} :
    (∃ as : List α, some a :: l = as.map some ∧ (x :: as.zip (c :: cs)).IsChain R) ↔
      R x (a, c) ∧ ∃ as : List α, l = as.map some ∧ ((a, c) :: as.zip cs).IsChain R := by
  constructor
  · rintro ⟨as, h, hchain⟩
    cases as with
    | nil => cases h
    | cons a' as =>
      obtain ⟨ha, hl⟩ := List.cons.inj h
      obtain rfl := Option.some.inj ha
      rw [List.zip_cons_cons, List.isChain_cons_cons] at hchain
      exact ⟨hchain.1, as, hl, hchain.2⟩
  · rintro ⟨hR, as, h, hchain⟩
    refine ⟨a :: as, by rw [h, List.map_cons], ?_⟩
    rw [List.zip_cons_cons, List.isChain_cons_cons]
    exact ⟨hR, hchain⟩

namespace Meter

variable {m : Meter ε σ β} {s : σ}

/-- From one call to the next, what is read (first) and what should be read grow by
what shows as the same. -/
def Follows (m : Meter ε σ β) (x y : Int × Int) : Prop :=
  m.Fits (y.1 - x.1) ∧ m.shown (y.1 - x.1) = m.shown (y.2 - x.2)

/-- The calls return the growths of `own` iff every one of them reads something,
and its sum grows as `own` does. -/
theorem calls_iff (hs : m.Ok s) (own : ε → Int) (prev : Int) (es : List ε) :
    calls m.call s es = some (growths m.shown prev (es.map own)) ↔
      ∃ ns : List Int, es.map (fun e => (m.read e).map m.sum) = ns.map some ∧
        ((m.sum s, prev) :: ns.zip (es.map own)).IsChain m.Follows := by
  induction es generalizing s prev with
  | nil => simp [calls, growths]
  | cons e es ih =>
    rw [calls, List.map_cons, List.map_cons, growths]
    cases hread : m.read e with
    | none =>
      rw [m.call_none hs hread]
      refine iff_of_false nofun ?_
      rintro ⟨ns, h, -⟩
      cases ns with
      | nil => cases h
      | cons n ns => cases (List.cons.inj h).1
    | some s' =>
      rw [Option.map_some, exists_zip_isChain_cons, ← ih (m.ok_read hread) (own e)]
      by_cases hfits : m.Fits (m.sum s' - m.sum s)
      · rw [m.call_some hs hread hfits, Option.bind_some, Option.map_eq_some_iff]
        constructor
        · rintro ⟨bs, hcalls, h⟩
          obtain ⟨hshown, rfl⟩ := List.cons.inj h
          exact ⟨⟨hfits, hshown⟩, hcalls⟩
        · rintro ⟨⟨-, hshown⟩, hcalls⟩
          exact ⟨_, hcalls, congrArg (· :: _) hshown⟩
      · rw [m.call_large hs hread hfits]
        exact iff_of_false nofun fun h => hfits h.1.1

end Meter

end OJ.Framework
