import DistributedOj.Framework.Table

/-!
# Tables as maps

A table with a key is a partial map from keys to what its rows hold (`toMap`).
What is done to the table is done to the map: a row is appended, those with a
key are changed, or some are filtered out by their keys (`toMap_append`,
`toMap_update`, `toMap_filter`). Of a table without double keys, the rows with a
key are what the map has there (`Keyed.map_rowsWith`), and its rows, in whatever
order, are all that the map has (`Keyed.lists`).
-/

namespace OJ.Framework.Table

variable {α β κ : Type*} [DecidableEq κ] {key : α → κ} {val : α → β} {l : List α} {x : α} {k : κ} {v : β}

/-- What the first row with a key holds. -/
def toMap (key : α → κ) (val : α → β) (l : List α) (k : κ) : Option β := (rowsWith key k l).head?.map val

theorem toMap_eq_none : toMap key val l k = none ↔ ∀ x ∈ l, key x ≠ k := by
  rw [toMap, Option.map_eq_none_iff, List.head?_eq_none_iff, rowsWith_eq_nil]

theorem toMap_ne_none : toMap key val l k ≠ none ↔ ∃ x ∈ l, key x = k := by
  rw [Ne, toMap_eq_none]
  simp

theorem exists_of_toMap (h : toMap key val l k = some v) : ∃ x ∈ l, key x = k ∧ val x = v := by
  obtain ⟨x, hx, hv⟩ := Option.map_eq_some_iff.mp h
  obtain ⟨hx, hk⟩ := mem_rowsWith.mp (List.mem_of_mem_head? hx)
  exact ⟨x, hx, hk, hv⟩

theorem Keyed.toMap_of_mem (h : Keyed key l) (hx : x ∈ l) : toMap key val l (key x) = some (val x) := by
  rw [toMap, h.head?_eq_some.mpr ⟨hx, rfl⟩, Option.map_some]

theorem Keyed.toMap_eq_some (h : Keyed key l) : toMap key val l k = some v ↔ ∃ x ∈ l, key x = k ∧ val x = v := by
  refine ⟨exists_of_toMap, ?_⟩
  rintro ⟨x, hx, rfl, rfl⟩
  exact h.toMap_of_mem hx

theorem Keyed.map_rowsWith (h : Keyed key l) : (rowsWith key k l).map val = (toMap key val l k).toList := by
  by_cases hk : ∃ x ∈ l, key x = k
  · obtain ⟨x, hx, rfl⟩ := hk
    rw [h.rowsWith_eq hx, h.toMap_of_mem hx]
    rfl
  · have hnone : ∀ x ∈ l, key x ≠ k := fun x hx e => hk ⟨x, hx, e⟩
    rw [rowsWith_eq_nil.mpr hnone, toMap_eq_none.mpr hnone]
    rfl

/-- The rows are all that a map has, each once. -/
structure Lists (key : α → κ) (val : α → β) (rows : List α) (f : κ → Option β) : Prop where
  keyed : Keyed key rows
  iff : ∀ k v, f k = some v ↔ ∃ x ∈ rows, key x = k ∧ val x = v

theorem Keyed.lists (h : Keyed key l) {rows : List α} (hp : rows.Perm l) :
    Lists key val rows (toMap key val l) where
  keyed := (hp.map key).nodup_iff.mpr h
  iff k v := by simp only [h.toMap_eq_some, hp.mem_iff]

/-- The rows that have a property, which can be told from their keys and what they hold. -/
theorem Keyed.lists_filter (h : Keyed key l) {p : α → Bool} {q : κ → β → Bool} (hpq : ∀ x, p x = q (key x) (val x))
    {rows : List α} (hp : rows.Perm (l.filter p)) :
    Lists key val rows fun k => (toMap key val l k).filter (q k) where
  keyed := (hp.map key).nodup_iff.mpr (h.filter p)
  iff k v := by
    simp only [Option.filter_eq_some_iff, h.toMap_eq_some, hp.mem_iff, List.mem_filter]
    constructor
    · rintro ⟨⟨x, hx, rfl, rfl⟩, hq⟩
      exact ⟨x, ⟨hx, (hpq x).trans hq⟩, rfl, rfl⟩
    · rintro ⟨x, ⟨hx, hpx⟩, rfl, rfl⟩
      exact ⟨⟨x, hx, rfl, rfl⟩, (hpq x).symm.trans hpx⟩

/-- A row under a new key. -/
theorem toMap_append (hx : ∀ y ∈ l, key y ≠ key x) :
    toMap key val (l ++ [x]) = Function.update (toMap key val l) (key x) (some (val x)) := by
  funext k
  rw [toMap, rowsWith_append]
  by_cases h : k = key x
  · subst h
    rw [Function.update_self, rowsWith_eq_nil.mpr hx]
    simp [rowsWith]
  · rw [Function.update_of_ne h, toMap]
    simp [rowsWith, Ne.symm h]

/-- A change of the rows with a key that leaves the key alone. -/
theorem toMap_update {p : α → Bool} {f : α → α} {g : β → β} (hp : ∀ y, p y ↔ key y = k)
    (hf : ∀ y, key (f y) = key y) (hval : ∀ y, val (f y) = g (val y)) :
    toMap key val (update p f l) = Function.update (toMap key val l) k ((toMap key val l k).map g) := by
  funext k'
  by_cases h : k' = k
  · subst h
    rw [Function.update_self, toMap, toMap, rowsWith_update hp hf, List.head?_map, Option.map_map,
      Option.map_map]
    exact congrArg (Option.map · _) (funext hval)
  · rw [Function.update_of_ne h, toMap, toMap]
    refine congrArg (fun rows : List α => rows.head?.map val) ?_
    induction l with
    | nil => rfl
    | cons y l ih =>
      by_cases hy : key y = k
      · have hne : key y ≠ k' := fun e => h (e.symm.trans hy)
        have hne' : key (f y) ≠ k' := fun e => hne ((hf y).symm.trans e)
        simp only [rowsWith, update, List.map_cons, (hp y).mpr hy, if_true, List.filter_cons, hne, hne',
          decide_false]
        exact ih
      · have hpy : p y = false := Bool.eq_false_iff.mpr fun e => hy ((hp y).mp e)
        simp only [rowsWith, update, List.map_cons, hpy, Bool.false_eq_true, if_false, List.filter_cons]
        split
        · exact congrArg (y :: ·) ih
        · exact ih

/-- A filter by the key. -/
theorem toMap_filter {p : α → Bool} {P : κ → Prop} [DecidablePred P] (hp : ∀ y, p y ↔ P (key y)) :
    toMap key val (l.filter p) = fun k => if P k then toMap key val l k else none := by
  funext k
  have hrows : rowsWith key k (l.filter p) = if P k then rowsWith key k l else [] := by
    rw [rowsWith, List.filter_filter]
    split
    · next h =>
      refine List.filter_congr fun y _ => ?_
      by_cases hy : key y = k
      · simp [hy, (hp y).mpr (hy.symm ▸ h)]
      · simp [hy]
    · next h =>
      refine List.filter_eq_nil_iff.mpr fun y _ => ?_
      simp only [Bool.and_eq_true, decide_eq_true_eq, not_and]
      exact fun hy hpy => h (hy ▸ (hp y).mp hpy)
  rw [toMap, hrows]
  split
  · rfl
  · rfl

end OJ.Framework.Table
