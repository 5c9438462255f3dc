import Mathlib

/-!
# Tables

A table is a list of rows with a key that no two rows share (`Keyed`). Rows are
selected by key (`rowsWith`), changed by a predicate (`update`), appended and
filtered. The key stays one under each of these that does not give it away
(`Keyed.append`, `Keyed.filter`, `Keyed.update`), and tells which row is
selected (`Keyed.head?_eq_some`). Two tables whose rows are related stay so when
both are changed alike (`forall₂_update`, `forall₂_filter`, `forall₂_append`).
-/

namespace OJ.Framework.Table

variable {α κ : Type*} {key : α → κ} {l : List α} {x y : α} {k : κ}

/-- No two rows have the same key. -/
def Keyed (key : α → κ) (l : List α) : Prop := (l.map key).Nodup

instance [DecidableEq κ] : Decidable (Keyed key l) := inferInstanceAs (Decidable (l.map key).Nodup)

/-- The rows `p` changed by `f`. -/
def update (p : α → Bool) (f : α → α) (l : List α) : List α := l.map fun x => if p x then f x else x

section
variable [DecidableEq κ]

/-- The rows with a key. -/
def rowsWith (key : α → κ) (k : κ) (l : List α) : List α := l.filter fun x => key x = k

theorem mem_rowsWith : x ∈ rowsWith key k l ↔ x ∈ l ∧ key x = k := by
  simp [rowsWith]

theorem rowsWith_eq_nil : rowsWith key k l = [] ↔ ∀ x ∈ l, key x ≠ k := by
  simp [rowsWith]

theorem rowsWith_append : rowsWith key k (l ++ [x]) = rowsWith key k l ++ rowsWith key k [x] :=
  List.filter_append _ _

/-- A change of the rows with a key that leaves the key alone. -/
theorem rowsWith_update {p : α → Bool} {f : α → α} (hp : ∀ y, p y ↔ key y = k)
    (hf : ∀ y, key (f y) = key y) : rowsWith key k (update p f l) = (rowsWith key k l).map f := by
  induction l with
  | nil => rfl
  | cons y l ih =>
    by_cases h : key y = k
    · have hy : key (f y) = k := (hf y).trans h
      simp only [rowsWith, update, List.map_cons, (hp y).mpr h, if_true, List.filter_cons, h, hy,
        decide_true, List.cons.injEq, true_and]
      exact ih
    · have hy : p y = false := Bool.eq_false_iff.mpr fun e => h ((hp y).mp e)
      simp only [rowsWith, update, List.map_cons, hy, Bool.false_eq_true, if_false, List.filter_cons,
        h, decide_false]
      exact ih

/-- There is one row with its key. -/
theorem Keyed.rowsWith_eq (h : Keyed key l) (hx : x ∈ l) : rowsWith key (key x) l = [x] := by
  induction l with
  | nil => cases hx
  | cons y l ih =>
    obtain ⟨hy, hl⟩ := List.nodup_cons.mp h
    rcases List.mem_cons.mp hx with rfl | hx
    · have : rowsWith key (key x) l = [] :=
        rowsWith_eq_nil.mpr fun z hz e => hy (e ▸ List.mem_map_of_mem hz)
      rw [rowsWith, List.filter_cons_of_pos (by simp)]
      exact congrArg _ this
    · have hne : key y ≠ key x := fun e => hy (e ▸ List.mem_map_of_mem hx)
      rw [rowsWith, List.filter_cons_of_neg (by simpa using hne)]
      exact ih hl hx

theorem Keyed.head?_eq_some (h : Keyed key l) :
    (rowsWith key k l).head? = some x ↔ x ∈ l ∧ key x = k := by
  constructor
  · intro hx
    exact mem_rowsWith.mp (List.mem_of_mem_head? hx)
  · rintro ⟨hx, rfl⟩
    rw [h.rowsWith_eq hx]
    rfl

end

theorem Keyed.inj (h : Keyed key l) (hx : x ∈ l) (hy : y ∈ l) (e : key x = key y) : x = y :=
  List.inj_on_of_nodup_map h hx hy e

theorem Keyed.append (h : Keyed key l) (hx : ∀ y ∈ l, key y ≠ key x) : Keyed key (l ++ [x]) := by
  rw [Keyed, List.map_append, List.map_singleton, List.nodup_append]
  refine ⟨h, List.nodup_singleton _, fun a ha b hb => ?_⟩
  obtain ⟨y, hy, rfl⟩ := List.mem_map.mp ha
  rw [List.mem_singleton.mp hb]
  exact hx y hy

theorem Keyed.filter (h : Keyed key l) (p : α → Bool) : Keyed key (l.filter p) :=
  h.sublist (List.filter_sublist.map key)

theorem mem_update {p : α → Bool} {f : α → α} :
    y ∈ update p f l ↔ ∃ x ∈ l, y = if p x then f x else x := by
  simp only [update, List.mem_map, eq_comm]

/-- A change that leaves the key alone. -/
theorem map_update_of_same {p : α → Bool} {f : α → α} (hf : ∀ x ∈ l, p x → key (f x) = key x) :
    (update p f l).map key = l.map key := by
  rw [update, List.map_map]
  refine List.map_congr_left fun x hx => ?_
  show key (if p x then f x else x) = key x
  split
  · next hp => exact hf x hx hp
  · rfl

theorem Keyed.update (h : Keyed key l) {p : α → Bool} {f : α → α}
    (hf : ∀ x ∈ l, p x → key (f x) = key x) : Keyed key (update p f l) := by
  rw [Keyed, map_update_of_same hf]
  exact h

/-- The row with one key gets another key that no other row has. -/
theorem Keyed.update_one {κ' : Type*} {key' : α → κ'} (h : Keyed key l) (h' : Keyed key' l) {k' : κ'}
    {p : α → Bool} (hp : ∀ y, p y ↔ key' y = k') {f : α → α}
    (hf : ∀ x ∈ l, key' x = k' → ∀ y ∈ l, key' y ≠ k' → key y ≠ key (f x)) :
    Keyed key (Table.update p f l) := by
  rw [Keyed, Table.update, List.map_map, List.Nodup, List.pairwise_map]
  rw [Keyed, List.Nodup, List.pairwise_map] at h h'
  refine (h.and h').imp_of_mem fun {a b} ha hb hab => ?_
  obtain ⟨hk, hk'⟩ := hab
  show key (if p a then f a else a) ≠ key (if p b then f b else b)
  by_cases hpa : key' a = k'
  · have hpb : key' b ≠ k' := fun e => hk' (hpa.trans e.symm)
    rw [if_pos ((hp a).mpr hpa), if_neg fun e => hpb ((hp b).mp e)]
    exact (hf a ha hpa b hb hpb).symm
  · rw [if_neg fun e => hpa ((hp a).mp e)]
    by_cases hpb : key' b = k'
    · rw [if_pos ((hp b).mpr hpb)]
      exact hf b hb hpb a ha hpa
    · rw [if_neg fun e => hpb ((hp b).mp e)]
      exact hk

/-! ## Two tables row by row -/

section
variable {β : Type*} {R : α → β → Prop} {m : List β}

theorem forall₂_update {p : α → Bool} {f : α → α} {q : β → Bool} {g : β → β} (h : List.Forall₂ R l m)
    (hp : ∀ x y, R x y → p x = q y) (hf : ∀ x y, R x y → R (f x) (g y)) :
    List.Forall₂ R (update p f l) (update q g m) := by
  rw [update, update, List.forall₂_map_left_iff, List.forall₂_map_right_iff]
  refine h.imp fun x y hxy => ?_
  rw [hp x y hxy]
  split
  · exact hf x y hxy
  · exact hxy

theorem forall₂_filter {p : α → Bool} {q : β → Bool} (h : List.Forall₂ R l m)
    (hp : ∀ x y, R x y → p x = q y) : List.Forall₂ R (l.filter p) (m.filter q) :=
  List.rel_filter (fun x y hxy => Bool.eq_iff_iff.mp (hp x y hxy)) h

theorem forall₂_append {y : β} (h : List.Forall₂ R l m) (hxy : R x y) :
    List.Forall₂ R (l ++ [x]) (m ++ [y]) :=
  List.rel_append h (.cons hxy .nil)

theorem exists_of_forall₂ (h : List.Forall₂ R l m) :
    (∀ x ∈ l, ∃ y ∈ m, R x y) ∧ ∀ y ∈ m, ∃ x ∈ l, R x y := by
  induction h with
  | nil => simp
  | @cons x y l m hxy _ ih =>
    constructor
    · intro x' hx'
      rcases List.mem_cons.mp hx' with rfl | hx'
      · exact ⟨y, List.mem_cons_self, hxy⟩
      · obtain ⟨y', hy', hr⟩ := ih.1 x' hx'
        exact ⟨y', List.mem_cons_of_mem _ hy', hr⟩
    · intro y' hy'
      rcases List.mem_cons.mp hy' with rfl | hy'
      · exact ⟨x, List.mem_cons_self, hxy⟩
      · obtain ⟨x', hx', hr⟩ := ih.2 y' hy'
        exact ⟨x', List.mem_cons_of_mem _ hx', hr⟩

theorem exists_iff_of_forall₂ {p : α → Prop} {q : β → Prop} (h : List.Forall₂ R l m)
    (hp : ∀ x y, R x y → (p x ↔ q y)) : (∃ x ∈ l, p x) ↔ ∃ y ∈ m, q y := by
  obtain ⟨hl, hm⟩ := exists_of_forall₂ h
  constructor
  · rintro ⟨x, hx, hpx⟩
    obtain ⟨y, hy, hr⟩ := hl x hx
    exact ⟨y, hy, (hp x y hr).mp hpx⟩
  · rintro ⟨y, hy, hqy⟩
    obtain ⟨x, hx, hr⟩ := hm y hy
    exact ⟨x, hx, (hp x y hr).mpr hqy⟩

theorem map_eq_of_forall₂ {γ : Type*} {f : α → γ} {g : β → γ} (h : List.Forall₂ R l m)
    (hf : ∀ x y, R x y → f x = g y) : l.map f = m.map g := by
  induction h with
  | nil => rfl
  | cons hxy _ ih => exact List.cons_eq_cons.mpr ⟨hf _ _ hxy, ih⟩

end

end OJ.Framework.Table
