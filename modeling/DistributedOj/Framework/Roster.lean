import Mathlib

/-!
# Rosters

Members in service and members away, as two lists that a few operations edit:
`retire` takes a member out of service (and does nothing if it is not in
service), `restore` puts all of them back. Both keep the lists together a
permutation of all members (`Of.retire`, `Of.restore`).
-/

namespace OJ.Framework

/-- The members in service and those away. -/
structure Roster (α : Type*) where
  active : List α
  away : List α

namespace Roster

variable {α : Type*} {all : List α} {r : Roster α} {x y : α}

/-- Every member of `all` is listed, and as often as there. -/
def Of (all : List α) (r : Roster α) : Prop := (r.active ++ r.away).Perm all

theorem Of.mem (h : r.Of all) : x ∈ all ↔ x ∈ r.active ∨ x ∈ r.away := by
  rw [← h.mem_iff, List.mem_append]

theorem Of.nodup_active (h : r.Of all) (hd : all.Nodup) : r.active.Nodup :=
  (List.nodup_append.mp (h.nodup_iff.mpr hd)).1

theorem Of.notMem_away (h : r.Of all) (hd : all.Nodup) (hx : x ∈ r.active) : x ∉ r.away :=
  fun ha => (List.nodup_append.mp (h.nodup_iff.mpr hd)).2.2 x hx x ha rfl

def restore (r : Roster α) : Roster α := ⟨r.active ++ r.away, []⟩

theorem Of.restore (h : r.Of all) : r.restore.Of all := by
  rw [Of, Roster.restore, List.append_nil]
  exact h

variable [DecidableEq α]

def retire (x : α) (r : Roster α) : Roster α :=
  if x ∈ r.active then ⟨r.active.erase x, r.away ++ [x]⟩ else r

theorem retire_of_mem (h : x ∈ r.active) : r.retire x = ⟨r.active.erase x, r.away ++ [x]⟩ :=
  if_pos h

theorem retire_of_notMem (h : x ∉ r.active) : r.retire x = r := if_neg h

theorem Of.retire (h : r.Of all) : (r.retire x).Of all := by
  by_cases hx : x ∈ r.active
  · rw [retire_of_mem hx]
    calc (r.active.erase x ++ (r.away ++ [x])).Perm (r.active.erase x ++ (x :: r.away)) :=
          (List.perm_append_singleton x r.away).append_left _
      _ |>.Perm (x :: r.active.erase x ++ r.away) := List.perm_middle
      _ |>.Perm (r.active ++ r.away) := (List.perm_cons_erase hx).symm.append_right _
      _ |>.Perm all := h
  · rwa [retire_of_notMem hx]

theorem active_retire (x : α) (r : Roster α) : (r.retire x).active = r.active.erase x := by
  by_cases hx : x ∈ r.active
  · rw [retire_of_mem hx]
  · rw [retire_of_notMem hx, List.erase_of_not_mem hx]

theorem mem_away_retire (hy : y ∈ (r.retire x).away) : y ∈ r.away ∨ y = x ∧ x ∈ r.active := by
  by_cases hx : x ∈ r.active
  · rw [retire_of_mem hx] at hy
    rcases List.mem_append.mp hy with hy | hy
    · exact .inl hy
    · exact .inr ⟨List.mem_singleton.mp hy, hx⟩
  · rw [retire_of_notMem hx] at hy; exact .inl hy

end Roster

end OJ.Framework
