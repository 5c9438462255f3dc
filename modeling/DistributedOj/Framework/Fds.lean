import Mathlib

/-!
# Descriptor tables

The open descriptors of a process and what each refers to, with `open`,
`close` and `dup2`. Only `open` adds what a table refers to
(`Fds.mem_openFile`, `Fds.mem_close`, `Fds.exists_of_mem_dup2`), and the
descriptor it returns was free (`Fds.lowest_notMem`), so that closing it undoes
the `open` (`Fds.close_openFile`).
-/

namespace OJ.Framework

variable {α : Type*}

/-- The open descriptors of a process, each with what it refers to. -/
abbrev Fds (α : Type*) := List (Nat × α)

namespace Fds

/-- The lowest descriptor that is free, which `open` returns. -/
def lowest (fds : Fds α) : Nat :=
  ((List.range fds.length).find? fun n => n ∉ fds.map Prod.fst).getD fds.length

def openFile (fds : Fds α) (a : α) : Fds α := (fds.lowest, a) :: fds

def close (fds : Fds α) (n : Nat) : Fds α := fds.filter fun d => d.1 ≠ n

def dup2 (fds : Fds α) (n m : Nat) : Fds α :=
  match fds.lookup n with
  | some a => if n = m then fds else (m, a) :: fds.close m
  | none => fds

/-- `dup2` for each pair, in order. -/
def dupAll (fds : Fds α) : List (Nat × Nat) → Fds α
  | [] => fds
  | (n, m) :: l => dupAll (fds.dup2 n m) l

variable {fds : Fds α} {a b : α} {n m k : Nat}

@[simp] theorem mem_openFile : (n, a) ∈ fds.openFile b ↔ (n = fds.lowest ∧ a = b) ∨ (n, a) ∈ fds := by
  simp [openFile]

@[simp] theorem mem_close : (n, a) ∈ fds.close m ↔ (n, a) ∈ fds ∧ n ≠ m := by
  simp [close]

theorem mem_of_lookup (h : fds.lookup n = some a) : (n, a) ∈ fds := by
  obtain ⟨l₁, l₂, rfl, -⟩ := List.lookup_eq_some_iff.mp h
  exact List.mem_append_right _ List.mem_cons_self

theorem exists_of_mem_dup2 (h : (k, a) ∈ fds.dup2 n m) : ∃ k', (k', a) ∈ fds := by
  unfold dup2 at h
  split at h
  · next b hb =>
    split at h
    · exact ⟨k, h⟩
    · rcases List.mem_cons.mp h with e | h
      · cases e; exact ⟨n, mem_of_lookup hb⟩
      · exact ⟨k, (mem_close.mp h).1⟩
  · exact ⟨k, h⟩

theorem exists_of_mem_dupAll {l : List (Nat × Nat)} (h : (k, a) ∈ fds.dupAll l) :
    ∃ k', (k', a) ∈ fds := by
  induction l generalizing fds with
  | nil => exact ⟨k, h⟩
  | cons d l ih =>
    obtain ⟨k', h'⟩ := ih h
    exact exists_of_mem_dup2 h'

/-- The open descriptors. -/
def opened (fds : Fds α) : Set Nat := {n | n ∈ fds.map Prod.fst}

theorem lowest_notMem (fds : Fds α) : fds.lowest ∉ fds.map Prod.fst := by
  unfold lowest
  rcases h : (List.range fds.length).find? fun n => n ∉ fds.map Prod.fst with _ | n
  · -- all of the first `length` numbers are taken, and there are no more descriptors
    rw [List.find?_eq_none] at h
    intro hmem
    have hsub : List.range (fds.length + 1) ⊆ fds.map Prod.fst := by
      intro n hn
      rcases Nat.lt_succ_iff_lt_or_eq.mp (List.mem_range.mp hn) with hlt | rfl
      · simpa using h n (List.mem_range.mpr hlt)
      · exact hmem
    have := (List.nodup_range.subperm hsub).length_le
    rw [List.length_range, List.length_map] at this
    omega
  · simpa using List.find?_some h

theorem close_eq_self (h : n ∉ fds.map Prod.fst) : fds.close n = fds := by
  refine List.filter_eq_self.mpr fun d hd => decide_eq_true fun e => h ?_
  exact List.mem_map.mpr ⟨d, hd, e⟩

theorem close_comm (fds : Fds α) (n m : Nat) : (fds.close n).close m = (fds.close m).close n := by
  rw [close, close, close, close, List.filter_filter, List.filter_filter]
  exact List.filter_congr fun d _ => Bool.and_comm _ _

/-- To close what has just been opened is to undo it. -/
theorem close_openFile (fds : Fds α) (a : α) : (fds.openFile a).close fds.lowest = fds := by
  rw [openFile, close, List.filter_cons_of_neg (by simp)]
  exact close_eq_self fds.lowest_notMem

theorem opened_openFile (fds : Fds α) (a : α) : (fds.openFile a).opened = insert fds.lowest fds.opened := by
  ext n
  simp [opened, openFile]

end Fds

end OJ.Framework
