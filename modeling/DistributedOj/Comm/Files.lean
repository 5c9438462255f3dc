import DistributedOj.Comm.UniqFileName
import DistributedOj.Framework.Footprint

/-!
# Files

`PathUtil` and `FileUtil` (`util.hpp`), and the system calls on files that the
compile server makes, as computations on the contents by path. Whether an open
succeeds, and how much of a write is stored, is an argument. Each of them is
within its own path (`within_writeFile` and so on). The paths of two base names
without a `.` are different whatever the suffixes are (`tempFiles_disjoint`).
-/

namespace OJ.Comm

open OJ.Framework

/-- The contents of the files, by path. -/
abbrev Fs := Str → Option Str

namespace PathUtil

def tempPath : Str := "./temp/".toList

def addSuffix (fileName suffix : Str) : Str := tempPath ++ fileName ++ suffix

def src (fileName : Str) : Str := addSuffix fileName ".cpp".toList
def exe (fileName : Str) : Str := addSuffix fileName ".exe".toList
def compilerError (fileName : Str) : Str := addSuffix fileName ".compile_err".toList
def stderr (fileName : Str) : Str := addSuffix fileName ".stderr".toList
def stdin (fileName : Str) : Str := addSuffix fileName ".stdin".toList
def stdout (fileName : Str) : Str := addSuffix fileName ".stdout".toList

/-- The suffixes, in the order in which `RemoveTempFile` goes through them. -/
def suffixes : List Str :=
  [".cpp", ".compile_err", ".exe", ".stdin", ".stdout", ".stderr"].map String.toList

/-- The files of a base name. -/
def tempFiles (fileName : Str) : List Str := suffixes.map (addSuffix fileName)

theorem suffix_eq : ∀ s ∈ suffixes, s = '.' :: s.tail ∧ '.' ∉ s.tail := by decide

/-- A path tells its base name and its suffix. -/
theorem addSuffix_inj {a b : Str} (ha : '.' ∉ a) {s t : Str} (hs : s ∈ suffixes)
    (ht : t ∈ suffixes) (h : addSuffix a s = addSuffix b t) : a = b ∧ s = t := by
  obtain ⟨es, hz⟩ := suffix_eq s hs
  obtain ⟨et, -⟩ := suffix_eq t ht
  rw [addSuffix, addSuffix, List.append_assoc, List.append_assoc, es, et] at h
  obtain ⟨hab, -, hst⟩ := (List.append_cons_inj_of_notMem ha hz).mp (List.append_cancel_left h)
  exact ⟨hab, by rw [es, et, hst]⟩

theorem tempFiles_disjoint {a b : Str} (ha : '.' ∉ a) (h : a ≠ b) :
    (tempFiles a).Disjoint (tempFiles b) := by
  intro p hp hq
  obtain ⟨s, hs, rfl⟩ := List.mem_map.mp hp
  obtain ⟨t, ht, e⟩ := List.mem_map.mp hq
  exact h (addSuffix_inj ha hs ht e.symm).1

theorem addSuffix_inj_right {a s t : Str} : addSuffix a s = addSuffix a t ↔ s = t := by
  simp [addSuffix]

-- The six paths of a base name are different.
section
variable (name : Str)

@[simp] theorem src_ne : src name ≠ exe name ∧ src name ≠ compilerError name ∧
    src name ≠ stdin name ∧ src name ≠ stdout name ∧ src name ≠ stderr name := by
  simp [src, exe, compilerError, stdin, stdout, stderr, addSuffix_inj_right]

@[simp] theorem exe_ne : exe name ≠ src name ∧ exe name ≠ compilerError name ∧
    exe name ≠ stdin name ∧ exe name ≠ stdout name ∧ exe name ≠ stderr name := by
  simp [src, exe, compilerError, stdin, stdout, stderr, addSuffix_inj_right]

@[simp] theorem compilerError_ne : compilerError name ≠ src name ∧ compilerError name ≠ exe name ∧
    compilerError name ≠ stdin name ∧ compilerError name ≠ stdout name ∧ compilerError name ≠ stderr name := by
  simp [src, exe, compilerError, stdin, stdout, stderr, addSuffix_inj_right]

@[simp] theorem stdin_ne : stdin name ≠ src name ∧ stdin name ≠ exe name ∧
    stdin name ≠ compilerError name ∧ stdin name ≠ stdout name ∧ stdin name ≠ stderr name := by
  simp [src, exe, compilerError, stdin, stdout, stderr, addSuffix_inj_right]

@[simp] theorem stdout_ne : stdout name ≠ src name ∧ stdout name ≠ exe name ∧
    stdout name ≠ compilerError name ∧ stdout name ≠ stdin name ∧ stdout name ≠ stderr name := by
  simp [src, exe, compilerError, stdin, stdout, stderr, addSuffix_inj_right]

@[simp] theorem stderr_ne : stderr name ≠ src name ∧ stderr name ≠ exe name ∧
    stderr name ≠ compilerError name ∧ stderr name ≠ stdin name ∧ stderr name ≠ stdout name := by
  simp [src, exe, compilerError, stdin, stdout, stderr, addSuffix_inj_right]

end

end PathUtil

/-! ## Base names -/

/-- A name of the form `digits_digits`. -/
def BaseName (name : Str) : Prop :=
  ∃ a b : Str, a ≠ [] ∧ b ≠ [] ∧ (∀ c ∈ a, c.isDigit) ∧ (∀ c ∈ b, c.isDigit) ∧
    name = a ++ "_".toList ++ b

theorem BaseName.dot_notMem {name : Str} (h : BaseName name) : '.' ∉ name := by
  obtain ⟨a, b, -, -, ha, hb, rfl⟩ := h
  simp only [List.mem_append, not_or]
  exact ⟨⟨fun h => absurd (ha _ h) (by decide), by decide⟩, fun h => absurd (hb _ h) (by decide)⟩

theorem BaseName.ne_nil {name : Str} (h : BaseName name) : name ≠ [] := by
  obtain ⟨a, b, -, -, -, -, rfl⟩ := h
  simp

/-- The names that `UniqFileName` returns, from 1970 on. -/
theorem baseName_uniqName (ms : Nat) (id : UInt32) : BaseName (uniqName (toStringI ms) id) :=
  ⟨toStringU ms, toStringU id.toNat, toStringU_ne_nil _, toStringU_ne_nil _,
    fun _ h => isDigit_of_mem_toStringU h, fun _ h => isDigit_of_mem_toStringU h, rfl⟩

/-! ## System calls -/

/-- `open` with `O_CREAT`, which succeeds as `ok` says. -/
def openCreat (ok : Bool) (path : Str) : StateM Fs Bool := do
  if ok then
    match ← readAt path with
    | some _ => return true
    | none =>
      writeAt path (some [])
      return true
  else return false

/-- What ends up in a file when `text` is written from its start on. -/
def overwrite (path text : Str) : StateM Fs Unit := do
  let old ← readAt path
  writeAt path (some (text ++ (old.getD []).drop text.length))

def unlink (path : Str) : StateM Fs Unit := writeAt path none

namespace FileUtil

def isFileExits (pathName : Str) : StateM Fs Bool := return (← readAt pathName).isSome

/-- `WriteFile`: the file cannot be opened, or so many bytes of `code` are
stored. -/
def writeFile (stored : Option Nat) (target code : Str) : StateM Fs Bool := do
  match stored with
  | none => return false
  | some n =>
    writeAt target (some (code.take n))
    return true

/-- `ReadFile`, and `*content`, where the file can be opened if `ok`. -/
def readFile (ok : Bool) (target : Str) (keep : Bool) : StateM Fs (Bool × Str) := do
  match ← readAt target with
  | some text =>
    if ok then return (true, (getline text).flatMap (· ++ if keep then "\n".toList else []))
    else return (false, [])
  | none => return (false, [])

end FileUtil

section
variable (path : Str) (fs : Fs)

theorem run_openCreat (ok : Bool) : (openCreat ok path).run fs =
    (ok, if ok then Function.update fs path (some ((fs path).getD [])) else fs) := by
  cases ok
  · rfl
  · show (match fs path with
      | some _ => (pure true : StateM Fs Bool)
      | none => do writeAt path (some []); return true).run fs = _
    cases h : fs path with
    | none => rfl
    | some text => rw [Stateful.run_pure, if_pos rfl, Option.getD_some, ← h, Function.update_eq_self]

theorem run_overwrite (text : Str) : (overwrite path text).run fs =
    (⟨⟩, Function.update fs path (some (text ++ ((fs path).getD []).drop text.length))) := (rfl)

theorem run_isFileExits : (FileUtil.isFileExits path).run fs = ((fs path).isSome, fs) := (rfl)

theorem run_writeFile (stored : Option Nat) (code : Str) :
    (FileUtil.writeFile stored path code).run fs =
      (stored.isSome, stored.elim fs fun n => Function.update fs path (some (code.take n))) := by
  cases stored <;> rfl

theorem run_readFile (ok keep : Bool) : (FileUtil.readFile ok path keep).run fs =
    ((ok && (fs path).isSome, if ok then (fs path).elim [] fun text =>
      (getline text).flatMap (· ++ if keep then "\n".toList else []) else []), fs) := by
  show (match fs path with
    | some text => if ok then (pure (true, (getline text).flatMap
        (· ++ if keep then "\n".toList else [])) : StateM Fs (Bool × Str))
      else return (false, [])
    | none => return (false, [])).run fs = _
  cases fs path <;> cases ok <;> rfl

end

section
variable {F : Set Str} {path : Str}

theorem within_openCreat (h : path ∈ F) (ok : Bool) : Within F (openCreat ok path) := by
  refine .ite (.bind (.readAt h) fun text => ?_) (.pure _)
  cases text with
  | none => exact .bind (.writeAt h _) fun _ => .pure _
  | some _ => exact .pure _

theorem within_overwrite (h : path ∈ F) (text : Str) : Within F (overwrite path text) :=
  .bind (.readAt h) fun _ => .writeAt h _

theorem within_unlink (h : path ∈ F) : Within F (unlink path) := .writeAt h _

theorem within_isFileExits (h : path ∈ F) : Within F (FileUtil.isFileExits path) :=
  .bind (.readAt h) fun _ => .pure _

theorem within_writeFile (h : path ∈ F) (stored : Option Nat) (code : Str) :
    Within F (FileUtil.writeFile stored path code) := by
  cases stored with
  | none => exact .pure _
  | some n => exact .bind (.writeAt h _) fun _ => .pure _

theorem within_readFile (h : path ∈ F) (ok keep : Bool) : Within F (FileUtil.readFile ok path keep) := by
  refine .bind (.readAt h) fun text => ?_
  cases text with
  | none => exact .pure _
  | some text => exact .ite (.pure _) (.pure _)

end

end OJ.Comm
