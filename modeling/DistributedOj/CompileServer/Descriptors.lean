import DistributedOj.CompileServer.Isolation
import DistributedOj.Framework.Fds

/-!
# The descriptors of the compile server

Calls of `Start` in the threads of one process, with its descriptor table. A
step of a call (`Job.step`) opens, closes or forks as the code does there
(`Call.effect`); a stream is opened in a step of its own, and the descriptors
of `Run` are closed one by one while the child goes on. A child has a copy of
the whole table, and none is closed by `exec` (`Call.execFds`). Without their
descriptors the runs are those of `Job.step` (`Sys.run_jobs`).
-/

namespace OJ.CompileServer

open OJ.Comm OJ.Framework PathUtil

/-- A child: its descriptors, and the calls of `dup2` before its `exec`. -/
structure Child where
  fds : Fds Str
  dups : List (Nat × Nat)

/-- A call of `Start`: the descriptor of its stream, those of `Run` that are to
be closed, those that `Run` has left open, and its child. -/
structure Call where
  job : Job
  stream : Option Nat
  run : List Nat
  lost : List Nat
  child : Option Child

/-- What a call does next: open its stream, take the next step, or close a
descriptor of `Run`. -/
inductive Op where
  | fopen
  | step
  | close
  deriving DecidableEq

namespace Call

/-- Where the files of `Run` are being opened, up to its `fork`. -/
def opening : JobPc → Bool
  | .openOut _ | .openErr _ _ | .forkRun => true
  | _ => false

/-- The file that `WriteFile` or `ReadFile` can open. -/
def target (fs : Fs) (j : Job) : Option Str :=
  let o := j.outcomes
  let f := j.fileName
  match j.pc with
  | .writeSrc => if o.writeSrc.isSome then some (src f) else none
  | .writeStdin => if o.writeStdin.isSome then some (stdin f) else none
  | .describe status =>
    if status = -3 ∧ o.readDesc ∧ (fs (compilerError f)).isSome then some (compilerError f) else none
  | .readStdout .. => if o.readOut ∧ (fs (stdout f)).isSome then some (stdout f) else none
  | .readStderr .. => if o.readErr ∧ (fs (stderr f)).isSome then some (stderr f) else none
  | _ => none

/-- An `open` in `Run`. -/
def openRun (fds : Fds Str) (c : Call) (ok : Bool) (path : Str) : Fds Str × Call :=
  if ok then (fds.openFile path, { c with run := c.run ++ [fds.lowest] }) else (fds, c)

/-- `Run` returns without closing what it has opened. -/
def abandon (c : Call) : Call := { c with run := [], lost := c.lost ++ c.run }

/-- What a step does with the descriptors. -/
def effect (fds : Fds Str) (c : Call) : Fds Str × Call :=
  let o := c.job.outcomes
  let f := c.job.fileName
  match c.job.pc with
  | .writeSrc | .writeStdin | .describe _ | .readStdout .. | .readStderr .. =>
    match c.stream with
    | some fd => (fds.close fd, { c with stream := none })
    | none => (fds, c)
  | .forkGxx => if o.forkGxx then (fds, { c with child := some ⟨fds, []⟩ }) else (fds, c)
  | .openGxxErr =>
    if o.openGxxErr then
      (fds, { c with child := c.child.map fun ch =>
        ⟨ch.fds.openFile (compilerError f), [(ch.fds.lowest, 2)]⟩ })
    else (fds, { c with child := none })
  | .openIn => openRun fds c o.openIn (stdin f)
  | .openOut _ => openRun fds c o.openOut (stdout f)
  | .openErr inFd outFd =>
    let r := openRun fds c o.openErr (stderr f)
    if inFd && outFd && o.openErr then r
    else (r.1, r.2.abandon)
  | .forkRun =>
    if o.forkRun then (fds, { c with child := some ⟨fds, c.run.zip [0, 1, 2]⟩ }) else (fds, c)
  | .execGxx | .exec => (fds, { c with child := none })
  | _ => (fds, c)

/-- The child's table when it executes `g++` or the program next. -/
def execFds (fs : Fs) (c : Call) : Option (Fds Str) :=
  let o := c.job.outcomes
  match c.job.pc with
  | .execGxx => if o.execGxx then c.child.map fun ch => ch.fds.dupAll ch.dups else none
  | .exec =>
    if o.execRun ∧ (fs (exe c.job.fileName)).isSome then
      c.child.map fun ch => ch.fds.dupAll ch.dups
    else none
  | _ => none

/-- A call in a process with the files `fs` and the descriptors `fds`. -/
def step (T : Toolchain) (op : Op) (fs : Fs) (fds : Fds Str) (c : Call) :
    Option (Fs × Fds Str × Call) :=
  match op with
  | .fopen =>
    match c.stream, target fs c.job with
    | none, some path => some (fs, fds.openFile path, { c with stream := some fds.lowest })
    | _, _ => none
  | .step => do
    guard ((target fs c.job).isSome → c.stream.isSome)
    guard (opening c.job.pc ∨ c.job.pc = .exec ∨ c.run = [])
    let x ← c.job.step T
    let (fds, c) := c.effect fds
    return ((x.run fs).2, fds, { c with job := (x.run fs).1 })
  | .close =>
    match c.run with
    | fd :: run =>
      if opening c.job.pc then none else some (fs, fds.close fd, { c with run := run })
    | [] => none

end Call

/-- The process: its files, its descriptors and the calls in its threads. -/
structure Sys where
  fs : Fs
  fds : Fds Str
  calls : List Call

namespace Sys

/-- Call `t` does `op`. -/
def step (T : Toolchain) (s : Sys) (e : Nat × Op) : Option Sys := do
  let c ← s.calls[e.1]?
  let (fs, fds, c) ← c.step T e.2 s.fs s.fds
  return ⟨fs, fds, s.calls.set e.1 c⟩

/-- The calls `jobs` at their start. -/
def init (fs : Fs) (fds : Fds Str) (jobs : List Job) : Sys :=
  ⟨fs, fds, jobs.map fun j => ⟨j, none, [], [], none⟩⟩

theorem step_eq {T : Toolchain} {s s' : Sys} {t : Nat} {op : Op} (h : s.step T (t, op) = some s') :
    ∃ c c', s.calls[t]? = some c ∧ c.step T op s.fs s.fds = some (s'.fs, s'.fds, c') ∧
      s'.calls = s.calls.set t c' := by
  simp only [step, Option.bind_eq_bind, Option.bind_eq_some_iff] at h
  obtain ⟨c, hc, ⟨fs, fds, c'⟩, hs, h⟩ := h
  cases h
  exact ⟨c, c', hc, hs, rfl⟩

end Sys

/-! ## What a step does -/

namespace Call

variable {T : Toolchain} {fs fs' : Fs} {fds fds' : Fds Str} {c c' : Call}

/-- A step of a call is a step of its `Job`, or one with a descriptor only. -/
inductive Step (T : Toolchain) (fs : Fs) (fds : Fds Str) (c : Call) :
    Op → Fs → Fds Str → Call → Prop
  | fopen {path : Str} : c.stream = none → target fs c.job = some path →
      Step T fs fds c .fopen fs (fds.openFile path) { c with stream := some fds.lowest }
  | step {x : StateM Fs Job} : ((target fs c.job).isSome → c.stream.isSome) →
      (opening c.job.pc ∨ c.job.pc = .exec ∨ c.run = []) → c.job.step T = some x →
      Step T fs fds c .step (x.run fs).2 (c.effect fds).1
        { (c.effect fds).2 with job := (x.run fs).1 }
  | close {fd : Nat} {run : List Nat} : c.run = fd :: run → ¬ opening c.job.pc →
      Step T fs fds c .close fs (fds.close fd) { c with run := run }

theorem step_cases {op : Op} (h : c.step T op fs fds = some (fs', fds', c')) :
    Step T fs fds c op fs' fds' c' := by
  cases op with
  | fopen =>
    simp only [step] at h
    split at h
    · next h₁ h₂ => cases h; exact .fopen h₁ h₂
    · cases h
  | step =>
    simp only [step, Option.bind_eq_bind, Option.bind_eq_some_iff, Option.guard_eq_some'] at h
    obtain ⟨-, hs, -, hr, x, hx, h⟩ := h
    cases h
    exact .step hs hr hx
  | close =>
    simp only [step] at h
    split at h
    · next hr =>
      split at h
      · cases h
      · next ho => cases h; exact .close hr ho
    · cases h

/-- The descriptors of the process that a call has open. -/
def held (c : Call) : List Nat := c.stream.toList ++ c.run ++ c.lost

theorem mem_held_abandon {n : Nat} : n ∈ c.abandon.held ↔ n ∈ c.held := by
  simp only [held, abandon, List.mem_append, List.append_nil]
  tauto

/-- Where a call forks, if it can. -/
def forks (c : Call) : Bool :=
  match c.job.pc with
  | .forkGxx => c.job.outcomes.forkGxx
  | .forkRun => c.job.outcomes.forkRun
  | _ => false

/-- The descriptors after a step, for the files `F` of the call: each was there
and is still held if it was, or is a new one, held, of a file in `F`. -/
def Keeps (F : Set Str) (fds : Fds Str) (c : Call) (r : Fds Str × Call) : Prop :=
  ∀ n p, (n, p) ∈ r.1 → ((n, p) ∈ fds ∧ (n ∈ c.held → n ∈ r.2.held)) ∨ (p ∈ F ∧ n ∈ r.2.held)

theorem keeps_openRun {F : Set Str} {path : Str} (h : path ∈ F) (ok : Bool) :
    Keeps F fds c (openRun fds c ok path) := by
  intro n p hp
  cases ok with
  | false => exact .inl ⟨hp, id⟩
  | true =>
    rcases Fds.mem_openFile.mp hp with ⟨rfl, rfl⟩ | hp
    · exact .inr ⟨h, by simp [held, openRun]⟩
    · refine .inl ⟨hp, fun hn => ?_⟩
      simp only [held, openRun, if_true, List.mem_append] at hn ⊢
      tauto

theorem keeps_close {F : Set Str} {fd : Nat} (h : ∀ n ∈ c.held, n = fd ∨ n ∈ c'.held) :
    Keeps F fds c (fds.close fd, c') := by
  intro n p hp
  obtain ⟨hp, hn⟩ := Fds.mem_close.mp hp
  exact .inl ⟨hp, fun hc => (h n hc).resolve_left hn⟩

theorem keeps_effect (fds : Fds Str) (c : Call) :
    Keeps (files c.job.fileName) fds c (c.effect fds) := by
  have same {r : Fds Str × Call} (h : r.1 = fds) (hh : r.2.held = c.held) :
      Keeps (files c.job.fileName) fds c r := fun n p hp => .inl ⟨h ▸ hp, fun hn => hh ▸ hn⟩
  unfold effect
  simp only
  cases hpc : c.job.pc with
  | writeSrc | writeStdin | describe _ | readStdout _ _ | readStderr _ _ _ =>
    simp only
    split
    · next hs => exact keeps_close fun n hn => by simpa [held, hs, or_assoc] using hn
    · exact same rfl rfl
  | openIn => exact keeps_openRun (stdin_mem _) _
  | openOut inFd => exact keeps_openRun (stdout_mem _) _
  | openErr inFd outFd =>
    have h : Keeps _ fds c _ := keeps_openRun (stderr_mem c.job.fileName) c.job.outcomes.openErr
    simp only
    split
    · exact h
    · intro n p hp
      rw [mem_held_abandon]
      exact h n p hp
  | forkGxx | openGxxErr | forkRun =>
    simp only
    split <;> exact same rfl rfl
  | _ => exact same rfl rfl

/-- The child after a step: a copy of the table, at a fork, or the child before
it, with files of the call. -/
theorem child_effect {ch' : Child} (h : (c.effect fds).2.child = some ch') :
    (c.forks ∧ ch'.fds = fds) ∨ ∃ ch, c.child = some ch ∧
      ∀ n p, (n, p) ∈ ch'.fds → (n, p) ∈ ch.fds ∨ p ∈ files c.job.fileName := by
  have same (h : c.child = some ch') : ∃ ch, c.child = some ch ∧
      ∀ n p, (n, p) ∈ ch'.fds → (n, p) ∈ ch.fds ∨ p ∈ files c.job.fileName :=
    ⟨ch', h, fun _ _ => .inl⟩
  have openRun_child (ok : Bool) (path : Str) : (openRun fds c ok path).2.child = c.child := by
    cases ok <;> rfl
  unfold effect forks at *
  simp only at h ⊢
  cases hpc : c.job.pc with
  | forkGxx | forkRun =>
    simp only [hpc] at h ⊢
    split at h
    · next ho => cases h; exact .inl ⟨ho, rfl⟩
    · exact .inr (same h)
  | openGxxErr =>
    simp only [hpc] at h
    split at h
    · obtain ⟨ch, hch, rfl⟩ := Option.map_eq_some_iff.mp h
      refine .inr ⟨ch, hch, fun n p hp => ?_⟩
      rcases Fds.mem_openFile.mp hp with ⟨-, rfl⟩ | hp
      · exact .inr (compilerError_mem _)
      · exact .inl hp
    · cases h
  | openIn | openOut _ =>
    simp only [hpc, openRun_child] at h
    exact .inr (same h)
  | openErr inFd outFd =>
    simp only [hpc] at h
    split at h <;> exact .inr (same ((openRun_child _ _).symm.trans h))
  | execGxx | exec =>
    simp only [hpc] at h
    cases h
  | writeSrc | writeStdin | describe _ | readStdout _ _ | readStderr _ _ _ =>
    simp only [hpc] at h
    split at h <;> exact .inr (same h)
  | _ =>
    simp only [hpc] at h
    exact .inr (same h)

theorem target_mem {j : Job} {path : Str} (h : target fs j = some path) :
    path ∈ files j.fileName := by
  have guarded {p : Prop} [Decidable p] {q : Str} (hq : q ∈ files j.fileName)
      (h : (if p then some q else none) = some path) : path ∈ files j.fileName := by
    split at h
    · cases h; exact hq
    · cases h
  unfold target at h
  simp only at h
  cases hpc : j.pc with
  | writeSrc => rw [hpc] at h; exact guarded (src_mem _) h
  | writeStdin => rw [hpc] at h; exact guarded (stdin_mem _) h
  | describe status => rw [hpc] at h; exact guarded (compilerError_mem _) h
  | readStdout status reason => rw [hpc] at h; exact guarded (stdout_mem _) h
  | readStderr status reason out => rw [hpc] at h; exact guarded (stderr_mem _) h
  | _ => rw [hpc] at h; cases h

theorem Step.keeps {op : Op} (h : Step T fs fds c op fs' fds' c') :
    Keeps (files c.job.fileName) fds c (fds', c') := by
  cases h with
  | fopen hs hp =>
    intro n p hn
    rcases Fds.mem_openFile.mp hn with ⟨rfl, rfl⟩ | hn
    · exact .inr ⟨target_mem hp, by simp [held]⟩
    · exact .inl ⟨hn, fun hc => by simpa [held, hs] using .inr (by simpa [held, hs] using hc)⟩
  | step => exact keeps_effect fds c
  | close hr => exact keeps_close fun n hn => by simpa [held, hr, or_assoc, or_left_comm] using hn

theorem Step.child {op : Op} (h : Step T fs fds c op fs' fds' c') {ch' : Child}
    (hch : c'.child = some ch') :
    (op = .step ∧ c.forks ∧ ch'.fds = fds) ∨ ∃ ch, c.child = some ch ∧
      ∀ n p, (n, p) ∈ ch'.fds → (n, p) ∈ ch.fds ∨ p ∈ files c.job.fileName := by
  cases h with
  | fopen | close => exact .inr ⟨ch', hch, fun _ _ => .inl⟩
  | step => exact (child_effect hch).imp_left fun h => ⟨rfl, h⟩

theorem Step.ids {op : Op} (h : Step T fs fds c op fs' fds' c') :
    (c'.job.sub, c'.job.name) = (c.job.sub, c.job.name) := by
  cases h with
  | fopen | close => rfl
  | step _ _ hx => obtain ⟨-, rfl⟩ := Job.step_cases T hx; rfl

end Call

/-! ## Without the descriptors -/

namespace Sys

variable {T : Toolchain}

def jobs (s : Sys) : Fs × List Job := (s.fs, s.calls.map Call.job)

theorem step_jobs {s s' : Sys} {t : Nat} {op : Op} (h : s.step T (t, op) = some s') :
    (op = .step ∧ sharedStep (Job.step T) s.jobs t = some s'.jobs) ∨
      (op ≠ .step ∧ s'.jobs = s.jobs) := by
  obtain ⟨fs', fds', calls'⟩ := s'
  obtain ⟨c, c', hc, hs, rfl⟩ := step_eq h
  have hj : (s.calls.map Call.job)[t]? = some c.job := by rw [List.getElem?_map, hc, Option.map_some]
  cases Call.step_cases hs with
  | step _ _ hx =>
    refine .inl ⟨rfl, (sharedStep_eq hj hx).trans ?_⟩
    simp only [jobs, List.map_set]
  | fopen hp =>
    refine .inr ⟨nofun, ?_⟩
    exact congrArg (Prod.mk s.fs) (map_set_of_eq hc rfl)
  | close hr =>
    refine .inr ⟨nofun, ?_⟩
    exact congrArg (Prod.mk s.fs) (map_set_of_eq hc rfl)

/-- The steps of the calls in a run. -/
def steps (es : List (Nat × Op)) : List Nat := (es.filter (·.2 = .step)).map Prod.fst

theorem run_jobs {C : Sys → Nat × Op → Prop} {s s' : Sys} {es : List (Nat × Op)}
    (h : Run (step T) C s es s') : Run (sharedStep (Job.step T)) Free s.jobs (steps es) s'.jobs := by
  induction h with
  | nil s => exact .nil _
  | @cons s s₁ s' e es _ hs _ ih =>
    obtain ⟨he, hj⟩ | ⟨he, hj⟩ := step_jobs hs
    · rw [steps, List.filter_cons_of_pos (by simpa using he)]
      exact .cons trivial hj ih
    · rw [steps, List.filter_cons_of_neg (by simpa using he), ← hj]
      exact ih

end Sys

end OJ.CompileServer
