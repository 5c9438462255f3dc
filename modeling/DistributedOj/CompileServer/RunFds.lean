import DistributedOj.CompileServer.Descriptors

/-!
# The descriptors of `Run`

`Runner::Run` on the files and the descriptors of the process (`Runner.run`): a
call has the result and the files of `run`, and leaves open what it has opened
unless all three opens succeed (`Runner.run_spec`). So the descriptors stay the
same over any calls iff in each of them all opens succeed or all fail
(`balanced_iff`).
-/

namespace OJ.CompileServer

open OJ.Comm OJ.Framework PathUtil

namespace Runner

/-- A computation on the files alone. -/
def files {α : Type} (x : StateM Fs α) : StateM (Fs × Fds Str) α :=
  fun s => ((x.run s.1).1, ((x.run s.1).2, s.2))

/-- `open` with `O_CREAT`: the descriptor, or -1. -/
def openFd (ok : Bool) (path : Str) : StateM (Fs × Fds Str) Int := do
  let ok ← files (openCreat ok path)
  fun s => if ok then (s.2.lowest, (s.1, s.2.openFile path)) else (-1, s)

/-- `close`, which does nothing to a negative number. -/
def closeFd (fd : Int) : StateM (Fs × Fds Str) Unit :=
  modify fun s => if fd < 0 then s else (s.1, s.2.close fd.toNat)

variable (T : Toolchain) (o : Outcomes) (fileName : Str) (cpuLimit memLimit : Int)

/-- `Runner::Run`, with the child between its `fork` and its end. -/
def run : StateM (Fs × Fds Str) Int := do
  let _inFd ← openFd o.openIn (stdin fileName)
  let _outFd ← openFd o.openOut (stdout fileName)
  let _errFd ← openFd o.openErr (stderr fileName)
  if _inFd < 0 ∨ _outFd < 0 ∨ _errFd < 0 then
    return -1
  if !o.forkRun then
    closeFd _inFd
    closeFd _outFd
    closeFd _errFd
    return -2
  let ran ← files (execute T o fileName cpuLimit memLimit)
  closeFd _inFd
  closeFd _outFd
  closeFd _errFd
  let status ← files (childWrites o fileName ran)
  return ((status &&& 0x7F : Nat) : Int)

variable {T o fileName cpuLimit memLimit} {fs : Fs} {fds : Fds Str}

theorem run_files {α : Type} (x : StateM Fs α) :
    (files x).run (fs, fds) = ((x.run fs).1, (x.run fs).2, fds) := (rfl)

/-- The descriptors after an `open` that succeeds as `ok` says. -/
def openIf (ok : Bool) (path : Str) (fds : Fds Str) : Fds Str := if ok then fds.openFile path else fds

theorem run_openFd (ok : Bool) (path : Str) : (openFd ok path).run (fs, fds) =
    (if ok then (fds.lowest : Int) else -1, ((openCreat ok path).run fs).2,
      openIf ok path fds) := by
  rw [openFd, Stateful.run_bind, run_files, run_openCreat]
  cases ok with
  | false => rfl
  | true => rfl

theorem run_closeFd (n : Nat) : (closeFd n).run (fs, fds) = (⟨⟩, fs, fds.close n) := (rfl)

/-- The descriptors after the three opens. -/
def opensOf (o : Outcomes) (fileName : Str) (fds : Fds Str) : Fds Str :=
  openIf o.openErr (stderr fileName)
    (openIf o.openOut (stdout fileName) (openIf o.openIn (stdin fileName) fds))

/-- The three closes undo three opens. -/
theorem close_opens (fds : Fds Str) (p q r : Str) :
    ((((fds.openFile p).openFile q).openFile r).close fds.lowest |>.close
      (fds.openFile p).lowest |>.close ((fds.openFile p).openFile q).lowest) = fds := by
  rw [Fds.close_comm, Fds.close_comm _ fds.lowest, Fds.close_openFile, Fds.close_comm,
    Fds.close_openFile, Fds.close_openFile]

/-- `Run` does with the files what `run` does, and leaves the descriptors of
its opens unless all of them succeed. -/
theorem run_spec : (run T o fileName cpuLimit memLimit).run (fs, fds) =
    (((CompileServer.run T o fileName cpuLimit memLimit).run fs).1,
      ((CompileServer.run T o fileName cpuLimit memLimit).run fs).2,
      if o.openIn && o.openOut && o.openErr then fds else opensOf o fileName fds) := by
  have hcode (ok : Bool) (path : Str) (fs : Fs) : ((openCreat ok path).run fs).1 = ok := by
    rw [run_openCreat]
  simp only [run, CompileServer.run, Stateful.run_bind, run_openFd, opensOf, openIf, hcode]
  by_cases hopen : o.openIn && o.openOut && o.openErr
  · obtain ⟨hio, herr⟩ := Bool.and_eq_true_iff.mp hopen
    obtain ⟨hin, hout⟩ := Bool.and_eq_true_iff.mp hio
    have hpos (n : Nat) : ¬ (n : Int) < 0 := by omega
    simp only [hin, hout, herr, Bool.and_self, if_true, hpos, or_self, if_false]
    cases o.forkRun with
    | false =>
      simp only [Bool.not_false, if_true, Stateful.run_bind, run_closeFd, Stateful.run_pure,
        close_opens]
      rfl
    | true =>
      simp only [Bool.not_true, Bool.false_eq_true, if_false, if_true, Stateful.run_bind, run_files,
        run_closeFd, Stateful.run_pure, close_opens]
  · -- an open that failed gives a negative number
    have hneg : (-1 : Int) < 0 := by decide
    cases hin : o.openIn with
    | false =>
      simp only [Bool.false_and, Bool.false_eq_true, if_false, hneg, true_or, if_true]
      rfl
    | true =>
      cases hout : o.openOut with
      | false =>
        simp only [Bool.true_and, Bool.false_and, Bool.false_eq_true, if_false, hneg, true_or, or_true,
          if_true]
        rfl
      | true =>
        cases herr : o.openErr with
        | false =>
          simp only [Bool.true_and, Bool.false_eq_true, if_false, hneg, or_true, if_true]
          rfl
        | true => exact absurd (by rw [hin, hout, herr]; rfl) hopen

theorem subset_openIf (ok : Bool) (path : Str) (fds : Fds Str) :
    fds.opened ⊆ (openIf ok path fds).opened := by
  rw [openIf]
  split
  · rw [Fds.opened_openFile]
    exact Set.subset_insert _ _
  · exact subset_rfl

theorem lowest_mem_openIf {ok : Bool} (h : ok = true) (path : Str) (fds : Fds Str) :
    fds.lowest ∈ (openIf ok path fds).opened := by
  rw [openIf, if_pos h, Fds.opened_openFile]
  exact Set.mem_insert _ _

/-- The first open that succeeds takes the lowest descriptor. -/
theorem lowest_mem_opensOf (h : o.openIn = true ∨ o.openOut = true ∨ o.openErr = true) :
    fds.lowest ∈ (opensOf o fileName fds).opened := by
  rw [opensOf]
  cases hin : o.openIn with
  | true => exact subset_openIf _ _ _ (subset_openIf _ _ _ (lowest_mem_openIf rfl _ _))
  | false =>
    cases hout : o.openOut with
    | true => exact subset_openIf _ _ _ (lowest_mem_openIf rfl _ _)
    | false =>
      rw [hin, hout] at h
      exact lowest_mem_openIf (by simpa using h) _ _

/-- All the opens succeed, or none does. -/
def Alike (o : Outcomes) : Prop := o.openIn = o.openOut ∧ o.openOut = o.openErr

/-- The descriptors are the same after a call iff its opens are alike. -/
theorem opened_run_iff :
    ((run T o fileName cpuLimit memLimit).run (fs, fds)).2.2.opened = fds.opened ↔ Alike o := by
  rw [run_spec, Alike]
  dsimp only
  have hnew : fds.lowest ∉ fds.opened := fds.lowest_notMem
  constructor
  · intro h
    by_contra hn
    have hopen : ¬ (o.openIn && o.openOut && o.openErr) = true := by
      rw [Bool.and_eq_true, Bool.and_eq_true]
      rintro ⟨⟨hin, hout⟩, herr⟩
      exact hn ⟨hin.trans hout.symm, hout.trans herr.symm⟩
    rw [if_neg hopen] at h
    refine hnew (h ▸ lowest_mem_opensOf ?_)
    by_contra hnone
    simp only [not_or, Bool.not_eq_true] at hnone
    exact hn ⟨hnone.1.trans hnone.2.1.symm, hnone.2.1.trans hnone.2.2.symm⟩
  · rintro ⟨hio, hoe⟩
    rw [opensOf, hio, hoe]
    cases o.openErr with
    | true => rfl
    | false => rfl

end Runner

/-! ## Calls in turn -/

/-- A call of `Run`, with what it meets. -/
structure RunCall where
  toolchain : Toolchain
  outcomes : Outcomes
  fs : Fs
  fileName : Str
  cpuLimit : Int
  memLimit : Int

/-- The descriptors after a call. -/
def RunCall.after (c : RunCall) (fds : Fds Str) : Fds Str :=
  ((Runner.run c.toolchain c.outcomes c.fileName c.cpuLimit c.memLimit).run (c.fs, fds)).2.2

/-- The descriptors after the calls one after another. -/
def afterRuns (calls : List RunCall) (fds : Fds Str) : Fds Str := calls.foldl (fun fds c => c.after fds) fds

/-- Each of the calls leaves the descriptors open that were, and no others. -/
def Balanced (calls : List RunCall) (fds : Fds Str) : Prop :=
  ∀ done c rest, calls = done ++ c :: rest →
    (afterRuns (done ++ [c]) fds).opened = (afterRuns done fds).opened

theorem afterRuns_concat (calls : List RunCall) (c : RunCall) (fds : Fds Str) :
    afterRuns (calls ++ [c]) fds = c.after (afterRuns calls fds) := by
  rw [afterRuns, List.foldl_append]
  rfl

/-- No call of `Run` in turn leaves a descriptor iff in each of them all opens
succeed or all fail. -/
theorem balanced_iff (calls : List RunCall) (fds : Fds Str) :
    Balanced calls fds ↔ ∀ c ∈ calls, Runner.Alike c.outcomes := by
  constructor
  · intro h c hc
    obtain ⟨done, rest, e⟩ := List.append_of_mem hc
    have := h done c rest e
    rw [afterRuns_concat] at this
    exact Runner.opened_run_iff.mp this
  · rintro h done c rest rfl
    rw [afterRuns_concat]
    exact Runner.opened_run_iff.mpr (h c (List.mem_append_right _ List.mem_cons_self))

/-- Everything but the opens succeeds. -/
def Outcomes.opens (openIn openOut openErr : Bool) : Outcomes :=
  ⟨some 0, some 0, true, true, true, openIn, openOut, openErr, true, true, true, true, true, []⟩

/-- A call for a program that prints nothing. -/
def RunCall.sample (openIn openOut openErr : Bool) : RunCall where
  toolchain := ⟨fun _ => (none, []), fun _ => false, fun _ _ _ _ => ⟨[], [], 0, []⟩, fun _ => []⟩
  outcomes := .opens openIn openOut openErr
  fs _ := none
  fileName := "a".toList
  cpuLimit := 1
  memLimit := 1

/-- The last of the three opens fails, and two descriptors stay. -/
theorem not_balanced : ¬ Balanced [.sample true true false] ([] : Fds Str) ∧
    afterRuns [.sample true true false, .sample true true false] [] =
      [(3, stdout "a".toList), (2, stdin "a".toList), (1, stdout "a".toList), (0, stdin "a".toList)] := by
  refine ⟨fun h => ?_, by decide +kernel⟩
  have hopen : 0 ∈ (afterRuns [.sample true true false] []).opened := by
    show 0 ∈ (afterRuns [.sample true true false] []).map Prod.fst
    decide +kernel
  rw [show [RunCall.sample true true false] = [] ++ [.sample true true false] from rfl, h [] _ [] rfl] at hopen
  cases hopen

end OJ.CompileServer
