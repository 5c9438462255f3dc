import DistributedOj.CompileServer.Job

/-!
# Calls of `Start` that share `./temp/`

Where programs are confined, every step of a call is within the six files of its
base name (`Job.keepTo_files`), and those are disjoint for different names. So calls
with different names do, in any order of their steps, what they do alone
(`exists_job`).
-/

namespace OJ.CompileServer

open OJ.Comm OJ.Framework PathUtil

/-- The files of a base name. -/
def files (f : Str) : Set Str := {p | p ∈ tempFiles f}

section
variable (f : Str) {F : Set Str}

theorem addSuffix_mem {s : Str} (h : s ∈ suffixes) : addSuffix f s ∈ files f :=
  List.mem_map_of_mem h

theorem src_mem : src f ∈ files f := addSuffix_mem f (by decide)
theorem exe_mem : exe f ∈ files f := addSuffix_mem f (by decide)
theorem compilerError_mem : compilerError f ∈ files f := addSuffix_mem f (by decide)
theorem stdin_mem : stdin f ∈ files f := addSuffix_mem f (by decide)
theorem stdout_mem : stdout f ∈ files f := addSuffix_mem f (by decide)
theorem stderr_mem : stderr f ∈ files f := addSuffix_mem f (by decide)

theorem within_codeToDesc (o : Outcomes) (code : Int) : Within (files f) (codeToDesc o f code) := by
  unfold codeToDesc
  split
  case h_4 => exact .bind (within_readFile (compilerError_mem f) _ _) fun _ => .pure _
  all_goals exact .pure _

theorem within_removeFile {path : Str} (h : path ∈ F) : Within F (removeFile path) :=
  .bind (within_isFileExits h) fun _ => .ite (within_unlink h) (.pure _)

theorem within_gxxWrites (he : PathUtil.exe f ∈ F) (hc : compilerError f ∈ F) (exe : Option Str)
    (unlinks : Bool) (diagnostics : Str) : Within F (gxxWrites f exe unlinks diagnostics) := by
  cases exe with
  | none =>
    cases unlinks with
    | true => exact .bind (within_unlink he) fun _ => within_overwrite hc _
    | false => exact within_overwrite hc _
  | some text => exact .bind (.writeAt he _) fun _ => within_overwrite hc _

theorem within_execute (T : Toolchain) (o : Outcomes) (cpuLimit memLimit : Int) :
    Within (files f) (execute T o f cpuLimit memLimit) := by
  refine .bind (.readAt (exe_mem f)) fun program => .bind (.readAt (stdin_mem f)) fun input => ?_
  cases program with
  | none => exact .pure _
  | some text => exact .ite (.pure _) (.pure _)

theorem within_leave {r : Ran} (h : r.files = []) : Within F r.leave := by
  rw [Ran.leave, h]
  exact .pure _

theorem within_childWrites (o : Outcomes) {ran : Option Ran} (h : ∀ r, ran = some r → r.files = []) :
    Within (files f) (childWrites o f ran) := by
  cases ran with
  | none => exact .bind (within_overwrite (stdout_mem f) _) fun _ => .pure _
  | some r =>
    exact .bind (within_overwrite (stdout_mem f) _) fun _ =>
      .bind (within_overwrite (stderr_mem f) _) fun _ => .bind (within_leave (h r rfl)) fun _ => .pure _

/-- What `execute` runs is a program of `T`. -/
theorem of_execute {T : Toolchain} {o : Outcomes} {cpuLimit memLimit : Int} {fs : Fs} {r : Ran}
    (h : ((execute T o f cpuLimit memLimit).run fs).1 = some r) :
    ∃ text input, r = T.program text input cpuLimit memLimit := by
  simp only [execute, Stateful.run_bind, run_readAt] at h
  cases hx : fs (exe f) with
  | none =>
    rw [hx] at h
    cases h
  | some text =>
    rw [hx] at h
    cases hr : o.execRun with
    | false =>
      rw [hr] at h
      cases h
    | true =>
      rw [hr] at h
      exact ⟨text, _, (Option.some.inj h).symm⟩

end

namespace Job

variable (T : Toolchain)

/-- A program that has run has left no files. -/
def Tidy (j : Job) : Prop := ∀ r, j.pc = .running (some r) → r.files = []

theorem within_next {j : Job} (hj : j.Tidy) : Within (files j.fileName) (j.next T) := by
  have ret {β : Type} {x : StateM Fs β} {g : β → JobPc} (h : Within (files j.fileName) x) :
      Within (files j.fileName) (x >>= fun b => pure (g b)) := .bind h fun _ => .pure _
  obtain ⟨sub, name, o, pc⟩ := j
  cases pc with
  | begin | forkGxx | forkRun | done _ => exact .pure _
  | writeSrc => exact ret (within_writeFile (src_mem _) _ _)
  | writeStdin => exact ret (within_writeFile (stdin_mem _) _ _)
  | openGxxErr => exact ret (within_openCreat (compilerError_mem _) _)
  | execGxx => exact .ite (ret (.readAt (src_mem _))) (.pure _)
  | gxxWrites exe unlinks diagnostics => exact ret (within_gxxWrites _ (exe_mem _) (compilerError_mem _) _ _ _)
  | checkExe => exact ret (within_isFileExits (exe_mem _))
  | openIn => exact ret (within_openCreat (stdin_mem _) _)
  | openOut inFd => exact ret (within_openCreat (stdout_mem _) _)
  | openErr inFd outFd => exact ret (within_openCreat (stderr_mem _) _)
  | exec => exact ret (within_execute _ _ _ _ _)
  | running ran => exact ret (within_childWrites _ _ fun r e => hj r (congrArg _ e))
  | describe status => exact ret (within_codeToDesc _ _ _)
  | readStdout status reason => exact ret (within_readFile (stdout_mem _) _ _)
  | readStderr status reason out => exact ret (within_readFile (stderr_mem _) _ _)
  | remove outJson n =>
    simp only [next]
    split
    · next h => exact ret (within_removeFile (List.mem_of_getElem? h))
    · exact .pure _

/-- A call is at a program that has run only after `execute`. -/
theorem running_of_next {j : Job} {fs : Fs} {ran : Option Ran} (h : ((j.next T).run fs).1 = .running ran) :
    j.pc = .exec ∧ ((execute T j.outcomes j.fileName j.sub.cpuLimit j.sub.memLimit).run fs).1 = ran := by
  obtain ⟨sub, name, o, pc⟩ := j
  cases pc with
  | exec => exact ⟨rfl, JobPc.running.inj h⟩
  | begin | forkGxx | execGxx | forkRun =>
    simp only [next] at h
    split at h <;> cases h
  | writeSrc | writeStdin | openGxxErr | checkExe | openErr _ _ | describe _ =>
    simp only [next, Stateful.run_bind, Stateful.run_pure] at h
    split at h <;> cases h
  | remove outJson n =>
    simp only [next] at h
    split at h <;> cases h
  | _ => cases h

theorem Tidy.next (hT : T.Confined) (j : Job) (fs : Fs) :
    Tidy { j with pc := ((j.next T).run fs).1 } := by
  intro r hr
  obtain ⟨-, hx⟩ := running_of_next T hr
  obtain ⟨text, input, rfl⟩ := of_execute j.fileName hx
  exact hT ..

/-- A call keeps to the files of its base name. -/
theorem keepTo_files (hT : T.Confined) : KeepTo (step T) Tidy fun j => files j.fileName where
  within j x hj h := by
    obtain ⟨-, rfl⟩ := step_cases T h
    rw [map_eq_pure_bind]
    exact .bind (within_next T hj) fun _ => .pure _
  keep j x fs _ h := by
    obtain ⟨-, rfl⟩ := step_cases T h
    exact Tidy.next T hT j fs
  stay j x fs _ h := by
    obtain ⟨-, rfl⟩ := step_cases T h
    rfl

/-- A call with code at its start, whose base name has the form of one. -/
structure Begins (j : Job) : Prop where
  pc : j.pc = .begin
  code : j.sub.code ≠ []
  name : BaseName j.name

theorem Begins.fileName {j : Job} (h : j.Begins) : j.fileName = j.name := if_neg h.code

theorem Begins.tidy {j : Job} (h : j.Begins) : j.Tidy := fun r hr => by
  rw [h.pc] at hr
  cases hr

/-- Alone, a call does what `start` does. -/
theorem Begins.alone_done {j j' : Job} (h : j.Begins) {fs fs' : Fs} {n : Nat} {outJson : Str}
    (ha : alone (step T) fs j n = some (fs', j')) (hd : j'.pc = .done outJson) :
    (start T j.outcomes j.sub j.name).run fs = (outJson, fs') := by
  have hr := alone_rest (R := rest T) (fun _ _ => rest_step T) ha
  simp only [rest, h.pc, hd] at hr
  exact hr

end Job

/-- What a call answers alone, from the files `fs`. -/
def Job.alone (T : Toolchain) (fs : Fs) (j : Job) : Str := ((start T j.outcomes j.sub j.name).run fs).1

open Job

section
variable {T : Toolchain} {fs fs' : Fs} {jobs jobs' : List Job} (hj : ∀ j ∈ jobs, j.Begins)
  (hn : (jobs.map name).Nodup)
include hj hn

theorem files_disjoint {t u : Nat} {j k : Job} (htu : t ≠ u) (ht : jobs[t]? = some j)
    (hu : jobs[u]? = some k) : (tempFiles j.name).Disjoint (tempFiles k.name) := by
  have hlt : t < (jobs.map name).length := by
    rw [List.length_map]
    exact (List.getElem?_eq_some_iff.mp ht).1
  refine tempFiles_disjoint (hj j (List.mem_of_getElem? ht)).name.dot_notMem fun e => htu ?_
  refine (List.getElem?_inj hlt hn).mp ?_
  rw [List.getElem?_map, List.getElem?_map, ht, hu, Option.map_some, Option.map_some, e]

/-- A call in a run of all of them: where it is, its answer is what it is
alone. -/
theorem exists_job (hT : T.Confined) {es : List Nat} (h : Run (sharedStep (step T)) Free (fs, jobs) es (fs', jobs'))
    {t : Nat} {j : Job} (ht : jobs[t]? = some j) :
    ∃ j', jobs'[t]? = some j' ∧
      ∀ outJson : Str, j'.pc = .done outJson → outJson = j.alone T fs := by
  have hb := fun {t j} (ht : jobs[t]? = some j) => hj j (List.mem_of_getElem? ht)
  have hd (t u : Nat) (j k : Job) (htu : t ≠ u) (ht : jobs[t]? = some j) (hu : jobs[u]? = some k) :
      Disjoint (files j.fileName) (files k.fileName) := by
    rw [(hb ht).fileName, (hb hu).fileName, Set.disjoint_left]
    intro p hp hq
    exact files_disjoint hj hn htu ht hu hp hq
  obtain ⟨fs₁, j', hj', ha, -, -⟩ := h.alone (keepTo_files T hT) (fun j hj' => (hj j hj').tidy) hd ht
  refine ⟨j', hj', fun outJson hout => ?_⟩
  rw [Job.alone, (hb ht).alone_done T ha hout]

end

/-! ## Two submissions -/

def echoCode : Str := "#include<cstdio>\nint main()\x7bputchar(getchar());\x7d".toList
def crashCode : Str := "int main()\x7breturn *(int*)0;\x7d".toList

/-- A character of a string that `Json::StyledWriter` writes. -/
def escape (c : Char) : Str :=
  if c = '\n' then "\\n".toList else if c = '"' ∨ c = '\\' then ['\\', c] else [c]

def quoted (s : Str) : Str := '"' :: s.flatMap escape ++ ['"']

/-- `Json::StyledWriter` on an object of integers and strings: its members in
the order of their names. -/
def styled : Json → Str
  | .obj fields =>
    let members := (fields.insertionSort fun a b => a.1 ≤ b.1).map fun (k, v) =>
      "   ".toList ++ quoted k ++ " : ".toList ++
        match v with
        | .int n => toStringI n
        | .str s => quoted s
        | _ => []
    "\x7b\n".toList ++ ",\n".toList.intercalate members ++ "\n\x7d\n".toList
  | _ => []

/-- What `g++`, the two programs and `Json::StyledWriter` do for them. -/
def demo : Toolchain where
  gxx source := if source = some echoCode then (some "\x7fELF echo".toList, [])
    else if source = some crashCode then (some "\x7fELF crash".toList, [])
    else (none, "error".toList)
  unlinks _ := false
  program text input _ _ :=
    if text = "\x7fELF echo".toList then ⟨input.take 1, [], 0, []⟩ else ⟨[], [], 139, []⟩
  write := styled

theorem demo_confined : demo.Confined := fun text input cpuLimit memLimit => by
  show (if _ then _ else _ : Ran).files = _
  split <;> rfl

def echoJob : Job where
  sub := ⟨echoCode, "7".toList, 1, 20000⟩
  name := "1700000000000_1".toList
  outcomes := ⟨some 100, some 100, true, true, true, true, true, true, true, true, true, true, true, []⟩
  pc := .begin

def crashJob : Job where
  sub := ⟨crashCode, [], 1, 20000⟩
  name := "1700000000000_2".toList
  outcomes := ⟨some 100, some 100, true, true, true, true, true, true, true, true, true, true, true, []⟩
  pc := .begin

theorem echoJob_begins : echoJob.Begins := by
  have e : uniqName (toStringI 1700000000000) 1 = echoJob.name := by decide
  exact ⟨rfl, by decide, e ▸ baseName_uniqName 1700000000000 1⟩

theorem crashJob_begins : crashJob.Begins := by
  have e : uniqName (toStringI 1700000000000) 2 = crashJob.name := by decide
  exact ⟨rfl, by decide, e ▸ baseName_uniqName 1700000000000 2⟩

def echoAnswer : Str :=
  ("\x7b\n   \"reason\" : \"编译运行成功\",\n   \"status\" : 0,\n" ++
    "   \"stderr\" : \"\",\n   \"stdout\" : \"7\\n\"\n\x7d\n").toList

def crashAnswer : Str := "\x7b\n   \"reason\" : \"段错误\",\n   \"status\" : 11\n\x7d\n".toList

end OJ.CompileServer
