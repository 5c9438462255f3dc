import DistributedOj.CompileServer.Course
import DistributedOj.CompileServer.Isolation
import DistributedOj.Framework.Simulation

/-!
# The log of the compile server

Calls of `Start` in one process share the buffer of `std::cout`, to which `LOG`
appends (`LogServer`). A child has a copy of it. If the `execl` of a program fails,
`exit(1)` writes the copy out, and the child's standard output is the job's file by
then: the lines of all calls become the output of this one (`not_isolated`). In a run
in which no `execl` fails, every call answers what it answers alone
(`start_isolated`).
-/

namespace OJ.CompileServer

open OJ.Comm OJ.Framework PathUtil

/-- `LOG(level) << message` in line `line` of a file, where `GetTimeStamp` returns
`time`. -/
def logText (level fileName : String) (line : Nat) (time message : Str) : Str :=
  "[".toList ++ level.toList ++ "][".toList ++ fileName.toList ++ "][".toList ++ toStringU line ++
    "][".toList ++ time ++ "]".toList ++ message

namespace Job

/-- The call, where the log buffer holds `log` when the child of `Run` is forked. -/
def withLog (log : Str) (j : Job) : Job := { j with outcomes := { j.outcomes with pending := log } }

/-- The child of `Run` is forked with a copy of the log buffer. -/
def copyLog (log : Str) (j : Job) : Job :=
  match j.pc with
  | .forkRun => j.withLog log
  | _ => j

/-- What `Run` logs of a status of `waitpid`. -/
def logStatus (times : Nat → Str) (status : Nat) : Str :=
  let termSignal := wTermSig status
  let exitCode := (status >>> 8) &&& 0xFF
  (if termSignal = 0 then
    if exitCode = 0 then []
    else logText "INFO" "runner.hpp" 103 (times 0)
      ("User program exited with error code ".toList ++ toStringU exitCode ++ "\n".toList)
  else if termSignal < 0x7F then
    logText "INFO" "runner.hpp" 109 (times 0)
      ("User program was terminated by signal ".toList ++ toStringU termSignal ++ "\n".toList)
  else []) ++
    logText "INFO" "runner.hpp" 112 (times 1) ("运行完毕".toList ++ toStringU termSignal ++ "\n".toList)

/-- The log buffer after a step of `j` to `pc`, which logs at `times`. `std::endl`
writes it out at the label `END`. -/
def logAfter (times : Nat → Str) (j : Job) (pc : JobPc) (log : Str) : Str :=
  match j.pc, pc with
  | .forkGxx, .describe _ =>
    log ++ logText "ERROR" "compiler.hpp" 30 (times 0) "内部错误，创建子进程失败\n".toList
  | .checkExe, .openIn =>
    log ++ logText "INFO" "compiler.hpp" 64 (times 0) (src j.fileName ++ "编译成功\n".toList)
  | .checkExe, .describe _ =>
    log ++ logText "ERROR" "compiler.hpp" 68 (times 0) "编译失败，没有形成可执行程序\n".toList
  | .openErr .., .describe _ =>
    log ++ logText "ERROR" "runner.hpp" 62 (times 0) "运行时打开标准文件失败\n".toList
  | .forkRun, .describe _ =>
    log ++ logText "ERROR" "runner.hpp" 70 (times 0) "运行时创建子进程失败\n".toList
  | .running ran, _ => log ++ logStatus times (ran.elim 256 Ran.status)
  | .describe _, .remove .. | .readStderr .., .remove .. => []
  | _, _ => log

end Job

/-- The files, the log buffer, and the calls. -/
structure LogServer where
  fs : Fs
  log : Str
  jobs : List Job

/-- Call `t` takes a step, in which it logs at `times`; or the first `n` characters
of the log buffer are written out. -/
inductive LogEvent where
  | work (t : Nat) (times : Nat → Str)
  | flush (n : Nat)

def LogEvent.isWork : LogEvent → Bool
  | work .. => true
  | flush _ => false

namespace LogServer

variable (T : Toolchain)

def step (s : LogServer) : LogEvent → Option LogServer
  | .work t times => do
    let j ← s.jobs[t]?
    let x ← (j.copyLog s.log).step T
    let (j', fs) := x.run s.fs
    return ⟨fs, j.logAfter times j'.pc s.log, s.jobs.set t j'⟩
  | .flush n => some { s with log := s.log.drop n }

/-- The `execl` of a program succeeds. -/
def Execs (s : LogServer) : LogEvent → Prop
  | .work t _ => ∀ j ∈ s.jobs[t]?, j.pc = .exec → j.outcomes.execRun ∧ (s.fs (exe j.fileName)).isSome
  | .flush _ => True

instance (s : LogServer) : ∀ e, Decidable (s.Execs e)
  | .work t _ => inferInstanceAs (Decidable (∀ j ∈ s.jobs[t]?, j.pc = .exec →
    j.outcomes.execRun ∧ (s.fs (exe j.fileName)).isSome))
  | .flush _ => isTrue trivial

variable {T} {s s' : LogServer}

theorem step_work {t : Nat} {times : Nat → Str} (h : s.step T (.work t times) = some s') :
    ∃ j x, s.jobs[t]? = some j ∧ (j.copyLog s.log).step T = some x ∧ s'.fs = (x.run s.fs).2 ∧
      s'.jobs = s.jobs.set t (x.run s.fs).1 := by
  simp only [step, Option.bind_eq_bind, Option.bind_eq_some_iff] at h
  obtain ⟨j, hj, x, hx, h⟩ := h
  cases h
  exact ⟨j, x, hj, hx, rfl, rfl⟩

/-! ## Without the log -/

/-- No program has failed to start. -/
def Started (s : LogServer) : Prop := ∀ j ∈ s.jobs, j.pc ≠ .running none

/-- The calls, each of them with this copy of the log buffer. -/
def jobsWith (log : Str) (s : LogServer) : Fs × List Job := (s.fs, s.jobs.map (Job.withLog log))

theorem next_withLog {j : Job} (h : j.pc ≠ .running none) (log : Str) :
    (j.withLog log).next T = j.next T := by
  obtain ⟨sub, name, o, pc⟩ := j
  cases pc with
  | running ran =>
    cases ran with
    | none => exact absurd rfl h
    | some r => rfl
  | _ => rfl

theorem withLog_copyLog (j : Job) (log log' : Str) : (j.copyLog log').withLog log = j.withLog log := by
  unfold Job.copyLog
  split <;> rfl

theorem copyLog_pc (j : Job) (log : Str) : (j.copyLog log).pc = j.pc := by
  unfold Job.copyLog
  split <;> rfl

/-- A step does the same whatever the log buffer holds, unless a program has
failed to start. -/
theorem step_withLog {j : Job} {x : StateM Fs Job} (h : j.pc ≠ .running none) (hx : j.step T = some x)
    (log : Str) : (j.withLog log).step T = some (Job.withLog log <$> x) := by
  obtain ⟨hd, rfl⟩ := Job.step_cases T hx
  obtain ⟨y, hy⟩ : ∃ y, (j.withLog log).step T = some y := Option.ne_none_iff_exists'.mp fun hn => by
    obtain ⟨outJson, e⟩ := (Job.step_eq_none T).mp hn
    exact hd outJson e
  obtain ⟨-, rfl⟩ := Job.step_cases T hy
  rw [hy, next_withLog h log]
  simp only [map_eq_pure_bind, bind_assoc, pure_bind]
  rfl

theorem step_jobsWith {t : Nat} {times : Nat → Str} (hs : s.Started)
    (h : s.step T (.work t times) = some s') (log : Str) :
    sharedStep (Job.step T) (s.jobsWith log) t = some (s'.jobsWith log) := by
  obtain ⟨j, x, hj, hx, hfs, hjobs⟩ := step_work h
  have hpc : (j.copyLog s.log).pc ≠ .running none := by
    rw [copyLog_pc]
    exact hs j (List.mem_of_getElem? hj)
  have hx' := step_withLog hpc hx log
  rw [withLog_copyLog] at hx'
  have hj' : (s.jobsWith log).2[t]? = some (j.withLog log) := by
    rw [jobsWith, List.getElem?_map, hj, Option.map_some]
  rw [sharedStep_eq hj' hx']
  show _ = some (s'.fs, s'.jobs.map (Job.withLog log))
  rw [hfs, hjobs, List.map_set]
  rfl

/-- No program fails to start in a step whose `execl` succeeds. -/
theorem Started.step {e : LogEvent} (hs : s.Started) (hC : s.Execs e) (h : s.step T e = some s') :
    s'.Started := by
  cases e with
  | flush n =>
    cases h
    exact hs
  | work t times =>
    obtain ⟨j, x, hj, hx, -, hjobs⟩ := step_work h
    intro k hk hpc
    rw [hjobs] at hk
    rcases List.mem_or_eq_of_mem_set hk with hk | rfl
    · exact hs k hk hpc
    · obtain ⟨-, rfl⟩ := Job.step_cases T hx
      obtain ⟨hexec, hran⟩ := Job.running_of_next T hpc
      rw [copyLog_pc] at hexec
      obtain ⟨hok, hexe⟩ := hC j hj hexec
      have hcopy : j.copyLog s.log = j := by
        rw [Job.copyLog, hexec]
      obtain ⟨text, htext⟩ := Option.isSome_iff_exists.mp hexe
      rw [hcopy] at hran
      simp only [execute, Stateful.run_bind, run_readAt, htext, hok, if_true] at hran
      cases hran

/-- A run in which no `execl` fails, without the log buffer. -/
theorem run_jobsWith (hs : s.Started) {es : List LogEvent} (h : Run (step T) Execs s es s') (log : Str) :
    ∃ ts, Run (sharedStep (Job.step T)) Free (s.jobsWith log) ts (s'.jobsWith log) := by
  refine h.project_inv (I := Started) (fun s e s₁ hs hC he => hs.step hC he) (fun s e s₁ hs hC he => ?_) hs
  cases e with
  | work t times => exact .inr ⟨t, trivial, step_jobsWith hs he log⟩
  | flush n =>
    cases he
    exact .inl rfl

/-! ## Termination -/

/-- The calls take at most as many steps as they have left. -/
theorem work_le {es : List LogEvent} (h : Run (step T) Execs s es s') :
    es.countP LogEvent.isWork + (s'.jobs.map fun j => j.pc.left).sum ≤ (s.jobs.map fun j => j.pc.left).sum := by
  refine h.inv_trace (I := fun es s' => es.countP LogEvent.isWork + (s'.jobs.map fun j => j.pc.left).sum ≤
    (s.jobs.map fun j => j.pc.left).sum) (fun es s₁ e s₂ hle _ hs => ?_) (by simp)
  cases e with
  | flush n =>
    cases hs
    simpa [LogEvent.isWork] using hle
  | work t times =>
    obtain ⟨j, x, hj, hx, -, hjobs⟩ := step_work hs
    have hlt := Job.left_lt T hx s₁.fs
    rw [copyLog_pc] at hlt
    have hsum := sum_map_set_lt (f := fun j : Job => j.pc.left) (g := fun j => j.pc.left) hj
      (fun _ _ => Nat.le_refl _) hlt
    rw [hjobs, List.countP_append]
    simp only [List.countP_singleton, LogEvent.isWork, if_true]
    omega

theorem done_of_stuck {t : Nat} {j : Job} (hj : s.jobs[t]? = some j)
    (hstuck : ∀ times, s.step T (.work t times) = none) : ∃ outJson, j.pc = .done outJson := by
  obtain ⟨outJson, hd⟩ := (Job.step_eq_none (j := j.copyLog s.log) T).mp <| by
    cases hx : (j.copyLog s.log).step T with
    | none => rfl
    | some x =>
      have h := hstuck fun _ => []
      simp only [step, hj, hx, Option.bind_eq_bind, Option.bind_some] at h
      cases h
  exact ⟨outJson, copyLog_pc j s.log ▸ hd⟩

end LogServer

/-! ## The computation -/

section
variable (T : Toolchain) {o : Outcomes} (hx : o.execRun) (log : Str)
include hx

theorem run_pending {name : Str} {fs : Fs} (he : (fs (exe name)).isSome) (cpuLimit memLimit : Int) :
    (run T { o with pending := log } name cpuLimit memLimit).run fs = (run T o name cpuLimit memLimit).run fs := by
  obtain ⟨text, ht⟩ := Option.isSome_iff_exists.mp he
  simp only [run, Stateful.run_bind, run_openCreat]
  cases o.openIn && o.openOut && o.openErr with
  | false => rfl
  | true =>
    cases o.forkRun with
    | false => rfl
    | true =>
      simp only [if_true, Stateful.run_bind, execute, run_readAt]
      generalize hf : (if o.openErr = true then _ else _ : Fs) = fs₁
      have ht₁ : fs₁ (exe name) = some text := by
        rw [← hf]
        split <;> split <;> split <;> simp [ht]
      simp only [ht₁, hx, if_true]
      rfl

theorem afterWrite_pending (sub : Submission) (name : Str) (fs : Fs) :
    (Job.afterWrite T { o with pending := log } sub name).run fs = (Job.afterWrite T o sub name).run fs := by
  have hcompile : compile T { o with pending := log } name = compile T o name := rfl
  have hexe := (compile_run T o name fs rfl).1
  simp only [Job.afterWrite, Stateful.run_bind, hcompile]
  generalize (compile T o name).run fs = r at hexe ⊢
  cases hr : r.1 with
  | false => rfl
  | true =>
    rw [hr, eq_comm, Bool.and_eq_true] at hexe
    simp only [if_true, Stateful.run_bind]
    rw [run_pending T hx log hexe.2]
    rfl

/-- Where the program can be executed, it does not matter what the log buffer holds. -/
theorem start_pending (sub : Submission) (name : Str) (fs : Fs) :
    (start T { o with pending := log } sub name).run fs = (start T o sub name).run fs := by
  by_cases hc : sub.code = []
  · simp only [start, if_pos hc]
    rfl
  · simp only [start, if_neg hc, Stateful.run_bind, run_writeFile]
    cases o.writeSrc.isSome with
    | false => rfl
    | true =>
      simp only [if_true, Stateful.run_bind, run_writeFile]
      cases o.writeStdin.isSome with
      | false => rfl
      | true => exact afterWrite_pending T hx log sub name _

end

open LogServer Job

theorem Job.alone_withLog (T : Toolchain) {j : Job} (hx : j.outcomes.execRun) (log : Str) (fs : Fs) :
    (j.withLog log).alone T fs = j.alone T fs :=
  congrArg Prod.fst (start_pending T hx log j.sub j.name fs)

theorem begins_withLog {jobs : List Job} (hj : ∀ j ∈ jobs, j.Begins) (log : Str) :
    ∀ j ∈ jobs.map (withLog log), j.Begins := by
  intro k hk
  obtain ⟨j, hjk, rfl⟩ := List.mem_map.mp hk
  obtain ⟨hpc, hcode, hname⟩ := hj j hjk
  exact ⟨hpc, hcode, hname⟩

/-- Calls of `Start` with code and different base names have different files. In a
run in which no `execl` of a program fails they answer what they answer alone,
whatever the log buffer holds then, and they end. -/
theorem start_isolated {T : Toolchain} (hT : T.Confined) (fs : Fs) (log : Str) {jobs : List Job}
    (hj : ∀ j ∈ jobs, j.Begins) (hn : (jobs.map name).Nodup) :
    (∀ (t u : Nat) (j k : Job), t ≠ u → jobs[t]? = some j → jobs[u]? = some k →
      (tempFiles j.name).Disjoint (tempFiles k.name)) ∧
    ∀ es s, Run (LogServer.step T) Execs ⟨fs, log, jobs⟩ es s →
      (∀ (t : Nat) (j j' : Job) (outJson : Str), jobs[t]? = some j → s.jobs[t]? = some j' →
        j'.pc = .done outJson → ∀ log', outJson = (j.withLog log').alone T fs) ∧
      es.countP LogEvent.isWork ≤ 24 * jobs.length ∧
      ((∀ t times, s.step T (.work t times) = none) → ∀ (t : Nat) (j : Job), jobs[t]? = some j →
        ∃ j' outJson, s.jobs[t]? = some j' ∧ j'.pc = .done outJson) := by
  have hstarted : Started ⟨fs, log, jobs⟩ := fun j hmem e => by
    rw [(hj j hmem).pc] at e
    cases e
  refine ⟨fun t u j k => files_disjoint hj hn, fun es s h => ?_⟩
  have hn' (log' : Str) : ((jobs.map (withLog log')).map name).Nodup := by
    rw [List.map_map]
    exact hn
  have answer {t : Nat} {j : Job} (ht : jobs[t]? = some j) (log' : Str) : ∃ j', s.jobs[t]? = some j' ∧
      ∀ outJson : Str, j'.pc = .done outJson → outJson = (j.withLog log').alone T fs := by
    obtain ⟨ts, hr⟩ := run_jobsWith hstarted h log'
    have ht' : (jobs.map (withLog log'))[t]? = some (j.withLog log') := by
      rw [List.getElem?_map, ht, Option.map_some]
    obtain ⟨k, hk, hout⟩ := exists_job (begins_withLog hj log') (hn' log') hT hr ht'
    rw [List.getElem?_map, Option.map_eq_some_iff] at hk
    obtain ⟨j', hj', rfl⟩ := hk
    exact ⟨j', hj', hout⟩
  refine ⟨fun t j j' outJson ht ht' hd log' => ?_, ?_, fun hstuck t j ht => ?_⟩
  · obtain ⟨k, hk, hout⟩ := answer ht log'
    obtain rfl : k = j' := Option.some.inj (hk.symm.trans ht')
    exact hout outJson hd
  · have hle := work_le h
    have hleft : (jobs.map fun j => j.pc.left) = jobs.map fun _ => 24 :=
      List.map_congr_left fun j hmem => by rw [(hj j hmem).pc]; rfl
    rw [hleft, List.map_const', List.sum_replicate, smul_eq_mul, Nat.mul_comm] at hle
    omega
  · obtain ⟨j', hj', -⟩ := answer ht []
    obtain ⟨outJson, hd⟩ := done_of_stuck hj' (hstuck t)
    exact ⟨j', outJson, hj', hd⟩

/-- Events in which only calls take steps, at one time. -/
def worksAt (time : Str) (ts : List Nat) : List LogEvent := ts.map (.work · fun _ => time)

/-- The two calls in turn, from an empty `./temp/`. -/
theorem start_isolated_two : ∃ s, Run (LogServer.step demo) Execs ⟨fun _ => none, [], [echoJob, crashJob]⟩
      (worksAt "1700000000".toList ((List.replicate 22 [0, 1]).flatten ++ [0, 0])) s ∧
    s.jobs.map pc = [.done echoAnswer, .done crashAnswer] ∧
    echoJob.alone demo (fun _ => none) = echoAnswer ∧
    crashJob.alone demo (fun _ => none) = crashAnswer := by
  have hj : ∀ j ∈ [echoJob, crashJob], j.Begins := by
    simp only [List.mem_cons, List.not_mem_nil, or_false, forall_eq_or_imp, forall_eq]
    exact ⟨echoJob_begins, crashJob_begins⟩
  obtain ⟨-, h⟩ := start_isolated demo_confined (fun _ => none) [] hj (by decide)
  have hreplay : (replay (LogServer.step demo) Execs ⟨fun _ => none, [], [echoJob, crashJob]⟩
      (worksAt "1700000000".toList ((List.replicate 22 [0, 1]).flatten ++ [0, 0]))).map
        (fun s => s.jobs.map pc) = some [.done echoAnswer, .done crashAnswer] := by decide +kernel
  obtain ⟨s, hs, hpc⟩ := Option.map_eq_some_iff.mp hreplay
  obtain ⟨fs', log', jobs'⟩ := s
  have hr := Run.of_replay hs
  obtain ⟨hout, -⟩ := h _ _ hr
  obtain ⟨j, jobs', rfl, h₁, h⟩ := List.map_eq_cons_iff.mp hpc
  obtain ⟨k, jobs', rfl, h₂, -⟩ := List.map_eq_cons_iff.mp h
  exact ⟨_, hr, hpc, (hout 0 _ _ _ rfl rfl h₁ []).symm, (hout 1 _ _ _ rfl rfl h₂ []).symm⟩

/-- A call whose program cannot be executed. -/
def noExecJob : Job := { echoJob with outcomes := { echoJob.outcomes with execRun := false } }

/-- What is logged when `g++` has compiled the code of a call. -/
def compiledLine (j : Job) : Str :=
  logText "INFO" "compiler.hpp" 64 "1700000000".toList (src j.name ++ "编译成功\n".toList)

/-- The answer with this standard output. -/
def outputAnswer (output : Str) : Str :=
  styled (outValue 0 "编译运行成功".toList (some (output, [])))

/-- The other call's line of the log is in the answer. -/
theorem not_isolated :
    (∃ s, Run (LogServer.step demo) Free ⟨fun _ => none, [], [noExecJob, crashJob]⟩
      (worksAt "1700000000".toList (List.replicate 8 1 ++ List.replicate 24 0)) s ∧
      s.jobs[0]?.map pc = some (.done (outputAnswer (compiledLine crashJob ++ compiledLine noExecJob)))) ∧
    (∃ s, Run (LogServer.step demo) Free ⟨fun _ => none, [], [noExecJob]⟩
      (worksAt "1700000000".toList (List.replicate 24 0)) s ∧
      s.jobs[0]?.map pc = some (.done (outputAnswer (compiledLine noExecJob)))) ∧
    outputAnswer (compiledLine crashJob ++ compiledLine noExecJob) ≠ outputAnswer (compiledLine noExecJob) := by
  have h₁ : (replay (LogServer.step demo) Free ⟨fun _ => none, [], [noExecJob, crashJob]⟩
      (worksAt "1700000000".toList (List.replicate 8 1 ++ List.replicate 24 0))).map (fun s => s.jobs[0]?.map pc) =
        some (some (.done (outputAnswer (compiledLine crashJob ++ compiledLine noExecJob)))) := by decide +kernel
  have h₂ : (replay (LogServer.step demo) Free ⟨fun _ => none, [], [noExecJob]⟩
      (worksAt "1700000000".toList (List.replicate 24 0))).map (fun s => s.jobs[0]?.map pc) =
        some (some (.done (outputAnswer (compiledLine noExecJob)))) := by decide +kernel
  obtain ⟨s₁, hs₁, e₁⟩ := Option.map_eq_some_iff.mp h₁
  obtain ⟨s₂, hs₂, e₂⟩ := Option.map_eq_some_iff.mp h₂
  exact ⟨⟨s₁, .of_replay hs₁, e₁⟩, ⟨s₂, .of_replay hs₂, e₂⟩, by decide +kernel⟩

end OJ.CompileServer
