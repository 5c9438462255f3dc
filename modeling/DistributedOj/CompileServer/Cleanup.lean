import DistributedOj.CompileServer.Course
import DistributedOj.CompileServer.Isolation

/-!
# What a call of `Start` leaves behind

`Start` on the text of a request (`startRequest`): it reads the submission,
which may throw, and then `start`. However it goes, the six files of the base
name are gone afterwards and no other is touched (`start_files`), and what the
answer takes from the files is what they hold at the label `END`.
-/

namespace OJ.CompileServer

open OJ.Comm OJ.Framework PathUtil

/-- What `Start` reads from a request. -/
def readSubmission (J : JsonReader) (inJson : Str) : Except JsonException Submission := do
  let (_, in_value) ← J.parse inJson
  let code ← J.asString (← J.index in_value "code".toList)
  let input ← J.asString (← J.index in_value "input".toList)
  let cpuLimit ← J.asInt (← J.index in_value "cpu_limit".toList)
  let memLimit ← J.asInt (← J.index in_value "mem_limit".toList)
  return ⟨code, input, cpuLimit, memLimit⟩

/-- `Start`: the exception that leaves it, or the answer. -/
def startRequest (J : JsonReader) (T : Toolchain) (o : Outcomes) (inJson name : Str) :
    StateM Fs (Except JsonException Str) :=
  match readSubmission J inJson with
  | .error e => return .error e
  | .ok sub => return .ok (← start T o sub name)

section
variable (T : Toolchain) (o : Outcomes) (sub : Submission) (name : Str) (fs : Fs)

/-- The files at the label `END`. -/
def atEnd : Fs := ((statusCode T o sub name).run fs).2

/-! ## The cleanup -/

theorem removeFile_run (path : Str) : (removeFile path).run fs = (⟨⟩, Function.update fs path none) := by
  simp only [removeFile, Stateful.run_bind, run_isFileExits]
  by_cases h : (fs path).isSome
  · rw [if_pos h]
    rfl
  · rw [if_neg h, Stateful.run_pure]
    rw [Bool.not_eq_true, Option.isSome_eq_false_iff, Option.isNone_iff_eq_none] at h
    rw [← h, Function.update_eq_self]

theorem forM_removeFile (l : List Str) :
    ((l.forM removeFile).run fs).2 = fun p => if p ∈ l then none else fs p := by
  induction l generalizing fs with
  | nil => rfl
  | cons path l ih =>
    rw [show (path :: l).forM removeFile = removeFile path >>= fun _ => l.forM removeFile from rfl,
      Stateful.run_bind, removeFile_run, ih]
    funext p
    by_cases hp : p = path
    · simp [hp]
    · simp [hp]

theorem removeTempFile_run :
    ((removeTempFile name).run fs).2 = fun p => if p ∈ tempFiles name then none else fs p :=
  forM_removeFile _ _

/-! ## Which files a call touches -/

theorem within_compile {F : Set Str} (hs : src name ∈ F) (he : exe name ∈ F)
    (hc : compilerError name ∈ F) : Within F (compile T o name) := by
  refine .ite (.bind ?_ fun _ => within_isFileExits he) (.pure _)
  refine .bind (within_openCreat hc _) fun _ => .ite (.ite (.bind (.readAt hs) fun source => ?_)
    (.pure _)) (.pure _)
  exact within_gxxWrites name he hc _ _ _

variable {T}

theorem within_run (hT : T.Confined) (cpuLimit memLimit : Int) :
    Within (files name) (run T o name cpuLimit memLimit) := by
  refine .bind (within_openCreat (stdin_mem _) _) fun _ => .bind (within_openCreat (stdout_mem _) _)
    fun _ => .bind (within_openCreat (stderr_mem _) _) fun _ => .ite (.ite ?_ (.pure _)) (.pure _)
  refine .bind_run (within_execute ..) fun fs => .bind (within_childWrites _ _ fun r hr => ?_) fun _ => .pure _
  obtain ⟨text, input, rfl⟩ := of_execute name hr
  exact hT ..

theorem within_statusCode (hT : T.Confined) : Within (files (sub.fileName name)) (statusCode T o sub name) := by
  unfold statusCode Submission.fileName
  split
  · exact .pure _
  · refine .bind (within_writeFile (src_mem _) _ _) fun _ => .ite ?_ (.pure _)
    refine .bind (within_writeFile (stdin_mem _) _ _) fun _ => .ite ?_ (.pure _)
    refine .bind (within_compile T o name (src_mem _) (exe_mem _) (compilerError_mem _)) fun _ =>
      .ite ?_ (.pure _)
    exact .bind (within_run _ _ hT ..) fun _ => .pure _

/-- After `Start` the files of the base name are gone, and the others as they
were at the label `END`. -/
theorem start_files_eq : ((start T o sub name).run fs).2 =
    fun p => if p ∈ tempFiles (sub.fileName name) then none else atEnd T o sub name fs p := by
  rw [start_eq, Stateful.run_bind, finish_run, removeTempFile_run]
  rfl

/-- After `Start` the files of the base name are gone, and the others as they
were, if programs are confined. -/
theorem start_files (hT : T.Confined) : ((start T o sub name).run fs).2 =
    fun p => if p ∈ tempFiles (sub.fileName name) then none else fs p := by
  rw [start_files_eq]
  funext p
  by_cases hp : p ∈ tempFiles (sub.fileName name)
  · rw [if_pos hp, if_pos hp]
  · rw [if_neg hp, if_neg hp]
    exact (within_statusCode o sub name hT).frame fs hp

variable (T)

/-! ## What the files hold at the label `END` -/

theorem overwrite_created {path : Str} (h : fs path = some []) (text : Str) :
    ((overwrite path text).run fs).2 = Function.update fs path (some text) := by
  rw [run_overwrite, h]
  simp

theorem gxxWrites_diagnostics (exe : Option Str) (unlinks : Bool) (text : Str)
    (h : fs (compilerError name) = some []) :
    ((gxxWrites name exe unlinks text).run fs).2 (compilerError name) = some text := by
  cases exe with
  | some program =>
    rw [gxxWrites, Stateful.run_bind, run_writeAt, overwrite_created, Function.update_self]
    simp [h]
  | none =>
    cases unlinks with
    | true =>
      simp only [gxxWrites, if_true, unlink, Stateful.run_bind, run_writeAt]
      rw [overwrite_created, Function.update_self]
      simp [h]
    | false =>
      simp only [gxxWrites, Bool.false_eq_true, if_false]
      rw [overwrite_created _ h, Function.update_self]

/-- What `g++` has printed is there after `Compile`. -/
theorem compile_diagnostics (h : fs (compilerError name) = none) (hg : o.gxxRuns) :
    ((compile T o name).run fs).2 (compilerError name) = some (T.gxx (fs (src name))).2 := by
  simp only [Outcomes.gxxRuns, Bool.and_eq_true] at hg
  obtain ⟨⟨hf, ho⟩, hx⟩ := hg
  simp only [compile, gxxChild, execGxx, hf, ho, hx, if_true, Stateful.run_bind, run_openCreat,
    run_readAt, run_isFileExits, Function.update_of_ne (src_ne name).2.1, h, Option.getD_none]
  exact gxxWrites_diagnostics _ _ _ _ _ (Function.update_self ..)

/-- What a program has printed is there after `Run`. -/
theorem run_output (hT : T.Confined) {text input : Str} (ht : fs (exe name) = some text)
    (hi : fs (stdin name) = some input) (ho : fs (stdout name) = none) (he : fs (stderr name) = none)
    (hr : o.runForks) (hx : o.execRun) (cpuLimit memLimit : Int) :
    let r := (run T o name cpuLimit memLimit).run fs
    r.2 (stdout name) = some (T.program text input cpuLimit memLimit).stdout ∧
      r.2 (stderr name) = some (T.program text input cpuLimit memLimit).stderr := by
  simp only [Outcomes.runForks, Bool.and_eq_true] at hr
  obtain ⟨⟨⟨hi', ho'⟩, he'⟩, hf⟩ := hr
  simp only [run, hi', ho', he', hf, Bool.and_self, if_true, Stateful.run_bind, run_openCreat]
  generalize hfs : Function.update _ (stderr name) _ = fs₁
  have ht₁ : fs₁ (exe name) = some text := by simp [← hfs, ht]
  have hi₁ : fs₁ (stdin name) = some input := by simp [← hfs, hi]
  have ho₁ : fs₁ (stdout name) = some [] := by simp [← hfs, ho]
  have he₁ : fs₁ (stderr name) = some [] := by simp [← hfs, he]
  simp only [execute, Stateful.run_bind, run_readAt, ht₁, hi₁, hx, if_true, Stateful.run_pure,
    Option.getD_some, childWrites, Ran.leave_of_files (hT ..)]
  rw [overwrite_created _ ho₁, overwrite_created]
  · simp
  · simp [he₁]

/-- `Start` once both files are written. -/
theorem statusCode_run {k n : Nat} (hc : sub.code ≠ []) (h₁ : o.writeSrc = some k)
    (h₂ : o.writeStdin = some n) : ∃ fs₁ : Fs,
    fs₁ (src name) = some (sub.code.take k) ∧ fs₁ (stdin name) = some (sub.input.take n) ∧
    (∀ p, p ≠ src name → p ≠ stdin name → fs₁ p = fs p) ∧
    (statusCode T o sub name).run fs = (do
      if ← compile T o name then
        return statusOfRun (← run T o name sub.cpuLimit sub.memLimit)
      else return -3 : StateM Fs Int).run fs₁ := by
  refine ⟨Function.update (Function.update fs (src name) (some (sub.code.take k))) (stdin name)
    (some (sub.input.take n)), by simp, by simp, fun p hp hq => by simp [hp, hq], ?_⟩
  simp only [statusCode, if_neg hc, h₁, h₂, Stateful.run_bind, run_writeFile, Option.isSome_some,
    if_true, Option.elim_some]

/-- What `g++` has printed about code that it rejects is there at the end. -/
theorem atEnd_diagnostics (hc : sub.code ≠ []) (hw : o.writeSrc ≠ none) (hi : o.writeStdin ≠ none)
    (hg : o.gxxRuns) (hm : made T o sub = none) (he : fs (exe name) = none)
    (hd : fs (compilerError name) = none) : atEnd T o sub name fs (compilerError name) =
      some (T.gxx (o.writeSrc.map (sub.code.take ·))).2 := by
  obtain ⟨k, h₁⟩ := Option.ne_none_iff_exists'.mp hw
  obtain ⟨n, h₂⟩ := Option.ne_none_iff_exists'.mp hi
  obtain ⟨fs₁, f₁, f₂, f₃, e⟩ := statusCode_run T o sub name fs hc h₁ h₂
  have hm' : (T.gxx (fs₁ (src name))).1 = made T o sub := by simp [made, h₁, f₁]
  obtain ⟨c₁, c₂, -, -⟩ := compile_run T o name fs₁ hm'
  have hr : ((compile T o name).run fs₁).1 = false := by
    rw [c₁, c₂, if_pos hg, hm, f₃ (exe name) (by simp) (by simp), he, ite_self]
    simp
  have := compile_diagnostics T o name fs₁ ((f₃ _ (by simp) (by simp)).trans hd) hg
  rw [atEnd, e, Stateful.run_bind, hr, h₁, Option.map_some, ← f₁, ← this]
  rfl

/-- What the program has printed is there at the end. -/
theorem atEnd_output (hT : T.Confined) {text : Str} (hc : sub.code ≠ []) (hw : o.writeSrc ≠ none)
    (hi : o.writeStdin ≠ none) (hg : o.gxxRuns) (hm : made T o sub = some text) (hr : o.runForks)
    (hx : o.execRun) (ho : fs (stdout name) = none) (he : fs (stderr name) = none) :
    let ran := T.program text (o.writeStdin.elim [] (sub.input.take ·)) sub.cpuLimit sub.memLimit
    atEnd T o sub name fs (stdout name) = some ran.stdout ∧
      atEnd T o sub name fs (stderr name) = some ran.stderr := by
  obtain ⟨k, h₁⟩ := Option.ne_none_iff_exists'.mp hw
  obtain ⟨n, h₂⟩ := Option.ne_none_iff_exists'.mp hi
  obtain ⟨fs₁, f₁, f₂, f₃, e⟩ := statusCode_run T o sub name fs hc h₁ h₂
  have hm' : (T.gxx (fs₁ (src name))).1 = made T o sub := by simp [made, h₁, f₁]
  obtain ⟨c₁, c₂, c₃, -⟩ := compile_run T o name fs₁ hm'
  rw [if_pos hg, hm, Option.some_or] at c₂
  have hb : ((compile T o name).run fs₁).1 = true := by rw [c₁, c₂, gxxRuns_forks hg]; rfl
  have hframe := (within_compile T o name (F := {src name, exe name, compilerError name}) (by simp)
    (by simp) (by simp)).frame fs₁
  have g₁ : ((compile T o name).run fs₁).2 (stdout name) = none := by
    rw [hframe (by simp), f₃ _ (by simp) (by simp), ho]
  have g₂ : ((compile T o name).run fs₁).2 (stderr name) = none := by
    rw [hframe (by simp), f₃ _ (by simp) (by simp), he]
  have := run_output T o name _ hT c₂ (c₃.trans f₂) g₁ g₂ hr hx sub.cpuLimit sub.memLimit
  rw [atEnd, e, Stateful.run_bind, hb, h₂]
  exact this

end

/-- The answer with the status `s`, from the files `fs₁`. -/
def answerFrom (T : Toolchain) (o : Outcomes) (f : Str) (s : Int) (fs₁ : Fs) : Str :=
  T.write (outValue s ((codeToDesc o f s).run fs₁).1 (if s = 0 then
    some (((FileUtil.readFile o.readOut (stdout f) true).run fs₁).1.2,
      ((FileUtil.readFile o.readErr (stderr f) true).run fs₁).1.2) else none))

/-- However a call of `Start` goes, the temp directory is afterwards as it was,
if none of the files of its base name was there and programs write to no file but
their output; no other file is touched in any case. The answer is put together from
what the files hold at the label `END`, before they are removed: what `g++` has
printed, if it rejects the code, and what the program has. -/
theorem start_restores (J : JsonReader) {T : Toolchain} (hT : T.Confined) (o : Outcomes) (inJson name : Str)
    (fs : Fs) :
    let r := (startRequest J T o inJson name).run fs
    (∀ e, readSubmission J inJson = .error e → r = (.error e, fs)) ∧
    ∀ sub, readSubmission J inJson = .ok sub →
      let f := sub.fileName name
      let fs₁ := atEnd T o sub name fs
      (∀ p ∉ tempFiles f, r.2 p = fs p) ∧
      ((∀ p ∈ tempFiles f, fs p = none) → r.2 = fs) ∧
      r.1 = .ok (answerFrom T o f (status T o sub name fs) fs₁) ∧
      ((∀ p ∈ tempFiles f, fs p = none) → sub.code ≠ [] → o.writeSrc ≠ none → o.writeStdin ≠ none →
        o.gxxRuns →
        (made T o sub = none →
          fs₁ (compilerError f) = some (T.gxx (o.writeSrc.map (sub.code.take ·))).2) ∧
        ∀ text, made T o sub = some text → o.runForks → o.execRun →
          let ran := T.program text (o.writeStdin.elim [] (sub.input.take ·)) sub.cpuLimit sub.memLimit
          fs₁ (stdout f) = some ran.stdout ∧ fs₁ (stderr f) = some ran.stderr) := by
  refine ⟨fun e he => ?_, fun sub hsub => ?_⟩
  · rw [startRequest, he]
    rfl
  · have hr : (startRequest J T o inJson name).run fs = (.ok ((start T o sub name).run fs).1,
        ((start T o sub name).run fs).2) := by
      rw [startRequest, hsub]
      rfl
    refine ⟨fun p hp => ?_, fun hnone => ?_, ?_, fun hnone hc hw hi hg => ?_⟩
    · rw [hr, start_files _ _ _ _ hT]
      exact if_neg hp
    · rw [hr, start_files _ _ _ _ hT]
      funext p
      by_cases hp : p ∈ tempFiles (sub.fileName name)
      · exact (if_pos hp).trans (hnone p hp).symm
      · exact if_neg hp
    · rw [hr, start_eq, Stateful.run_bind, finish_run]
      rfl
    · have hf : sub.fileName name = name := if_neg hc
      rw [hf] at hnone ⊢
      exact ⟨fun hm => atEnd_diagnostics T o sub name fs hc hw hi hg hm (hnone _ (exe_mem _))
          (hnone _ (compilerError_mem _)),
        fun text hm hr hx => atEnd_output T o sub name fs hT hc hw hi hg hm hr hx
          (hnone _ (stdout_mem _)) (hnone _ (stderr_mem _))⟩

/-! ## Two requests -/

/-- The request of a submission. -/
def requestValue (sub : Submission) : Json :=
  .obj [("code".toList, .str sub.code), ("cpu_limit".toList, .int sub.cpuLimit),
    ("input".toList, .str sub.input), ("mem_limit".toList, .int sub.memLimit)]

/-- The text of a request with an input and limits in digits. -/
def requestText (sub : Submission) : Str :=
  "\x7b\"code\":".toList ++ quoted sub.code ++ ",\"input\":".toList ++ quoted sub.input ++
    ",\"cpu_limit\":".toList ++ toStringI sub.cpuLimit ++ ",\"mem_limit\":".toList ++
    toStringI sub.memLimit ++ "\x7d".toList

def requestReader (sub : Submission) : JsonReader :=
  .documented (fun s => if s = requestText sub then .ok (true, requestValue sub) else .ok (false, .null))
    fun _ => []

theorem parse_request (sub : Submission) :
    (requestReader sub).parse (requestText sub) = .ok (true, requestValue sub) := by
  simp only [requestReader, JsonReader.documented, if_true]

theorem start_restores_echo :
    ((startRequest (requestReader echoJob.sub) demo echoJob.outcomes (requestText echoJob.sub)
      echoJob.name).run fun _ => none).2 = fun _ => none := by
  have hread : readSubmission (requestReader echoJob.sub) (requestText echoJob.sub) = .ok echoJob.sub := by
    rw [readSubmission, parse_request]
    rfl
  exact ((start_restores _ demo_confined echoJob.outcomes _ echoJob.name fun _ => none).2 _ hread).2.1
    fun _ _ => rfl

/-- A program that makes a file in `./temp/`. -/
def leaver : Submission :=
  ⟨"#include<fstream>\nint main()\x7bstd::ofstream(\"./temp/left\");\x7d".toList, [], 1, 20000⟩

def leaverTools : Toolchain where
  gxx source := if source = some leaver.code then (some "\x7fELF leaver".toList, []) else (none, "error".toList)
  unlinks _ := false
  program _ _ _ _ := ⟨[], [], 0, [("./temp/left".toList, some [])]⟩
  write := styled

theorem not_restores :
    ((startRequest (requestReader leaver) leaverTools echoJob.outcomes (requestText leaver)
      echoJob.name).run fun _ => none).2 "./temp/left".toList = some [] := by
  have hread : readSubmission (requestReader leaver) (requestText leaver) = .ok leaver := by
    rw [readSubmission, parse_request]
    rfl
  have hr : (startRequest (requestReader leaver) leaverTools echoJob.outcomes (requestText leaver)
      echoJob.name).run (fun _ => none) =
      (.ok ((start leaverTools echoJob.outcomes leaver echoJob.name).run fun _ => none).1,
        ((start leaverTools echoJob.outcomes leaver echoJob.name).run fun _ => none).2) := by
    rw [startRequest, hread]
    rfl
  rw [hr]
  decide +kernel

end OJ.CompileServer
