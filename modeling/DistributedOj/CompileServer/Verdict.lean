import DistributedOj.CompileServer.Cleanup
import DistributedOj.Comm.Lines

/-!
# What `Start` is for

A submission is compiled, and if `g++` accepts it, the program is run on the
input: it ends or is killed (`Verdict`). Where every step of a call succeeds, it
leaves no other files and none of its own is there before, the answer of `Start` is
that of the verdict (`start_verdict`), whatever the base name and the other files
are.
-/

namespace OJ.CompileServer

open OJ.Comm OJ.Framework PathUtil

/-- What becomes of a submission. -/
inductive Verdict where
  | rejected (diagnostics : Str)
  | ended (stdout stderr : Str)
  | killed (signal : Nat)
  deriving DecidableEq

/-- The verdict on a submission. -/
def verdict (T : Toolchain) (sub : Submission) : Verdict :=
  match T.gxx (some sub.code) with
  | (none, diagnostics) => .rejected diagnostics
  | (some text, _) =>
    let ran := T.program text sub.input sub.cpuLimit sub.memLimit
    if wTermSig ran.status = 0 then .ended ran.stdout ran.stderr else .killed (wTermSig ran.status)

/-- What a user is told of a signal. -/
def signalText (signal : Nat) : Str :=
  if signal = 6 then "内存超过范围".toList
  else if signal = 24 then "CPU使用超时".toList
  else if signal = 8 then "浮点数溢出".toList
  else if signal = 11 then "段错误".toList
  else "未知错误".toList ++ toStringI signal

/-- The answer to a submission: what was printed has a newline at its end. -/
def Verdict.outValue : Verdict → Json
  | rejected diagnostics => CompileServer.outValue (-3) (readBack true diagnostics) none
  | ended stdout stderr =>
    CompileServer.outValue 0 "编译运行成功".toList (some (readBack true stdout, readBack true stderr))
  | killed signal => CompileServer.outValue signal (signalText signal) none

/-- Every step of a call succeeds. -/
structure Outcomes.Works (o : Outcomes) (sub : Submission) : Prop where
  writeSrc : whole o.writeSrc sub.code
  writeStdin : whole o.writeStdin sub.input
  gxxRuns : o.gxxRuns
  runForks : o.runForks
  execRun : o.execRun
  reads : o.readDesc ∧ o.readOut ∧ o.readErr

/-- None of the files of a base name is there. -/
def Absent (fs : Fs) (name : Str) : Prop := ∀ p ∈ tempFiles name, fs p = none

theorem whole_iff {stored : Option Nat} {text : Str} (h : whole stored text) :
    stored ≠ none ∧ stored.elim [] (text.take ·) = text ∧ stored.map (text.take ·) = some text := by
  cases stored with
  | none => cases h
  | some n =>
    have hn : text.length ≤ n := by simpa [whole] using h
    have ht : text.take n = text := List.take_of_length_le hn
    exact ⟨Option.some_ne_none n, ht, congrArg some ht⟩

section
variable {T : Toolchain} {o : Outcomes} {sub : Submission} {name : Str} {fs : Fs}

theorem Outcomes.Works.made (h : o.Works sub) : CompileServer.made T o sub = (T.gxx (some sub.code)).1 := by
  rw [CompileServer.made, (whole_iff h.writeSrc).2.2]

theorem Outcomes.Works.executable (h : o.Works sub) (hfs : fs (exe name) = none) :
    CompileServer.executable T o sub name fs = (T.gxx (some sub.code)).1 := by
  rw [CompileServer.executable, if_pos (gxxRuns_forks h.gxxRuns), if_pos h.gxxRuns, h.made, hfs, ite_self,
    Option.or_none]

/-- The status code where every step succeeds. -/
theorem Outcomes.Works.status (h : o.Works sub) (hc : sub.code ≠ []) (hfs : fs (exe name) = none) :
    CompileServer.status T o sub name fs = match (T.gxx (some sub.code)).1 with
      | none => -3
      | some text => (wTermSig (T.program text sub.input sub.cpuLimit sub.memLimit).status : Int) := by
  have hw := (whole_iff h.writeSrc).1
  obtain ⟨hi, hin, -⟩ := whole_iff h.writeStdin
  have hx := @Outcomes.Works.executable T o sub name fs h hfs
  have hcourse := course T o sub name fs
  generalize CompileServer.notes T o sub name fs = notes at hcourse
  generalize CompileServer.status T o sub name fs = s at hcourse ⊢
  cases hcourse with
  | empty h0 => exact absurd h0 hc
  | noSrc _ h0 => exact absurd h0 hw
  | noStdin _ _ h0 => exact absurd h0 hi
  | notCompiled desc _ _ _ h0 =>
    rw [h0] at hx
    rw [← hx]
  | internal text _ _ _ _ h0 => rw [h.runForks] at h0; cases h0
  | finished text _ _ _ h0 _ hs =>
    rw [h0] at hx
    rw [← hx, hs, if_pos h.execRun, programStatus, programRan, hin]

theorem codeToDesc_signal (o : Outcomes) (name : Str) {signal : Nat} (h : signal ≠ 0) (fs : Fs) :
    ((codeToDesc o name signal).run fs).1 = signalText signal := by
  unfold codeToDesc signalText
  split
  case h_1 e => exact absurd (Int.natCast_eq_zero.mp e) h
  case h_2 e => omega
  case h_3 e => omega
  case h_4 e => omega
  case h_5 e => rw [if_pos (by omega)]; rfl
  case h_6 e => rw [if_neg (by omega), if_pos (by omega)]; rfl
  case h_7 e => rw [if_neg (by omega), if_neg (by omega), if_pos (by omega)]; rfl
  case h_8 e => rw [if_neg (by omega), if_neg (by omega), if_neg (by omega), if_pos (by omega)]; rfl
  case h_9 h₆ h₂₄ h₈ h₁₁ =>
    rw [if_neg fun e => h₆ (by rw [e]; rfl), if_neg fun e => h₂₄ (by rw [e]; rfl),
      if_neg fun e => h₈ (by rw [e]; rfl), if_neg fun e => h₁₁ (by rw [e]; rfl)]
    rfl

theorem readFile_of_some {path text : Str} {fs : Fs} (h : fs path = some text) :
    ((FileUtil.readFile true path true).run fs).1.2 = readBack true text := by
  rw [← FileUtil.readFileTo_eq true path [] true, readFileTo_of_some h, if_pos rfl]

/-- Where every step succeeds, programs are confined and none of the files is
there, the answer is that of the verdict. -/
theorem start_verdict (hT : T.Confined) (hc : sub.code ≠ []) (h : o.Works sub) (hfs : Absent fs name) :
    ((start T o sub name).run fs).1 = T.write (verdict T sub).outValue := by
  have hw := (whole_iff h.writeSrc).1
  obtain ⟨hi, hin, -⟩ := whole_iff h.writeStdin
  have hstatus := h.status (T := T) hc (hfs _ (exe_mem name))
  have hm := h.made (T := T)
  obtain ⟨hd, ho, he⟩ := h.reads
  have hstart : ((start T o sub name).run fs).1 =
      answerFrom T o name (CompileServer.status T o sub name fs) (atEnd T o sub name fs) := by
    rw [start_eq, Stateful.run_bind, finish_run, Submission.fileName, if_neg hc]
    rfl
  rw [hstart, hstatus, verdict]
  rcases hg : T.gxx (some sub.code) with ⟨_ | text, diagnostics⟩
  · rw [hg] at hm
    have hfile := atEnd_diagnostics T o sub name fs hc hw hi h.gxxRuns hm (hfs _ (exe_mem name))
      (hfs _ (compilerError_mem name))
    rw [(whole_iff h.writeSrc).2.2, hg] at hfile
    have hdesc : ((codeToDesc o name (-3)).run (atEnd T o sub name fs)).1 = readBack true diagnostics := by
      show ((FileUtil.readFile o.readDesc (compilerError name) true).run _).1.2 = _
      rw [hd, readFile_of_some hfile]
    dsimp only
    rw [answerFrom, hdesc, if_neg (by decide)]
    rfl
  · rw [hg] at hm
    obtain ⟨hout, herr⟩ := atEnd_output T o sub name fs hT hc hw hi h.gxxRuns hm h.runForks h.execRun
      (hfs _ (stdout_mem name)) (hfs _ (stderr_mem name))
    rw [hin] at hout herr
    dsimp only
    by_cases hs : wTermSig (T.program text sub.input sub.cpuLimit sub.memLimit).status = 0
    · rw [if_pos hs, hs, answerFrom, ho, he]
      show T.write (outValue 0 _ (some _)) = _
      rw [readFile_of_some hout, readFile_of_some herr]
      rfl
    · rw [if_neg hs, answerFrom, if_neg (by omega), codeToDesc_signal o name hs]
      rfl

end

end OJ.CompileServer
