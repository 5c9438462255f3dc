import DistributedOj.CompileServer.Course
import DistributedOj.CompileServer.Isolation

/-!
# What a status code says

The status that `Start` reports says what happened (`Classified`) if `Start` is
left with -2 where it checks a step itself, or if every step succeeds, and only
then (`classified_iff`): a step that fails in a child, or a short write, is
reported as something else (`not_classified`).
-/

namespace OJ.CompileServer

open OJ.Comm OJ.Framework Logged PathUtil

/-- The submitted program, as `g++` has made it, has run and ended with `status`. -/
def Ended (notes : List Note) (status : Nat) : Prop :=
  ∃ text, .gxx (some text) ∈ notes ∧ .ran text status ∈ notes

/-- A status code says what happened. -/
structure Classified (code : Str) (notes : List Note) (status : Int) : Prop where
  empty : status = -1 ↔ code = []
  failed : status = -2 ↔ .step false ∈ notes
  rejected : status = -3 ↔ .gxx none ∈ notes
  killed : ∀ s > 0, status = s ↔ ∃ st, Ended notes st ∧ WIfSignaled st ∧ wTermSig st = s
  exited : status = 0 ↔ ∃ st, Ended notes st ∧ WIfExited st

section
variable (T : Toolchain) (o : Outcomes) (sub : Submission) (name : Str) (fs : Fs)

/-- `Start` is left with -2 where it checks a step itself: a file cannot be
opened for writing, or `Run` on an executable that `g++` has not rejected the
code for cannot open its files or fork. -/
def FailsInside : Prop :=
  o.writeSrc = none ∨ o.writeStdin = none ∨
    (executable T o sub name fs).isSome ∧ o.runForks = false ∧ ¬ (o.gxxRuns ∧ made T o sub = none)

/-- Every step that is reached succeeds, and there is no executable left from
before if `g++` rejects the code. -/
def Smooth : Prop :=
  whole o.writeSrc sub.code ∧ whole o.writeStdin sub.input ∧ o.gxxRuns ∧
    match made T o sub with
    | none => (clears T o sub ∨ fs (exe name) = none) ∧ o.readDesc
    | some text => o.runForks ∧ o.execRun ∧
      (WIfExited (programStatus T o sub text) → outRead T o sub name text ∧ errRead T o sub name text)

variable {T o sub name fs}

theorem failed_written : .step false ∈ written o sub ↔
    ¬ (whole o.writeSrc sub.code ∧ whole o.writeStdin sub.input) := by
  unfold written
  cases whole o.writeSrc sub.code <;> cases whole o.writeStdin sub.input <;> simp

theorem gxx_notMem_written (e : Option Str) : .gxx e ∉ written o sub := by simp [written]

theorem ran_notMem_written (text : Str) (st : Nat) : .ran text st ∉ written o sub := by
  simp [written]

theorem executable_of_made {text : Str} (h : o.gxxRuns) (hm : made T o sub = some text) :
    executable T o sub name fs = some text := by
  rw [executable, if_pos (gxxRuns_forks h), if_pos h, hm]
  rfl

theorem executable_of_rejected (h : o.gxxRuns) (hm : made T o sub = none) :
    executable T o sub name fs = none ↔ clears T o sub ∨ fs (exe name) = none := by
  rw [executable, if_pos (gxxRuns_forks h), if_pos h, hm, Option.none_or]
  by_cases hc : clears T o sub
  · simp [hc]
  · simp [hc]

theorem Smooth.of_made {text : Str} (hm : made T o sub = some text)
    (h : whole o.writeSrc sub.code ∧ whole o.writeStdin sub.input ∧ o.gxxRuns ∧ o.runForks ∧ o.execRun ∧
      outRead T o sub name text ∧ errRead T o sub name text) : Smooth T o sub name fs := by
  obtain ⟨h₁, h₂, hg, hr, hx, hread⟩ := h
  refine ⟨h₁, h₂, hg, ?_⟩
  rw [hm]
  exact ⟨hr, hx, fun _ => hread⟩

/-- Where no program has ended, a negative status is about the rest. -/
theorem classified_of_unended {code : Str} {l : List Note} {s : Int} (hs : s < 0)
    (hl : ∀ st, ¬ Ended l st) (he : s = -1 ↔ code = []) (hf : s = -2 ↔ .step false ∈ l)
    (hr : s = -3 ↔ .gxx none ∈ l) : Classified code l s := by
  refine ⟨he, hf, hr, fun k hk => ⟨fun e => by omega, ?_⟩, ⟨fun e => by omega, ?_⟩⟩
  · rintro ⟨st, h, -⟩
    exact absurd h (hl st)
  · rintro ⟨st, h, -⟩
    exact absurd h (hl st)

theorem not_ended_of_ran {l : List Note} (h : ∀ text st, .ran text st ∉ l) (st : Nat) : ¬ Ended l st := by
  rintro ⟨text, -, hr⟩
  exact h text st hr

theorem classified_empty : Classified [] [] (-1) :=
  classified_of_unended (by decide) (not_ended_of_ran (by simp)) (by simp) (by simp) (by simp)

/-- A file that cannot be opened for writing. -/
theorem classified_unwritten {l : List Note} (hc : sub.code ≠ []) (hl : .step false ∈ l)
    (hs : ∀ n ∈ l, ∃ ok, n = .step ok) : Classified sub.code l (-2) := by
  have hg : .gxx none ∉ l := fun h => by
    obtain ⟨_, h⟩ := hs _ h
    cases h
  have hran (text : Str) (st : Nat) : .ran text st ∉ l := fun h => by
    obtain ⟨_, h⟩ := hs _ h
    cases h
  exact classified_of_unended (by decide) (not_ended_of_ran hran) (by simp [hc]) (by simp [hl])
    (by simp [hg])

theorem classified_notCompiled {desc : Bool} (hc : sub.code ≠ [])
    (hx : executable T o sub name fs = none) (hd : o.gxxRuns → desc = o.readDesc) :
    Classified sub.code (written o sub ++ compileNotes o (made T o sub) ++ [.step desc]) (-3) ↔
      Smooth T o sub name fs := by
  have hran (text : Str) (st : Nat) :
      .ran text st ∉ written o sub ++ compileNotes o (made T o sub) ++ [.step desc] := by
    simp [ran_notMem_written, ran_notMem_compileNotes]
  constructor
  · intro h
    have hok := mt h.failed.mpr (by decide)
    have hrej := h.rejected.mp rfl
    simp only [List.mem_append, failed_written, failed_compileNotes, List.mem_singleton, not_or,
      not_not, Bool.not_eq_false, Note.step.injEq] at hok
    simp only [List.mem_append, gxx_notMem_written, gxx_mem_compileNotes, List.mem_singleton,
      reduceCtorEq, false_or, or_false] at hrej
    obtain ⟨⟨⟨hw₁, hw₂⟩, hg⟩, hdesc⟩ := hok
    refine ⟨hw₁, hw₂, hg, ?_⟩
    rw [← hrej.2]
    exact ⟨(executable_of_rejected hg hrej.2.symm).mp hx, by simpa [← hd hg] using hdesc⟩
  · rintro ⟨hw₁, hw₂, hg, hm⟩
    cases hmade : made T o sub with
    | some text =>
      rw [executable_of_made hg hmade] at hx
      cases hx
    | none =>
      rw [hmade] at hm hran
      refine classified_of_unended (by decide) (not_ended_of_ran hran) (by simp [hc]) ?_ ?_
      · simp [failed_written, failed_compileNotes, hw₁, hw₂, hg, hd hg, hm.2]
      · simp [gxx_mem_compileNotes, hg]

theorem classified_internal {text : Str} (hc : sub.code ≠ []) (hrun : o.runForks = false) (st : Nat) :
    Classified sub.code
      (written o sub ++ compileNotes o (made T o sub) ++ runNotes o text st) (-2) ↔
      ¬ (o.gxxRuns ∧ made T o sub = none) := by
  have hran (t : Str) (st' : Nat) : .ran t st' ∉
      written o sub ++ compileNotes o (made T o sub) ++ runNotes o text st := by
    simp [ran_notMem_written, ran_notMem_compileNotes, ran_mem_runNotes, hrun]
  have hrej : .gxx none ∈ written o sub ++ compileNotes o (made T o sub) ++ runNotes o text st ↔
      o.gxxRuns ∧ made T o sub = none := by
    simp only [List.mem_append, gxx_notMem_written, gxx_mem_compileNotes, gxx_notMem_runNotes, false_or,
      or_false]
    rw [eq_comm (a := none)]
  constructor
  · intro h hg
    exact absurd (h.rejected.mpr (hrej.mpr hg)) (by decide)
  · intro hg
    refine classified_of_unended (by decide) (not_ended_of_ran hran) (by simp [hc]) ?_ ?_
    · simp [failed_runNotes, hrun]
    · rw [hrej]
      exact ⟨fun e => absurd e (by decide), fun h => absurd h hg⟩

/-- What is noted where `Run` has forked. -/
def finishedNotes (T : Toolchain) (o : Outcomes) (sub : Submission) (name text : Str) (s : Int) :
    List Note :=
  written o sub ++ compileNotes o (made T o sub) ++ runNotes o text (programStatus T o sub text) ++
    if s = 0 then [.step (outRead T o sub name text), .step (errRead T o sub name text)] else []

theorem failed_finishedNotes {text : Str} (hrun : o.runForks) (s : Int) :
    .step false ∉ finishedNotes T o sub name text s ↔
      (whole o.writeSrc sub.code ∧ whole o.writeStdin sub.input) ∧ o.gxxRuns ∧ o.execRun ∧
        (s = 0 → outRead T o sub name text ∧ errRead T o sub name text) := by
  simp only [finishedNotes, List.mem_append, failed_written, failed_compileNotes, failed_runNotes, hrun,
    Bool.true_and, not_or, not_not, Bool.not_eq_false, and_assoc]
  by_cases hs : s = 0
  · simp [hs]
  · simp [hs]

theorem gxx_mem_finishedNotes {text : Str} {s : Int} {e : Option Str} :
    .gxx e ∈ finishedNotes T o sub name text s ↔ o.gxxRuns ∧ e = made T o sub := by
  unfold finishedNotes
  by_cases hs : s = 0
  · simp [hs, gxx_notMem_written, gxx_mem_compileNotes, gxx_notMem_runNotes]
  · simp [hs, gxx_notMem_written, gxx_mem_compileNotes, gxx_notMem_runNotes]

theorem ran_mem_finishedNotes {text t : Str} {s : Int} {st : Nat} (hrun : o.runForks) :
    .ran t st ∈ finishedNotes T o sub name text s ↔
      o.execRun ∧ t = text ∧ st = programStatus T o sub text := by
  unfold finishedNotes
  by_cases hs : s = 0
  · simp [hs, ran_notMem_written, ran_notMem_compileNotes, ran_mem_runNotes, hrun]
  · simp [hs, ran_notMem_written, ran_notMem_compileNotes, ran_mem_runNotes, hrun]

theorem ended_finishedNotes {text : Str} {s : Int} (hg : o.gxxRuns) (hmade : made T o sub = some text)
    (hrun : o.runForks) (hexec : o.execRun) (st : Nat) :
    Ended (finishedNotes T o sub name text s) st ↔ st = programStatus T o sub text := by
  constructor
  · rintro ⟨t, -, hr⟩
    exact ((ran_mem_finishedNotes hrun).mp hr).2.2
  · rintro rfl
    exact ⟨text, gxx_mem_finishedNotes.mpr ⟨hg, hmade.symm⟩,
      (ran_mem_finishedNotes hrun).mpr ⟨hexec, rfl, rfl⟩⟩

theorem smooth_of_classified {text : Str} {s : Int} (hx : executable T o sub name fs = some text)
    (hrun : o.runForks)
    (hs : s = if o.execRun then (wTermSig (programStatus T o sub text) : Int) else 0)
    (h : Classified sub.code (finishedNotes T o sub name text s) s) : Smooth T o sub name fs := by
  have hs₀ : 0 ≤ s := by rw [hs]; split <;> omega
  have hok := mt h.failed.mpr (by omega)
  have hrej := mt h.rejected.mpr (by omega)
  rw [failed_finishedNotes hrun] at hok
  rw [gxx_mem_finishedNotes] at hrej
  obtain ⟨⟨hw₁, hw₂⟩, hg, hexec, hread⟩ := hok
  rw [hexec, if_pos rfl] at hs
  refine ⟨hw₁, hw₂, hg, ?_⟩
  cases hm : made T o sub with
  | none => exact absurd ⟨hg, hm.symm⟩ hrej
  | some t =>
    rw [executable_of_made hg hm] at hx
    cases hx
    exact ⟨hrun, hexec, fun he => hread (by rw [hs, he]; rfl)⟩

theorem classified_of_smooth {text : Str} {s : Int} (hc : sub.code ≠ [])
    (hx : executable T o sub name fs = some text) (hrun : o.runForks)
    (hT : WIfExited (programStatus T o sub text) ∨ WIfSignaled (programStatus T o sub text))
    (hs : s = if o.execRun then (wTermSig (programStatus T o sub text) : Int) else 0)
    (h : Smooth T o sub name fs) : Classified sub.code (finishedNotes T o sub name text s) s := by
  have hs₀ : 0 ≤ s := by rw [hs]; split <;> omega
  obtain ⟨hw₁, hw₂, hg, hm⟩ := h
  cases hmade : made T o sub with
  | none =>
    rw [hmade] at hm
    rw [(executable_of_rejected hg hmade).mpr hm.1] at hx
    cases hx
  | some t =>
    rw [hmade] at hm
    obtain rfl : t = text := Option.some.inj ((executable_of_made hg hmade).symm.trans hx)
    obtain ⟨-, hexec, hread⟩ := hm
    rw [hexec, if_pos rfl] at hs
    refine ⟨⟨fun e => by omega, fun e => absurd e hc⟩, ⟨fun e => by omega, ?_⟩,
      ⟨fun e => by omega, ?_⟩, fun k hk => ?_, ?_⟩
    · have : .step false ∉ finishedNotes T o sub name t s := (failed_finishedNotes hrun s).mpr
        ⟨⟨hw₁, hw₂⟩, hg, hexec, fun e => hread (by rw [hs] at e; exact_mod_cast e)⟩
      exact fun h => absurd h this
    · rw [gxx_mem_finishedNotes, hmade]
      rintro ⟨-, h⟩
      cases h
    · simp only [ended_finishedNotes hg hmade hrun hexec, exists_eq_left]
      constructor
      · rintro rfl
        refine ⟨hT.resolve_left fun he => ?_, hs.symm⟩
        rw [hs, he] at hk
        exact absurd hk (by decide)
      · rintro ⟨-, e⟩
        rw [hs, e]
    · simp only [ended_finishedNotes hg hmade hrun hexec, exists_eq_left]
      rw [hs]
      exact ⟨fun e => by exact_mod_cast e, fun e => by rw [e]; rfl⟩

end

/-- `waitpid`, without `WUNTRACED`, reports a process that has ended. -/
def Toolchain.Waited (T : Toolchain) : Prop := ∀ text input cpuLimit memLimit,
  WIfExited (T.program text input cpuLimit memLimit).status ∨
    WIfSignaled (T.program text input cpuLimit memLimit).status

/-- The status of `Start` says what happened if `Start` is left with -2 where
it checks a step itself, or every step succeeds, and only then. -/
theorem classified_iff {T : Toolchain} (hT : T.Waited) (o : Outcomes) (sub : Submission) (name : Str)
    (fs : Fs) :
    (∃ reason output, ((start T o sub name).run fs).1 =
      T.write (outValue (status T o sub name fs) reason output)) ∧
    (Classified sub.code (notes T o sub name fs) (status T o sub name fs) ↔
      sub.code = [] ∨ FailsInside T o sub name fs ∨ Smooth T o sub name fs) := by
  refine ⟨?_, ?_⟩
  · rw [start_eq, Stateful.run_bind, finish_run]
    exact ⟨_, _, rfl⟩
  · have h := course T o sub name fs
    generalize status T o sub name fs = s at h ⊢
    generalize notes T o sub name fs = l at h ⊢
    cases h with
    | empty hc =>
      rw [hc]
      exact iff_of_true classified_empty (.inl rfl)
    | noSrc hc h => exact iff_of_true (classified_unwritten hc (by simp) (by simp)) (.inr (.inl (.inl h)))
    | noStdin hc h₁ h₂ =>
      have hl : .step false ∈ written o sub := by simp [written, h₂, whole]
      exact iff_of_true (classified_unwritten hc hl (by simp [written])) (.inr (.inl (.inr (.inl h₂))))
    | notCompiled desc hc h₁ h₂ hx hd =>
      rw [classified_notCompiled hc hx hd]
      simp [hc, FailsInside, h₁, h₂, hx]
    | internal text hc h₁ h₂ hx hrun =>
      rw [classified_internal hc hrun]
      constructor
      · exact fun hg => .inr (.inl (.inr (.inr ⟨by rw [hx]; rfl, hrun, hg⟩)))
      · rintro (h | (h | h | h) | h) ⟨hg, hm⟩
        · exact hc h
        · exact h₁ h
        · exact h₂ h
        · exact h.2.2 ⟨hg, hm⟩
        · have hm' := h.2.2.2
          rw [hm] at hm'
          rw [(executable_of_rejected hg hm).mpr hm'.1] at hx
          cases hx
    | finished text hc h₁ h₂ hx hrun hs =>
      have : Classified sub.code (finishedNotes T o sub name text s) s ↔ Smooth T o sub name fs :=
        ⟨smooth_of_classified hx hrun hs, classified_of_smooth hc hx hrun (hT ..) hs⟩
      rw [finishedNotes] at this
      rw [this]
      simp [hc, FailsInside, h₁, h₂, hrun]

theorem demo_waited : demo.Waited := by
  intro text input cpuLimit memLimit
  simp only [demo]
  split
  · exact .inl (show wTermSig 0 = 0 by decide)
  · exact .inr (show WIfSignaled 139 by decide)

/-- Two submissions for which every step succeeds. -/
theorem classified_iff_two :
    Classified echoCode (notes demo echoJob.outcomes echoJob.sub echoJob.name fun _ => none) 0 ∧
    Classified crashCode (notes demo crashJob.outcomes crashJob.sub crashJob.name fun _ => none) 11 := by
  have h₁ := (classified_iff demo_waited echoJob.outcomes echoJob.sub echoJob.name fun _ => none).2.mpr
    (.inr (.inr (.of_made (by decide +kernel : _ = some "\x7fELF echo".toList) (by decide +kernel))))
  have h₂ := (classified_iff demo_waited crashJob.outcomes crashJob.sub crashJob.name fun _ => none).2.mpr
    (.inr (.inr (.of_made (by decide +kernel : _ = some "\x7fELF crash".toList) (by decide +kernel))))
  have e₁ : status demo echoJob.outcomes echoJob.sub echoJob.name (fun _ => none) = 0 := by
    decide +kernel
  have e₂ : status demo crashJob.outcomes crashJob.sub crashJob.name (fun _ => none) = 11 := by
    decide +kernel
  exact ⟨e₁ ▸ h₁, e₂ ▸ h₂⟩

/-- The program is never executed, and the status says that it has run. -/
def noExec : Outcomes := { echoJob.outcomes with execRun := false }

/-- `g++` is never started, and the status says that it has rejected the code. -/
def noFork : Outcomes := { echoJob.outcomes with forkGxx := false }

theorem not_classified :
    status demo noExec echoJob.sub echoJob.name (fun _ => none) = 0 ∧
    ¬ Classified echoCode (notes demo noExec echoJob.sub echoJob.name fun _ => none) 0 ∧
    status demo noFork echoJob.sub echoJob.name (fun _ => none) = -3 ∧
    ¬ Classified echoCode (notes demo noFork echoJob.sub echoJob.name fun _ => none) (-3) := by
  refine ⟨by decide +kernel, fun h => ?_, by decide +kernel, fun h => ?_⟩
  · exact absurd (h.failed.mpr (by decide +kernel)) (by decide)
  · exact absurd (h.failed.mpr (by decide +kernel)) (by decide)

end OJ.CompileServer
