import DistributedOj.CompileServer.Notes

/-!
# How a call of `Start` goes

The status code of a call, with what happens in it and what is left in the
files, function by function (`compile_run`, `runNoted_run`, `finish_run`), and
then every way in which a call can go (`Course`, `course`).
-/

namespace OJ.CompileServer

open OJ.Comm OJ.Framework Logged PathUtil

/-- `WTERMSIG`. -/
def wTermSig (status : Nat) : Nat := status &&& 0x7F

def WIfExited (status : Nat) : Prop := wTermSig status = 0

def WIfSignaled (status : Nat) : Prop := 0 < wTermSig status ∧ wTermSig status < 0x7F

instance (status : Nat) : Decidable (WIfExited status) := inferInstanceAs (Decidable (_ = _))
instance (status : Nat) : Decidable (WIfSignaled status) := inferInstanceAs (Decidable (_ ∧ _))

section
variable (T : Toolchain) (o : Outcomes) (sub : Submission) (name : Str) (fs : Fs)

/-- `status_code`. -/
def status : Int := ((statusCode T o sub name).run fs).1

/-- What happens, in order. -/
def notes : List Note := ((startNoted T o sub name).run (fs, [])).2.2

/-- `g++` is executed, if `Compile` is. -/
def Outcomes.gxxRuns : Bool := o.forkGxx && o.openGxxErr && o.execGxx

/-- `Run` forks. -/
def Outcomes.runForks : Bool := o.openIn && o.openOut && o.openErr && o.forkRun

/-- What `g++` makes of as much of the code as is stored. -/
def made : Option Str := (T.gxx (o.writeSrc.map (sub.code.take ·))).1

/-- `g++` removes an old program, if it makes none of that. -/
def clears : Bool := o.gxxRuns && T.unlinks (o.writeSrc.map (sub.code.take ·))

/-- Files that are there are still there after a program has run, if this one is. -/
def Ran.keeps (r : Ran) (path : Str) : Bool := ((r.files.reverse.lookup path).getD (some [])).isSome

end

/-! ## `Compile` and `Run` -/

section
variable (T : Toolchain) (o : Outcomes) (name : Str)

/-- The notes of `Compile`, where `g++` makes `exe`. -/
def compileNotes (exe : Option Str) : List Note :=
  .step o.forkGxx :: if o.forkGxx then .step o.openGxxErr :: if o.openGxxErr then
    .step o.execGxx :: if o.execGxx then [.gxx exe] else [] else [] else []

/-- The notes of `Run`, where the program is `text` and ends with `status`. -/
def runNotes (text : Str) (status : Nat) : List Note :=
  .step o.openIn :: .step o.openOut :: .step o.openErr ::
    if o.openIn && o.openOut && o.openErr then .step o.forkRun :: if o.forkRun then
      .step o.execRun :: if o.execRun then [.ran text status] else [] else [] else []

theorem failed_compileNotes (exe : Option Str) :
    .step false ∈ compileNotes o exe ↔ o.gxxRuns = false := by
  unfold compileNotes Outcomes.gxxRuns
  cases o.forkGxx <;> cases o.openGxxErr <;> cases o.execGxx <;> simp

theorem gxx_mem_compileNotes (exe e : Option Str) :
    .gxx e ∈ compileNotes o exe ↔ o.gxxRuns ∧ e = exe := by
  unfold compileNotes Outcomes.gxxRuns
  cases o.forkGxx <;> cases o.openGxxErr <;> cases o.execGxx <;> simp

theorem ran_notMem_compileNotes (exe : Option Str) (text : Str) (status : Nat) :
    .ran text status ∉ compileNotes o exe := by
  unfold compileNotes
  cases o.forkGxx <;> cases o.openGxxErr <;> cases o.execGxx <;> simp

theorem failed_runNotes (text : Str) (status : Nat) :
    .step false ∈ runNotes o text status ↔ (o.runForks && o.execRun) = false := by
  unfold runNotes Outcomes.runForks
  cases o.openIn <;> cases o.openOut <;> cases o.openErr <;> cases o.forkRun <;>
    cases o.execRun <;> simp

theorem ran_mem_runNotes (text t : Str) (status st : Nat) :
    .ran t st ∈ runNotes o text status ↔ (o.runForks && o.execRun) ∧ t = text ∧ st = status := by
  unfold runNotes Outcomes.runForks
  cases o.openIn <;> cases o.openOut <;> cases o.openErr <;> cases o.forkRun <;>
    cases o.execRun <;> simp

theorem gxx_notMem_runNotes (text : Str) (status : Nat) (e : Option Str) :
    .gxx e ∉ runNotes o text status := by
  unfold runNotes
  cases o.openIn <;> cases o.openOut <;> cases o.openErr <;> cases o.forkRun <;>
    cases o.execRun <;> simp

theorem attempt_run (x : StateM Fs Bool) (s : Fs × List Note) :
    (attempt x).run s = ((x.run s.1).1, ((x.run s.1).2, s.2 ++ [.step (x.run s.1).1])) := rfl

theorem execGxxNoted_run (fs : Fs) (l : List Note) : (execGxxNoted T o name).run (fs, l) =
    (⟨⟩, ((execGxx T o name).run fs).2, l ++ .step o.execGxx ::
      if o.execGxx then [.gxx (T.gxx (fs (src name))).1] else []) := by
  unfold execGxxNoted execGxx
  cases o.execGxx
  · rfl
  · simp only [Stateful.run_bind, run_note, run_of, if_true, List.append_assoc]
    rfl

theorem gxxChildNoted_run (fs : Fs) (l : List Note) : (gxxChildNoted T o name).run (fs, l) =
    (⟨⟩, ((gxxChild T o name).run fs).2, l ++ .step o.openGxxErr ::
      if o.openGxxErr then .step o.execGxx ::
        if o.execGxx then [.gxx (T.gxx (fs (src name))).1] else [] else []) := by
  unfold gxxChildNoted gxxChild
  simp only [Stateful.run_bind, attempt_run, run_openCreat]
  cases o.openGxxErr
  · rfl
  · simp only [if_true, execGxxNoted_run, Function.update_of_ne (src_ne name).2.1, List.append_assoc]
    rfl

theorem compileNoted_run (fs : Fs) (l : List Note) : (compileNoted T o name).run (fs, l) =
    (((compile T o name).run fs).1, ((compile T o name).run fs).2,
      l ++ compileNotes o (T.gxx (fs (src name))).1) := by
  unfold compileNoted compile compileNotes
  simp only [Stateful.run_bind, run_note]
  cases o.forkGxx
  · rfl
  · simp only [if_true, Stateful.run_bind, gxxChildNoted_run, List.append_assoc]
    rfl

theorem gxxWrites_run (made : Option Str) (unlinks : Bool) (text : Str) (fs : Fs) :
    let fs' := ((gxxWrites name made unlinks text).run fs).2
    fs' (exe name) = made.or (if unlinks then none else fs (exe name)) ∧
      fs' (stdin name) = fs (stdin name) ∧ (fs' (compilerError name)).isSome := by
  cases made with
  | none =>
    cases unlinks with
    | true =>
      simp only [gxxWrites, if_true, unlink, Stateful.run_bind, run_writeAt, run_overwrite]
      simp
    | false =>
      simp only [gxxWrites, Bool.false_eq_true, if_false, run_overwrite]
      simp
  | some exe =>
    simp only [gxxWrites, Stateful.run_bind, run_writeAt, run_overwrite]
    simp

/-- What `Compile` leaves, where `g++` makes `made` of the source. -/
theorem compile_run (fs : Fs) {made : Option Str} (hm : (T.gxx (fs (src name))).1 = made) :
    let clears := o.gxxRuns && T.unlinks (fs (src name))
    let r := (compile T o name).run fs
    r.1 = (o.forkGxx && (r.2 (exe name)).isSome) ∧
    r.2 (exe name) = (if o.gxxRuns then made else none).or (if clears then none else fs (exe name)) ∧
    r.2 (stdin name) = fs (stdin name) ∧ (o.gxxRuns → (r.2 (compilerError name)).isSome) := by
  unfold compile gxxChild execGxx Outcomes.gxxRuns
  cases o.forkGxx
  · exact ⟨rfl, rfl, rfl, by simp⟩
  · simp only [if_true, Stateful.run_bind, run_openCreat, run_isFileExits]
    cases o.openGxxErr
    · exact ⟨rfl, rfl, rfl, by simp⟩
    · simp only [if_true]
      generalize hf : Function.update fs (compilerError name) _ = fs₁
      have e₁ : fs₁ (exe name) = fs (exe name) := by simp [← hf]
      have e₂ : fs₁ (stdin name) = fs (stdin name) := by simp [← hf]
      have e₃ : fs₁ (src name) = fs (src name) := by simp [← hf]
      cases o.execGxx
      · exact ⟨rfl, e₁, e₂, by simp⟩
      · simp only [if_true, Stateful.run_bind, run_readAt, e₃, hm]
        obtain ⟨e₄, e₅, e₆⟩ := gxxWrites_run name made (T.unlinks (fs (src name))) (T.gxx (fs (src name))).2 fs₁
        rw [e₁] at e₄
        rw [e₂] at e₅
        exact ⟨rfl, e₄, e₅, fun _ => e₆⟩

theorem leave_run (r : Ran) (fs : Fs) (path : Str) :
    ((r.leave).run fs).2 path = (r.files.reverse.lookup path).getD (fs path) := by
  unfold Ran.leave
  generalize r.files = files
  induction files generalizing fs with
  | nil => rfl
  | cons f files ih =>
    obtain ⟨p, text⟩ := f
    refine (ih (Function.update fs p text)).trans ?_
    rw [List.reverse_cons, List.lookup_append]
    cases files.reverse.lookup path with
    | some text' => rfl
    | none =>
      by_cases hp : path = p
      · subst hp
        simp
      · have hbeq : (path == p) = false := by simpa using hp
        simp [Function.update_of_ne hp, List.lookup, hbeq]

theorem Ran.leave_of_files {r : Ran} (h : r.files = []) : r.leave = pure ⟨⟩ := by
  rw [Ran.leave, h]
  rfl

theorem keeps_iff {r : Ran} {fs : Fs} {path : Str} (h : (fs path).isSome) :
    (((r.leave).run fs).2 path).isSome = r.keeps path := by
  rw [leave_run, Ran.keeps]
  cases r.files.reverse.lookup path with
  | some text => rfl
  | none => exact h

theorem childWrites_run (r : Ran) (fs : Fs) :
    let r' := (childWrites o name (some r)).run fs
    r'.1 = r.status ∧ (r'.2 (stdout name)).isSome = r.keeps (stdout name) ∧
      (r'.2 (stderr name)).isSome = r.keeps (stderr name) := by
  simp only [childWrites, Stateful.run_bind, run_overwrite, Stateful.run_pure]
  exact ⟨trivial, keeps_iff (by simp), keeps_iff (by simp)⟩

theorem childWrites_none_run {fs : Fs} (he : (fs (stderr name)).isSome) :
    let r' := (childWrites o name none).run fs
    r'.1 = 256 ∧ (r'.2 (stdout name)).isSome ∧ (r'.2 (stderr name)).isSome := by
  simp only [childWrites, Stateful.run_bind, run_overwrite, Stateful.run_pure]
  simp [he]

/-- The child of `Run` on an executable, with an input. -/
theorem programNoted_run (cpuLimit memLimit : Int) {fs : Fs} {text input : Str}
    (ht : fs (exe name) = some text) (hi : fs (stdin name) = some input)
    (he : (fs (stderr name)).isSome) (l : List Note) :
    let ran := T.program text input cpuLimit memLimit
    let r := (programNoted T o name cpuLimit memLimit).run (fs, l)
    r.1 = (if o.execRun then ran.status else 256) ∧
    r.2.2 = l ++ .step o.execRun :: (if o.execRun then [.ran text ran.status] else []) ∧
    (r.2.1 (stdout name)).isSome = (!o.execRun || ran.keeps (stdout name)) ∧
    (r.2.1 (stderr name)).isSome = (!o.execRun || ran.keeps (stderr name)) := by
  simp only [programNoted, execute, Stateful.run_bind, run_of, run_readAt, ht, hi]
  cases hx : o.execRun
  · simp only [Bool.false_eq_true, if_false, Stateful.run_pure, run_note, run_of,
      Option.isSome_none, Bool.not_false, Bool.true_or]
    obtain ⟨e₁, e₂, e₃⟩ := childWrites_none_run o name he
    exact ⟨e₁, trivial, e₂, e₃⟩
  · simp only [if_true, Stateful.run_pure, Stateful.run_bind, run_note, run_of, Option.isSome_some,
      Option.getD_some, List.append_assoc]
    obtain ⟨e₁, e₂, e₃⟩ := childWrites_run o name (T.program text input cpuLimit memLimit) fs
    exact ⟨e₁, rfl, e₂, e₃⟩

/-- The result of `Run`, where the program has ended with `status`. -/
def runResult (status : Nat) : Int :=
  if o.openIn && o.openOut && o.openErr then
    if o.forkRun then if o.execRun then (wTermSig status : Int) else 0 else -2
  else -1

/-- `Run` on an executable, with an input. -/
theorem runNoted_run (cpuLimit memLimit : Int) {fs : Fs} {text input : Str}
    (ht : fs (exe name) = some text) (hi : fs (stdin name) = some input) (l : List Note) :
    let ran := T.program text input cpuLimit memLimit
    let r := (runNoted T o name cpuLimit memLimit).run (fs, l)
    r.1 = runResult o ran.status ∧ r.2.2 = l ++ runNotes o text ran.status ∧
    (o.runForks → (r.2.1 (stdout name)).isSome = (!o.execRun || ran.keeps (stdout name)) ∧
      (r.2.1 (stderr name)).isSome = (!o.execRun || ran.keeps (stderr name))) := by
  unfold runNoted runResult runNotes Outcomes.runForks
  simp only [Stateful.run_bind, attempt_run, run_openCreat]
  cases ho : o.openIn && o.openOut && o.openErr
  · simp only [Bool.false_eq_true, if_false, Stateful.run_pure, List.append_assoc]
    simp
  · simp only [Bool.and_eq_true] at ho
    simp only [ho, if_true, Stateful.run_bind, run_note]
    -- The three files are open.
    generalize hf : Function.update _ (stderr name) _ = fs₁
    have ht₁ : fs₁ (exe name) = some text := by simp [← hf, ht]
    have hi₁ : fs₁ (stdin name) = some input := by simp [← hf, hi]
    have he₁ : (fs₁ (stderr name)).isSome := by simp [← hf]
    cases o.forkRun
    · simp only [Bool.false_eq_true, if_false, Stateful.run_pure, List.append_assoc]
      simp
    · simp only [if_true, Stateful.run_bind, Stateful.run_pure]
      obtain ⟨e₁, e₂, e₃, e₄⟩ := programNoted_run T o name cpuLimit memLimit ht₁ hi₁ he₁
        (l ++ [.step true] ++ [.step true] ++ [.step true] ++ [.step true])
      refine ⟨?_, ?_, fun _ => ⟨e₃, e₄⟩⟩
      · rw [e₁]
        cases o.execRun
        · show ((256 &&& 127 : Nat) : Int) = 0
          decide
        · rfl
      · rw [e₂]
        simp

/-- The notes of the reads after the label `END`. -/
def finishNotes (status : Int) (fs : Fs) : List Note :=
  if status = -3 then [.step (o.readDesc && (fs (compilerError name)).isSome)]
  else if status = 0 then [.step (o.readOut && (fs (stdout name)).isSome),
    .step (o.readErr && (fs (stderr name)).isSome)]
  else []

theorem codeToDesc_run_snd (code : Int) (fs : Fs) : ((codeToDesc o name code).run fs).2 = fs := by
  unfold codeToDesc
  split
  · rfl
  · rfl
  · rfl
  · simp only [Stateful.run_bind, run_readFile, Stateful.run_pure]
  all_goals rfl

theorem finishNoted_run (status : Int) (fs : Fs) (l : List Note) :
    ((finishNoted T o name status).run (fs, l)).2.2 = l ++ finishNotes o name status fs := by
  unfold finishNoted codeToDescNoted finishNotes
  by_cases h₃ : status = -3
  · subst h₃
    have h : ¬ (-3 : Int) = 0 := by decide
    simp only [if_true, if_neg h, Stateful.run_bind, Stateful.run_pure, readFileNoted, run_of, run_note,
      run_readFile]
  · by_cases h₀ : status = 0
    · simp only [if_pos h₀, if_neg h₃, Stateful.run_bind, Stateful.run_pure, readFileNoted, run_of,
        run_note, run_readFile, codeToDesc_run_snd, List.append_assoc, List.cons_append,
        List.nil_append]
    · simp only [if_neg h₀, if_neg h₃, Stateful.run_bind, Stateful.run_pure, run_of, List.append_nil]

end

/-! ## How a call goes -/

section
variable (T : Toolchain) (o : Outcomes) (sub : Submission) (name : Str) (fs : Fs)

theorem gxxRuns_forks {o : Outcomes} (h : o.gxxRuns) : o.forkGxx := by
  simp only [Outcomes.gxxRuns, Bool.and_eq_true] at h
  exact h.1.1

/-- What is there to execute if `Compile` returns true. -/
def executable : Option Str :=
  if o.forkGxx then
    (if o.gxxRuns then made T o sub else none).or (if clears T o sub then none else fs (exe name))
  else none

/-- What the program `text` does on as much of the input as is stored. -/
def programRan (text : Str) : Ran :=
  T.program text (o.writeStdin.elim [] (sub.input.take ·)) sub.cpuLimit sub.memLimit

def programStatus (text : Str) : Nat := (programRan T o sub text).status

/-- The output of the program `text` can be read after it. -/
def outRead (text : Str) : Bool := o.readOut && (!o.execRun || (programRan T o sub text).keeps (stdout name))

def errRead (text : Str) : Bool := o.readErr && (!o.execRun || (programRan T o sub text).keeps (stderr name))

/-- The notes of both calls of `WriteFile`. -/
def written : List Note :=
  [.step (whole o.writeSrc sub.code), .step (whole o.writeStdin sub.input)]

/-- The status code, and what happens. -/
inductive Course : Int → List Note → Prop
  | empty : sub.code = [] → Course (-1) []
  | noSrc : sub.code ≠ [] → o.writeSrc = none → Course (-2) [.step false]
  | noStdin : sub.code ≠ [] → o.writeSrc ≠ none → o.writeStdin = none → Course (-2) (written o sub)
  | notCompiled (desc : Bool) : sub.code ≠ [] → o.writeSrc ≠ none → o.writeStdin ≠ none →
      executable T o sub name fs = none → (o.gxxRuns → desc = o.readDesc) →
      Course (-3) (written o sub ++ compileNotes o (made T o sub) ++ [.step desc])
  | internal (text : Str) : sub.code ≠ [] → o.writeSrc ≠ none → o.writeStdin ≠ none →
      executable T o sub name fs = some text → o.runForks = false →
      Course (-2) (written o sub ++ compileNotes o (made T o sub) ++
        runNotes o text (programStatus T o sub text))
  | finished (text : Str) {s : Int} : sub.code ≠ [] → o.writeSrc ≠ none → o.writeStdin ≠ none →
      executable T o sub name fs = some text → o.runForks →
      s = (if o.execRun then (wTermSig (programStatus T o sub text) : Int) else 0) →
      Course s (written o sub ++ compileNotes o (made T o sub) ++
        runNotes o text (programStatus T o sub text) ++
        if s = 0 then [.step (outRead T o sub name text), .step (errRead T o sub name text)] else [])

theorem status_eq : status T o sub name fs = ((statusNoted T o sub name).run (fs, [])).1 :=
  (statusNoted_erases T o sub name (fs, [])).1.symm

/-- The notes, from those up to the label `END`. -/
theorem notes_eq : notes T o sub name fs = ((statusNoted T o sub name).run (fs, [])).2.2 ++
    finishNotes o (sub.fileName name) (status T o sub name fs)
      ((statusNoted T o sub name).run (fs, [])).2.1 := by
  rw [status_eq]
  exact finishNoted_run T o _ _ _ _

theorem statusOfRun_of_not_runForks (h : o.runForks = false) (st : Nat) :
    statusOfRun (runResult o st) = -2 := by
  unfold Outcomes.runForks at h
  unfold runResult
  cases ho : o.openIn && o.openOut && o.openErr
  · rfl
  · rw [ho, Bool.true_and] at h
    rw [h]
    rfl

theorem statusOfRun_of_runForks (h : o.runForks) (st : Nat) :
    statusOfRun (runResult o st) = if o.execRun then (wTermSig st : Int) else 0 := by
  simp only [Outcomes.runForks, Bool.and_eq_true] at h
  simp only [runResult, h, Bool.and_self, if_true, statusOfRun]
  cases o.execRun
  · rfl
  · simp only [if_true]
    exact if_neg (by omega)

theorem finishNotes_of_nonneg {s : Int} (hs : 0 ≤ s) {fs : Fs} {out err : Bool}
    (ho : (fs (stdout name)).isSome = out) (he : (fs (stderr name)).isSome = err) :
    finishNotes o name s fs = if s = 0 then [.step (o.readOut && out), .step (o.readErr && err)] else [] := by
  rw [finishNotes, if_neg (by omega), ho, he]

theorem course : Course T o sub name fs (status T o sub name fs) (notes T o sub name fs) := by
  rw [notes_eq, status_eq]
  by_cases hc : sub.code = []
  · have h : statusNoted T o sub name = pure (-1) := if_pos hc
    rw [h]
    exact .empty hc
  · rw [Submission.fileName, if_neg hc]
    simp only [statusNoted, if_neg hc, writeFileNoted, Stateful.run_bind, run_of, run_note,
      Stateful.run_pure, run_writeFile]
    cases h₁ : o.writeSrc with
    | none => exact .noSrc hc h₁
    | some k =>
      simp only [Option.isSome_some, if_true, Stateful.run_bind, run_of, run_note,
        Stateful.run_pure, run_writeFile, Option.elim_some]
      cases h₂ : o.writeStdin with
      | none =>
        have : Course T o sub name fs (-2) (written o sub) := .noStdin hc (by simp [h₁]) h₂
        rw [written, h₁, h₂] at this
        exact this
      | some n =>
        simp only [Option.isSome_some, if_true, Stateful.run_bind, compileNoted_run, Option.elim_some]
        generalize hf : Function.update _ (stdin name) _ = fs₁
        have hsrc : fs₁ (src name) = some (sub.code.take k) := by simp [← hf]
        have hstdin : fs₁ (stdin name) = some (sub.input.take n) := by simp [← hf]
        have hexe : fs₁ (exe name) = fs (exe name) := by simp [← hf]
        have hm : (T.gxx (fs₁ (src name))).1 = made T o sub := by simp [made, h₁, hsrc]
        have hu : (o.gxxRuns && T.unlinks (fs₁ (src name))) = clears T o sub := by simp [clears, h₁, hsrc]
        obtain ⟨c₁, c₂, c₃, c₄⟩ := compile_run T o name fs₁ hm
        rw [hu, hexe] at c₂
        rw [hstdin] at c₃
        rw [hm]
        generalize (compile T o name).run fs₁ = r at c₁ c₂ c₃ c₄ ⊢
        have hr : r.1 = (executable T o sub name fs).isSome := by
          rw [c₁, c₂, executable]
          cases o.forkGxx <;> rfl
        cases hx : executable T o sub name fs with
        | none =>
          rw [hx] at hr
          simp only [hr, Option.isSome_none, Bool.false_eq_true, if_false, Stateful.run_pure]
          have := Course.notCompiled (o.readDesc && (r.2 (compilerError name)).isSome) hc
            (by simp [h₁]) (by simp [h₂]) hx fun h => by rw [c₄ h, Bool.and_true]
          rw [written, h₁, h₂] at this
          exact this
        | some text =>
          rw [hx] at hr
          have ht : r.2 (exe name) = some text := by
            have hfork := (Bool.and_eq_true_iff.mp (c₁.symm.trans hr)).1
            rw [c₂, ← hx, executable, if_pos hfork]
          simp only [hr, Option.isSome_some, if_true, Stateful.run_bind, Stateful.run_pure]
          have hran : T.program text (sub.input.take n) sub.cpuLimit sub.memLimit = programRan T o sub text := by
            rw [programRan, h₂]
            rfl
          obtain ⟨e₁, e₂, e₃⟩ := runNoted_run T o name sub.cpuLimit sub.memLimit ht c₃
            ([] ++ [.step (whole (some k) sub.code)] ++ [.step (whole (some n) sub.input)] ++
              compileNotes o (made T o sub))
          rw [hran] at e₁ e₂ e₃
          have hst : (programRan T o sub text).status = programStatus T o sub text := rfl
          rw [hst] at e₁ e₂
          generalize (runNoted T o name sub.cpuLimit sub.memLimit).run _ = q at e₁ e₂ e₃ ⊢
          rw [e₁, e₂]
          cases hrun : o.runForks with
          | false =>
            have := Course.internal text hc (by simp [h₁]) (by simp [h₂]) hx hrun
            rw [statusOfRun_of_not_runForks o hrun]
            rw [written, h₁, h₂] at this
            simpa [finishNotes] using this
          | true =>
            have := Course.finished text hc (by simp [h₁]) (by simp [h₂]) hx hrun rfl
            rw [statusOfRun_of_runForks o hrun]
            rw [written, h₁, h₂] at this
            obtain ⟨f₁, f₂⟩ := e₃ hrun
            rw [finishNotes_of_nonneg o name (by split <;> omega) f₁ f₂]
            simpa [outRead, errRead] using this

end

/-- From the label `END` on: the answer, and then the cleanup. -/
theorem finish_run (T : Toolchain) (o : Outcomes) (name : Str) (s : Int) (fs : Fs) :
    (finish T o name s).run fs =
      (T.write (outValue s ((codeToDesc o name s).run fs).1 (if s = 0 then
        some (((FileUtil.readFile o.readOut (stdout name) true).run fs).1.2,
          ((FileUtil.readFile o.readErr (stderr name) true).run fs).1.2) else none)),
      ((removeTempFile name).run fs).2) := by
  unfold finish
  by_cases h : s = 0
  · simp only [if_pos h, Stateful.run_bind, Stateful.run_pure, run_readFile, codeToDesc_run_snd]
  · simp only [if_neg h, Stateful.run_bind, Stateful.run_pure, codeToDesc_run_snd]

end OJ.CompileServer
