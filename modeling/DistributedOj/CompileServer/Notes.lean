import DistributedOj.CompileServer.Start
import DistributedOj.Framework.Logged

/-!
# What happens in a call of `Start`

`Start` with a note of every file that is written or opened, every `fork` and
`exec`, what `g++` answers and how the program ends (`startNoted`), in the
parent and in the children. Without its notes it is `start`
(`startNoted_erases`), which is its `status_code` and then the label `END`
(`start_eq`).
-/

namespace OJ.CompileServer

open OJ.Comm OJ.Framework Logged PathUtil

/-- What happens in a call of `Start` or in a child of it. -/
inductive Note where
  /-- A file is written or opened, a `fork` or an `exec`: whether it succeeds. -/
  | step (ok : Bool)
  /-- `g++` has run: the program, if it accepts the source. -/
  | gxx (exe : Option Str)
  /-- A program has run, and ended with this status. -/
  | ran (text : Str) (status : Nat)
  deriving DecidableEq

/-- `file_name` at the label `END`. -/
def Submission.fileName (sub : Submission) (name : Str) : Str := if sub.code = [] then [] else name

section
variable (T : Toolchain) (o : Outcomes) (fileName : Str)

/-! ## The steps with their notes -/

def attempt (x : StateM Fs Bool) : Logged Fs Note Bool := do
  let ok ← of x
  note (.step ok)
  return ok

/-- All of a text is stored. -/
def whole (stored : Option Nat) (text : Str) : Bool := stored.any (text.length ≤ ·)

def writeFileNoted (stored : Option Nat) (target code : Str) : Logged Fs Note Bool := do
  let ok ← of (FileUtil.writeFile stored target code)
  note (.step (whole stored code))
  return ok

def readFileNoted (ok : Bool) (target : Str) : Logged Fs Note Str := do
  let r ← of (FileUtil.readFile ok target true)
  note (.step r.1)
  return r.2

def execGxxNoted : Logged Fs Note Unit := do
  note (.step o.execGxx)
  if o.execGxx then
    let source ← of (readAt (src fileName))
    note (.gxx (T.gxx source).1)
    of (gxxWrites fileName (T.gxx source).1 (T.unlinks source) (T.gxx source).2)
  else return ()

def gxxChildNoted : Logged Fs Note Unit := do
  if ← attempt (openCreat o.openGxxErr (compilerError fileName)) then
    execGxxNoted T o fileName
  else return ()

def compileNoted : Logged Fs Note Bool := do
  note (.step o.forkGxx)
  if o.forkGxx then
    gxxChildNoted T o fileName
    of (FileUtil.isFileExits (exe fileName))
  else return false

/-- The child of `Run`: its `exec`, and its status. -/
def programNoted (cpuLimit memLimit : Int) : Logged Fs Note Nat := do
  let program ← of (readAt (exe fileName))
  let ran ← of (execute T o fileName cpuLimit memLimit)
  note (.step ran.isSome)
  match ran with
  | some r => note (.ran (program.getD []) r.status)
  | none => pure ()
  of (childWrites o fileName ran)

def runNoted (cpuLimit memLimit : Int) : Logged Fs Note Int := do
  let inFd ← attempt (openCreat o.openIn (stdin fileName))
  let outFd ← attempt (openCreat o.openOut (stdout fileName))
  let errFd ← attempt (openCreat o.openErr (stderr fileName))
  if inFd && outFd && errFd then
    note (.step o.forkRun)
    if o.forkRun then
      let status ← programNoted T o fileName cpuLimit memLimit
      return ((status &&& 0x7F : Nat) : Int)
    else return -2
  else return -1

def codeToDescNoted (code : Int) : Logged Fs Note Str :=
  if code = -3 then readFileNoted o.readDesc (compilerError fileName)
  else of (codeToDesc o fileName code)

def finishNoted (status : Int) : Logged Fs Note Str := do
  let reason ← codeToDescNoted o fileName status
  if status = 0 then
    let out ← readFileNoted o.readOut (stdout fileName)
    let err ← readFileNoted o.readErr (stderr fileName)
    of (removeTempFile fileName)
    return T.write (outValue status reason (some (out, err)))
  else
    of (removeTempFile fileName)
    return T.write (outValue status reason none)

/-- `status_code` at the label `END`. -/
def statusCode (sub : Submission) (name : Str) : StateM Fs Int := do
  if sub.code = [] then return -1
  else if ← FileUtil.writeFile o.writeSrc (src name) sub.code then
    if ← FileUtil.writeFile o.writeStdin (stdin name) sub.input then
      if ← compile T o name then
        return statusOfRun (← run T o name sub.cpuLimit sub.memLimit)
      else return -3
    else return -2
  else return -2

def statusNoted (sub : Submission) (name : Str) : Logged Fs Note Int := do
  if sub.code = [] then return -1
  else if ← writeFileNoted o.writeSrc (src name) sub.code then
    if ← writeFileNoted o.writeStdin (stdin name) sub.input then
      if ← compileNoted T o name then
        return statusOfRun (← runNoted T o name sub.cpuLimit sub.memLimit)
      else return -3
    else return -2
  else return -2

def startNoted (sub : Submission) (name : Str) : Logged Fs Note Str := do
  let status ← statusNoted T o sub name
  finishNoted T o (sub.fileName name) status

/-! ## Without the notes -/

theorem start_eq (sub : Submission) (name : Str) :
    start T o sub name = statusCode T o sub name >>= finish T o (sub.fileName name) := by
  unfold start statusCode Submission.fileName
  split
  · rfl
  · simp only [bind_assoc]
    congr 1; funext b; cases b
    · rfl
    · simp only [if_true, bind_assoc]
      congr 1; funext b; cases b
      · rfl
      · simp only [if_true, bind_assoc]
        congr 1; funext b; cases b
        · rfl
        · simp only [if_true, bind_assoc, pure_bind]

theorem attempt_erases (x : StateM Fs Bool) : Erases (attempt x) x :=
  (Erases.of x).bind_self fun _ => .note _ (.pure _)

theorem writeFileNoted_erases (stored : Option Nat) (target code : Str) :
    Erases (writeFileNoted stored target code) (FileUtil.writeFile stored target code) :=
  (Erases.of _).bind_self fun _ => .note _ (.pure _)

theorem readFileNoted_bind (ok : Bool) (target : Str) {β : Type} {f : Str → Logged Fs Note β}
    {g : Bool × Str → StateM Fs β} (h : ∀ r, Erases (f r.2) (g r)) :
    Erases (readFileNoted ok target >>= f) (FileUtil.readFile ok target true >>= g) := by
  simp only [readFileNoted, bind_assoc, pure_bind]
  exact (Erases.of _).bind fun r => .note _ (h r)

theorem compileNoted_erases : Erases (compileNoted T o fileName) (compile T o fileName) := by
  refine .note _ (.ite (.bind ?_ fun _ => .of _) (.pure _))
  refine (attempt_erases _).bind fun _ => .ite (.note _ (.ite ?_ (.pure _))) (.pure _)
  exact (Erases.of _).bind fun _ => .note _ (.of _)

theorem programNoted_erases (cpuLimit memLimit : Int) :
    Erases (programNoted T o fileName cpuLimit memLimit)
      (execute T o fileName cpuLimit memLimit >>= childWrites o fileName) := by
  refine .peek (fun _ => rfl) fun program => (Erases.of _).bind fun ran => .note _ ?_
  cases ran with
  | none => exact .of _
  | some r => exact .note _ (.of _)

theorem runNoted_erases (cpuLimit memLimit : Int) :
    Erases (runNoted T o fileName cpuLimit memLimit) (run T o fileName cpuLimit memLimit) := by
  refine (attempt_erases _).bind fun _ => (attempt_erases _).bind fun _ =>
    (attempt_erases _).bind fun _ => .ite (.note _ (.ite ?_ (.pure _))) (.pure _)
  have := (programNoted_erases T o fileName cpuLimit memLimit).bind fun status =>
    .pure ((status &&& 0x7F : Nat) : Int)
  rwa [bind_assoc] at this

theorem statusNoted_erases (sub : Submission) (name : Str) :
    Erases (statusNoted T o sub name) (statusCode T o sub name) := by
  refine .ite (.pure _) ((writeFileNoted_erases _ _ _).bind fun _ => .ite ?_ (.pure _))
  refine (writeFileNoted_erases _ _ _).bind fun _ => .ite ?_ (.pure _)
  refine (compileNoted_erases T o name).bind fun _ => .ite ?_ (.pure _)
  exact (runNoted_erases T o name _ _).bind fun _ => .pure _

theorem codeToDescNoted_erases (code : Int) :
    Erases (codeToDescNoted o fileName code) (codeToDesc o fileName code) := by
  unfold codeToDescNoted
  split
  · next h => subst h; exact readFileNoted_bind _ _ fun r => .pure r.2
  · exact .of _

theorem finishNoted_erases (status : Int) :
    Erases (finishNoted T o fileName status) (finish T o fileName status) := by
  refine (codeToDescNoted_erases o fileName status).bind fun reason => .ite ?_ ?_
  · refine readFileNoted_bind _ _ fun out => readFileNoted_bind _ _ fun err => ?_
    exact (Erases.of _).bind fun _ => .pure _
  · exact (Erases.of _).bind fun _ => .pure _

theorem startNoted_erases (sub : Submission) (name : Str) :
    Erases (startNoted T o sub name) (start T o sub name) := by
  rw [start_eq]
  exact (statusNoted_erases T o sub name).bind fun status => finishNoted_erases T o _ status

end

end OJ.CompileServer
