import DistributedOj.Comm.Files
import DistributedOj.Comm.Json

/-!
# `CompileAndRun::Start`

A submission from the moment its request is read (`compile_run.hpp`,
`compiler.hpp`, `runner.hpp`): the files it writes, `g++` and the program, and
the answer, as one computation on the files (`start`). What `g++` and a program
do with their files is a parameter (`Toolchain`), and so is whether each open,
`fork` and `exec` succeeds (`Outcomes`).
-/

namespace OJ.CompileServer

open OJ.Comm OJ.Framework PathUtil

/-- What a request asks for. -/
structure Submission where
  code : Str
  input : Str
  cpuLimit : Int
  memLimit : Int

/-- What a program has done: its output, the status of `waitpid`, and what else it
has made of files: the text of each, or none of one that it has removed. -/
structure Ran where
  stdout : Str
  stderr : Str
  status : Nat
  files : List (Str × Option Str)
  deriving DecidableEq

/-- `g++` on a source file, if there is one: the program, if it accepts it, and
what it prints; whether it removes an old program if it does not (it does once the
linker has started); a program on its input; and `Json::StyledWriter`. -/
structure Toolchain where
  gxx : Option Str → Option Str × Str
  unlinks : Option Str → Bool
  program : Str → Str → Int → Int → Ran
  write : Json → Str

/-- Programs write to no file but their standard output and error. -/
def Toolchain.Confined (T : Toolchain) : Prop := ∀ text input cpuLimit memLimit,
  (T.program text input cpuLimit memLimit).files = []

/-- Which steps succeed. A file that is written cannot be opened, or so many
bytes of it are stored. What the log buffer of the server holds when the child of
`Run` is forked is here, too. -/
structure Outcomes where
  writeSrc : Option Nat
  writeStdin : Option Nat
  forkGxx : Bool
  openGxxErr : Bool
  execGxx : Bool
  openIn : Bool
  openOut : Bool
  openErr : Bool
  forkRun : Bool
  execRun : Bool
  readDesc : Bool
  readOut : Bool
  readErr : Bool
  pending : Str

variable (T : Toolchain) (o : Outcomes) (fileName : Str)

/-- `CodeToDesc`. -/
def codeToDesc (code : Int) : StateM Fs Str :=
  match code with
  | 0 => return "编译运行成功".toList
  | -1 => return "提交代码为空".toList
  | -2 => return "未知错误".toList
  | -3 => return (← FileUtil.readFile o.readDesc (compilerError fileName) true).2
  | 6 => return "内存超过范围".toList
  | 24 => return "CPU使用超时".toList
  | 8 => return "浮点数溢出".toList
  | 11 => return "段错误".toList
  | code => return "未知错误".toList ++ toStringI code

/-- A file of `RemoveTempFile`. -/
def removeFile (path : Str) : StateM Fs Unit := do
  if ← FileUtil.isFileExits path then unlink path

def removeTempFile : StateM Fs Unit := (tempFiles fileName).forM removeFile

/-- What `g++` leaves of its files. -/
def gxxWrites (exe : Option Str) (unlinks : Bool) (diagnostics : Str) : StateM Fs Unit := do
  match exe with
  | some text => writeAt (PathUtil.exe fileName) (some text)
  | none => if unlinks then unlink (PathUtil.exe fileName) else pure ()
  overwrite (compilerError fileName) diagnostics

/-- The `exec` of `g++` in the child of `Compile`. -/
def execGxx : StateM Fs Unit :=
  if o.execGxx then do
    let source ← readAt (src fileName)
    gxxWrites fileName (T.gxx source).1 (T.unlinks source) (T.gxx source).2
  else return ()

/-- The child of `Compile`. -/
def gxxChild : StateM Fs Unit := do
  if ← openCreat o.openGxxErr (compilerError fileName) then execGxx T o fileName
  else return ()

/-- `Compiler::Compile`. -/
def compile : StateM Fs Bool := do
  if o.forkGxx then
    gxxChild T o fileName
    FileUtil.isFileExits (exe fileName)
  else return false

/-- The child of `Run` up to its `exec`: what the program does, or nothing if it
is not run. -/
def execute (cpuLimit memLimit : Int) : StateM Fs (Option Ran) := do
  let program ← readAt (exe fileName)
  let input ← readAt (stdin fileName)
  match program with
  | some text =>
    if o.execRun then return some (T.program text (input.getD []) cpuLimit memLimit)
    else return none
  | none => return none

def Ran.leave (r : Ran) : StateM Fs Unit := r.files.forM fun (path, text) => writeAt path text

/-- What the child leaves of its files, and its status. If no program is run,
`exit(1)` writes out the child's copy of the log buffer, and to what is its
standard output by then. -/
def childWrites : Option Ran → StateM Fs Nat
  | none => do
    overwrite (stdout fileName) o.pending
    return 256
  | some r => do
    overwrite (stdout fileName) r.stdout
    overwrite (stderr fileName) r.stderr
    r.leave
    return r.status

/-- `Runner::Run`. -/
def run (cpuLimit memLimit : Int) : StateM Fs Int := do
  let inFd ← openCreat o.openIn (stdin fileName)
  let outFd ← openCreat o.openOut (stdout fileName)
  let errFd ← openCreat o.openErr (stderr fileName)
  if inFd && outFd && errFd then
    if o.forkRun then
      let ran ← execute T o fileName cpuLimit memLimit
      let status ← childWrites o fileName ran
      return ((status &&& 0x7F : Nat) : Int)
    else return -2
  else return -1

/-- The status code after `Run`. -/
def statusOfRun (runResult : Int) : Int := if runResult < 0 then -2 else runResult

/-- `out_value`: the status and the reason, and the output of a program that
ended well. -/
def outValue (status : Int) (reason : Str) (output : Option (Str × Str)) : Json :=
  .obj (("status".toList, .int status) :: ("reason".toList, .str reason) ::
    match output with
    | none => []
    | some (out, err) => [("stdout".toList, .str out), ("stderr".toList, .str err)])

/-- From the label `END` on: the answer. -/
def finish (status : Int) : StateM Fs Str := do
  let reason ← codeToDesc o fileName status
  if status = 0 then
    let out ← FileUtil.readFile o.readOut (stdout fileName) true
    let err ← FileUtil.readFile o.readErr (stderr fileName) true
    removeTempFile fileName
    return T.write (outValue status reason (some (out.2, err.2)))
  else
    removeTempFile fileName
    return T.write (outValue status reason none)

/-- `Start`, where `UniqFileName` returns `name`. -/
def start (sub : Submission) (name : Str) : StateM Fs Str := do
  if sub.code = [] then finish T o [] (-1)
  else if ← FileUtil.writeFile o.writeSrc (src name) sub.code then
    if ← FileUtil.writeFile o.writeStdin (stdin name) sub.input then
      if ← compile T o name then
        finish T o name (statusOfRun (← run T o name sub.cpuLimit sub.memLimit))
      else finish T o name (-3)
    else finish T o name (-2)
  else finish T o name (-2)

end OJ.CompileServer
