import DistributedOj.OjServer.Progress
import DistributedOj.OjServer.Requests
import DistributedOj.OjServer.Users

/-!
# The handlers

The handlers that `oj_server.cc` registers, on the sessions and the tables
(`ServerState`). A handler may send statements that change tables, post code, and
dereference `sessions.end()` (`Effect`); an exception leaves it, or it takes
the process down (`Stop`). What is outside the repository is a parameter: the
libraries (`Library`), and what a request meets (`World`): MySQL, random
numbers, the clock, the value of `User.id` that nothing sets, what is behind
`sessions.end()`, and what becomes of the loop of `Judge`.
-/

namespace OJ.Server

open OJ.Comm OJ.Framework

/-- jsoncpp's two parsers and its writer, MD5 and the time zone. -/
structure Library where
  reader : JsonReader
  parseFromStream : Str → Bool × Json
  fastWrite : Json → Str
  md5 : Str → Digest
  clock : Clock

/-- What a request meets: `userId` is in a new `User`, `stray` is behind
`sessions.end()` (or nothing, and the process crashes), and `Judge` makes
`posts` POSTs and leaves `outJson`. -/
structure World where
  mysql : MySQL
  salt : Str
  sessionId : SessionId
  userId : Int
  stray : Option Str
  time : Int
  posts : Nat
  outJson : Str

structure ServerState where
  sessions : Str → Option Str
  db : Db

/-- What a handler does besides answering. -/
inductive Effect where
  | sent (stmt : Stmt)
  | posted (body : Str)
  | strayed
  deriving DecidableEq

/-- What ends a handler early. -/
inductive Stop where
  | threw
  | crashed
  deriving DecidableEq

/-- What the view makes a page of. -/
inductive Page where
  | allQuestions (questions : List Question)
  | oneQuestion (q : Question)
  | allUsers (users : List User)
  | userDetail (user : User) (progress : List UserProgress)

inductive Content where
  | json (v : Json)
  | text (s : Str)
  | page (p : Page)

/-- `httplib::Response`, as a handler fills it in. -/
structure Reply where
  content : Content
  setCookie : Option Str

/-! ## Steps of a handler -/

abbrev Handling := ExceptT Stop (Logged ServerState Effect)

namespace Handling

variable {α β : Type}

def run (x : Handling α) (s : ServerState × List Effect) : Except Stop α × ServerState × List Effect :=
  (show Logged ServerState Effect (Except Stop α) from x).run s

/-- What is done with the database. -/
def sql (x : Sql α) : Handling α := ExceptT.lift fun s =>
  let y := x.run (s.1.db, [])
  (y.1, { s.1 with db := y.2.1 }, s.2 ++ y.2.2.map .sent)

def note (e : Effect) : Handling Unit := ExceptT.lift (Logged.note e)

def ofExcept {ε : Type} : Except ε α → Handling α
  | .ok a => return a
  | .error _ => throw .threw

def ofOption : Option α → Handling α
  | some a => return a
  | none => throw .threw

/-- `sessions.find`. -/
def find (sessionId : Str) : Handling (Option Str) := return (← get).1.sessions sessionId

/-- `it->second`, with `stray` behind `sessions.end()`. -/
def second (stray : Option Str) : Option Str → Handling Str
  | some username => return username
  | none => do
    note .strayed
    match stray with
    | some username => return username
    | none => throw .crashed

theorem run_bind (x : Handling α) (f : α → Handling β) (s : ServerState × List Effect) :
    run (x >>= f) s = match run x s with
      | (.ok a, s) => run (f a) s
      | (.error e, s) => (.error e, s) := by
  rcases h : run x s with ⟨_ | _, s⟩
  · have h : x _ = _ := h
    simp only [run, bind, ExceptT.bind, ExceptT.mk, StateT.bind, StateT.run, h]
    rfl
  · have h : x _ = _ := h
    simp only [run, bind, ExceptT.bind, ExceptT.mk, StateT.bind, StateT.run, h]
    rfl

theorem run_pure (a : α) (s : ServerState × List Effect) : run (pure a) s = (.ok a, s) := (rfl)

theorem run_sql (x : Sql α) (s : ServerState) (es : List Effect) :
    run (sql x) (s, es) = (.ok (x.run (s.db, [])).1,
      { s with db := (x.run (s.db, [])).2.1 }, es ++ (x.run (s.db, [])).2.2.map .sent) := (rfl)

theorem run_find (sessionId : Str) (s : ServerState) (es : List Effect) :
    run (find sessionId) (s, es) = (.ok (s.sessions sessionId), s, es) := (rfl)

theorem run_get (s : ServerState × List Effect) : run get s = (.ok s, s) := (rfl)

theorem run_ofExcept {ε : Type} (x : Except ε α) (s : ServerState × List Effect) :
    run (ofExcept x) s = (x.mapError fun _ => .threw, s) := by
  cases x with
  | ok => rfl
  | error => rfl

theorem run_ofOption (x : Option α) (s : ServerState × List Effect) :
    run (ofOption x) s = (match x with | some a => .ok a | none => .error .threw, s) := by
  cases x with
  | some => rfl
  | none => rfl

theorem run_second (stray found : Option Str) (s : ServerState) (es : List Effect) :
    run (second stray found) (s, es) = match found with
      | some username => (.ok username, s, es)
      | none => (match stray with | some username => .ok username | none => .error .crashed, s,
          es ++ [.strayed]) := by
  rcases found with _ | username
  · rcases stray with _ | username
    · rfl
    · rfl
  · rfl

end Handling

/-! ## Answers -/

def Reply.json (fields : List (String × Json)) : Reply :=
  ⟨.json (.obj (fields.map fun x => (x.1.toList, x.2))), none⟩

def Reply.text (s : Str) : Reply := ⟨.text s, none⟩

def Reply.page (p : Page) : Reply := ⟨.page p, none⟩

/-- An answer with `success`. -/
def answer (success : Bool) : Reply := .json [("success", .bool success)]

def failure (error : Str) : Reply := .json [("error", .str error), ("success", .bool false)]

/-! ## The handlers -/

section
variable (L : Library) (w : World) (req : Request)

open Handling

/-- `get(key, "").asString()`. -/
def stringAt (v : Json) (key : String) : Handling Str :=
  ofExcept do L.reader.asString (← L.reader.get v key.toList (.str []))

def handleEditUser : Handling Reply := do
  let (ok, json_data) ← ofExcept (L.reader.parse req.body)
  if !ok then
    return failure "Invalid JSON data".toList
  let number ← stringAt L json_data "number"
  let username ← stringAt L json_data "username"
  let password ← stringAt L json_data "password"
  let role ← stringAt L json_data "role"
  match ← find req.sessionId with
  | some username2 =>
    if ← sql (isAdmin w.mysql w.userId username2) then
      return answer (← sql (editUser w.mysql L.md5 w.salt number username password role))
    else
      return failure "You are not admin".toList
  | none => return failure "Invalid session".toList

def handleDeleteUser (userId : Digits) : Handling Reply := do
  match ← find req.sessionId with
  | some username =>
    if ← sql (isAdmin w.mysql w.userId username) then
      return answer (← sql (deleteUserById w.mysql userId.val))
    else
      return failure "You are not admin".toList
  | none => return failure "Invalid session".toList

def handleAddUser : Handling Reply := do
  let (ok, req_data) ← ofExcept (L.reader.parse req.body)
  if ok then
    let username ← stringAt L req_data "username"
    let password ← stringAt L req_data "password"
    let role ← stringAt L req_data "role"
    match ← find req.sessionId with
    | some username2 =>
      if ← sql (isAdmin w.mysql w.userId username2) then
        let newUser : User := { User.new w.userId with
          name := username
          password := generateSaltedMD5 L.md5 password w.salt
          salt := w.salt
          isAdmin := roleOf role }
        return answer (← sql (insertUserByAdmin w.mysql newUser))
      else
        return failure "You are not admin".toList
    | none => return failure "Invalid session".toList
  else
    return failure "Invalid JSON format".toList

def handleGetUserInfo : Handling Reply := do
  match ← find req.sessionId with
  | some username =>
    let (ok, user) ← sql (getUserInfo w.mysql username (.new w.userId))
    if ok then
      return .json [("isAdmin", .int user.isAdmin), ("success", .bool true), ("username", .str user.name)]
    else
      return .text "User not found".toList
  | none => return .text "Invalid session".toList

def handleRegister : Handling Reply := do
  let username := req.paramOrFile "username".toList
  let password := req.paramOrFile "password".toList
  let newUser : User := { User.new w.userId with
    name := username
    password := generateSaltedMD5 L.md5 password w.salt
    salt := w.salt }
  return answer (← sql (addUser w.mysql newUser))

def handleLogin : Handling Reply := do
  let username := req.paramOrFile "username".toList
  let password := req.paramOrFile "password".toList
  if ← sql (loginUser w.mysql L.md5 w.userId username password) then
    let sessionId := w.sessionId.val
    modify fun s => ({ s.1 with sessions := Function.update s.1.sessions sessionId (some username) }, s.2)
    let reply := Reply.json [("session_id", .str sessionId), ("success", .str "success".toList)]
    return { reply with setCookie := some ("session_id=".toList ++ sessionId) }
  else
    return .text "Login Failed".toList

def handleCheckLogin : Handling Reply := do
  match ← find req.sessionId with
  | some username => return .json [("success", .bool true), ("username", .str username)]
  | none => return answer false

def handleLogout : Handling Reply := do
  match ← find req.sessionId with
  | some _ =>
    modify fun s => ({ s.1 with sessions := Function.update s.1.sessions req.sessionId none }, s.2)
    return answer true
  | none => return answer false

/-- There is no look at the session. -/
def handleUpdateQuestion : Handling Reply := do
  match stoi (req.param "cpu_limit".toList), stoi (req.param "mem_limit".toList) with
  | some cpuLimit, some memLimit =>
    return answer (← sql (updateMysql w.mysql (.updateQuestion (req.param "title".toList)
      (req.param "star".toList) (req.param "desc".toList) (req.param "header".toList)
      (req.param "tail".toList) cpuLimit memLimit (req.param "number".toList))))
  | _, _ => return failure "stoi".toList

def handleAddQuestion : Handling Reply := do
  let _ ← second w.stray (← find req.sessionId)
  let (ok, jsonData) := L.parseFromStream req.body
  if !ok then
    return failure "Invalid JSON data".toList
  let title ← stringAt L jsonData "title"
  let star ← stringAt L jsonData "star"
  let questionDesc ← stringAt L jsonData "question_desc"
  let header ← stringAt L jsonData "header"
  let tail ← stringAt L jsonData "tail"
  let timeLimit ← stringAt L jsonData "time_limit"
  let memLimit ← stringAt L jsonData "mem_limit"
  if !isValidNumber timeLimit || !isValidNumber memLimit then
    return failure "Invalid time_limit or mem_limit value".toList
  match stoi timeLimit, stoi memLimit with
  | some timeLimit, some memLimit =>
    if ← sql (updateMysql w.mysql
        (.insertQuestion title star questionDesc header tail timeLimit memLimit)) then
      return answer true
    else
      return failure "Failed to add question".toList
  | _, _ => return failure "stoi".toList

def handleDeleteQuestion (number : Digits) : Handling Reply := do
  match ← find req.sessionId with
  | none => return failure "Invalid session".toList
  | some username =>
    let (ok, user) ← sql (getUserInfo w.mysql username (.new w.userId))
    if ok && user.isAdmin != 0 then
      if ← sql (updateMysql w.mysql (.deleteQuestion number.val)) then
        return answer true
      else
        return failure "Failed to delete question".toList
    else
      return failure "You are not admin".toList

def handleSetCompleted (number : Digits) : Handling Reply := do
  let username ← second w.stray (← find req.sessionId)
  let (ok, user) ← sql (getUserInfo w.mysql username (.new w.userId))
  if ok then
    let questionId ← ofOption (stoi number.val)
    let _ ← sql (setCompleted w.mysql L.clock w.time (.new user.id questionId))
  return answer true

def handleGetUserProgress (number : Digits) : Handling Reply := do
  let username := (← find req.sessionId).getD []
  let (ok, user) ← sql (getUserInfo w.mysql username (.new w.userId))
  if ok then
    let questionId ← ofOption (stoi number.val)
    let (success, progress) ←
      sql (queryProgress w.mysql L.clock user.id questionId (.new user.id questionId))
    if success then
      return .json [("completed", .bool progress.isCompleted),
        ("submit_times", .int progress.attemptCount), ("success", .bool true)]
    else
      return .json [("completed", .bool false), ("error", .str "Failed to get user progress".toList),
        ("submit_times", .int 0), ("success", .bool false)]
  else
    return failure "User not found".toList

def handleAllUsers : Handling Reply := do
  match ← sql (getAllUsers w.mysql) with
  | some all => return .page (.allUsers all)
  | none => return .text "获取用户失败".toList

def handleAllQuestions : Handling Reply := do
  match w.mysql.allQuestions (← get).1.db with
  | some all =>
    let all := (all.map QuestionRow.read).mergeSort fun q1 q2 => atoi q1.number ≤ atoi q2.number
    return .page (.allQuestions all)
  | none => return .text "获取题目失败".toList

/-- `GetTheUser`, which leaves the page empty if it cannot read the user. -/
def handleUser (id : Digits) : Handling Reply := do
  let (ok, user) ← sql (queryUserById w.mysql id.val (.new w.userId))
  if ok then
    match w.mysql.completed user.id (← get).1.db with
    | some rows => return .page (.userDetail user (rows.map (·.read L.clock)))
    | none => return .text ("指定用户: ".toList ++ id.val ++ " 不存在!".toList)
  else
    return .text []

def handleQuestion (number : Digits) : Handling Reply := do
  let (ok, q) := getOneQuestion w.mysql (← get).1.db number.val .new
  if ok then
    return .page (.oneQuestion q)
  else
    return .text ("指定题目: ".toList ++ number.val ++ " 不存在!".toList)

/-- `Control::Judge`. -/
def judge (number : Digits) : Handling Str := do
  let compileString ←
    ofExcept (compileString L.reader L.fastWrite w.mysql (← get).1.db number.val req.body)
  modify fun s => (s.1, s.2 ++ List.replicate w.posts (.posted compileString))
  return w.outJson

def handleJudge (number : Digits) : Handling Reply := do
  let username ← second w.stray (← find req.sessionId)
  let (ok, user) ← sql (getUserInfo w.mysql username (.new w.userId))
  if ok then
    let questionId ← ofOption (stoi number.val)
    let _ ← sql (addOrUpdateUserProgress w.mysql L.clock (.new user.id questionId))
  return .text (← judge L w req number)

def handle : Handling Reply :=
  match req.path with
  | .editUser => handleEditUser L w req
  | .deleteUser userId => handleDeleteUser w req userId
  | .addUser => handleAddUser L w req
  | .getUserInfo => handleGetUserInfo w req
  | .register => handleRegister L w req
  | .login => handleLogin L w req
  | .check_login => handleCheckLogin req
  | .logout => handleLogout req
  | .updateQuestion => handleUpdateQuestion w req
  | .addQuestion => handleAddQuestion L w req
  | .deleteQuestion number => handleDeleteQuestion w req number
  | .setCompleted number => handleSetCompleted L w req number
  | .getUserProgress number => handleGetUserProgress L w req number
  | .all_users => handleAllUsers w
  | .all_questions => handleAllQuestions w
  | .user id => handleUser L w id
  | .question number => handleQuestion w number
  | .judge number => handleJudge L w req number

/-- A request in one piece: the answer or what ended it, the server after it
and what it did. -/
def serve (s : ServerState) : Except Stop Reply × ServerState × List Effect :=
  (handle L w req).run (s, [])

end

/-- Libraries for requests without JSON and the password `pw` without salt. -/
def Library.sample : Library where
  reader := .documented (fun _ => .ok (false, .null)) fun _ => []
  parseFromStream _ := (false, .null)
  fastWrite _ := "null\n".toList
  md5 _ := ⟨"8fe4c11451281c094a6578e6ddbf5eed".toList, by decide⟩
  clock := .utc

/-- A request that meets MySQL without errors, and a session id made of one
letter. -/
def World.sample (letter : {c : Char // c.isAlphanum}) : World where
  mysql := .exact id
  salt := []
  sessionId := ⟨List.replicate 32 letter.val, by simp [letter.property]⟩
  userId := 0
  stray := none
  time := 1700000000
  posts := 0
  outJson := []

abbrev World.k : World := .sample ⟨'k', by decide⟩

/-- A request of `bob` with the password `pw`. -/
def Request.bob (path : Path) : Request :=
  ⟨path, "session_id=kkkkkkkkkkkkkkkkkkkkkkkkkkkkkkkk".toList,
    [("username".toList, "bob".toList), ("password".toList, "pw".toList)], [], []⟩

end OJ.Server
