import DistributedOj.OjServer.Handlers

/-!
# What a request does

One request changes the server in one of a few ways (`Did`): an administrator's
statement, a statement that anyone may have sent, a call of
`UserProgressControl`, a login, a logout, or nothing. `did` reads this off the
handlers; what holds of every run is proved by cases on it.
-/

namespace OJ.Server

open OJ.Comm OJ.Framework

/-! ## Rules for the steps of a handler -/

namespace Handling

variable {α β : Type} {P : Except Stop β × ServerState × List Effect → Prop}

theorem of_ofExcept {ε : Type} {x : Except ε α} {f : α → Handling β} {t : ServerState × List Effect}
    (hf : ∀ a, x = .ok a → P (run (f a) t)) (he : P (.error .threw, t)) : P (run (ofExcept x >>= f) t) := by
  rw [run_bind, run_ofExcept]
  cases x with
  | ok a => exact hf a rfl
  | error e => exact he

theorem of_ofOption {x : Option α} {f : α → Handling β} {t : ServerState × List Effect}
    (hf : ∀ a, x = some a → P (run (f a) t)) (he : P (.error .threw, t)) :
    P (run (ofOption x >>= f) t) := by
  rw [run_bind, run_ofOption]
  cases x with
  | some a => exact hf a rfl
  | none => exact he

theorem of_second {stray found : Option Str} {f : Str → Handling β} {s : ServerState}
    (hf : ∀ username, found.or stray = some username →
      P (run (f username) (s, if found.isSome then [] else [.strayed])))
    (he : P (.error .crashed, s, [.strayed])) : P (run (second stray found >>= f) (s, [])) := by
  rw [run_bind, run_second]
  rcases found with _ | username
  · rcases stray with _ | username
    · exact he
    · exact hf username rfl
  · exact hf username rfl

theorem run_find_bind (sessionId : Str) (f : Option Str → Handling β) (s : ServerState)
    (es : List Effect) :
    run (find sessionId >>= f) (s, es) = run (f (s.sessions sessionId)) (s, es) := by
  rw [run_bind, run_find]

theorem run_sql_bind (x : Sql α) (f : α → Handling β) (s : ServerState) (es : List Effect) :
    run (sql x >>= f) (s, es) = run (f (x.run (s.db, [])).1)
      ({ s with db := (x.run (s.db, [])).2.1 }, es ++ (x.run (s.db, [])).2.2.map .sent) := by
  rw [run_bind, run_sql]

theorem run_getUserInfo_bind (m : MySQL) (username : Str) (u : User) (f : Bool × User → Handling β)
    (s : ServerState) (es : List Effect) :
    run (sql (getUserInfo m username u) >>= f) (s, es) = run (f (u.of (m.user username s.db))) (s, es) := by
  rw [run_sql_bind, getUserInfo, run_queryUser, List.map_nil, List.append_nil]

theorem run_isAdmin_bind (m : MySQL) (id : Int) (username : Str) (f : Bool → Handling β)
    (s : ServerState) (es : List Effect) :
    run (sql (isAdmin m id username) >>= f) (s, es) =
      run (f (((User.new id).of (m.user username s.db)).1 &&
        ((User.new id).of (m.user username s.db)).2.isAdmin != 0)) (s, es) := by
  rw [run_sql_bind, run_isAdmin, List.map_nil, List.append_nil]

/-- A field of the JSON value of a body. -/
def textAt (L : Library) (v : Json) (key : String) : Except JsonException Str := do
  L.reader.asString (← L.reader.get v key.toList (.str []))

theorem run_stringAt_bind {L : Library} {v : Json} {key : String} {text : Str}
    (h : textAt L v key = .ok text) (f : Str → Handling β) (t : ServerState × List Effect) :
    run (stringAt L v key >>= f) t = run (f text) t := by
  rw [run_bind, stringAt, run_ofExcept, ← textAt, h]
  rfl

theorem of_stringAt {L : Library} {v : Json} {key : String} {f : Str → Handling β}
    {t : ServerState × List Effect} (hf : ∀ text, textAt L v key = .ok text → P (run (f text) t))
    (he : ∀ e, textAt L v key = .error e → P (.error .threw, t)) : P (run (stringAt L v key >>= f) t) := by
  rw [run_bind, stringAt, run_ofExcept, ← textAt]
  cases h : textAt L v key with
  | ok text => exact hf text h
  | error e => exact he e h

end Handling

/-! ## What is done -/

def Effect.stmt : Effect → Option Stmt
  | sent stmt => some stmt
  | _ => none

/-- The statements among what a request did. -/
def sentBy (es : List Effect) : List Stmt := es.filterMap Effect.stmt

def ServerState.exec (m : MySQL) (stmt : Stmt) (s : ServerState) : ServerState :=
  { s with db := (m.exec stmt s.db).getD s.db }

/-- The statements that only an administrator's request sends. -/
inductive ByAdmin : Path → Stmt → Prop
  | editUser {username password salt : Str} {isAdmin userid : Int} :
      ByAdmin .editUser (.updateUserById username password salt isAdmin userid)
  | deleteUser {userId : Digits} : ByAdmin (.deleteUser userId) (.deleteUserById userId.val)
  | addUser {username password salt : Str} {isAdmin : Int} :
      ByAdmin .addUser (.insertUserByAdmin username password salt isAdmin)
  | deleteQuestion {number : Digits} : ByAdmin (.deleteQuestion number) (.deleteQuestion number.val)

/-- The statements that anyone's request may send. -/
inductive ByAnyone : Path → Stmt → Prop
  | register {username password salt : Str} : ByAnyone .register (.addUser username password salt)
  | updateQuestion {title star desc header tail : Str} {cpuLimit memLimit : Int} {number : Str} :
      ByAnyone .updateQuestion
        (.updateQuestion title star desc header tail cpuLimit memLimit number)
  | addQuestion {title star desc header tail : Str} {timeLimit memLimit : Int} :
      ByAnyone .addQuestion (.insertQuestion title star desc header tail timeLimit memLimit)

/-- The handlers that call `UserProgressControl`, with the call. -/
inductive ByUser (time : Int) : Path → Digits → ProgressCall → Prop
  | setCompleted {number : Digits} : ByUser time (.setCompleted number) number (.setCompleted time)
  | judge {number : Digits} : ByUser time (.judge number) number .addOrUpdateUserProgress

/-- The `User` that `GetUserInfo` leaves, and whether it succeeds. -/
def userInfo (w : World) (username : Str) (db : Db) : Bool × User :=
  (User.new w.userId).of (w.mysql.user username db)

section
variable (L : Library) (w : World) (req : Request) (s : ServerState)

/-- What a request may do: the statements it sends and the server after it. -/
inductive Did : List Stmt → ServerState → Prop
  | nothing : Did [] s
  | admin {username : Str} {stmt : Stmt} : s.sessions req.sessionId = some username →
      AdminIn w.mysql username s.db → ByAdmin req.path stmt → Did [stmt] (s.exec w.mysql stmt)
  | anyone {stmt : Stmt} : ByAnyone req.path stmt → Did [stmt] (s.exec w.mysql stmt)
  | progress {username : Str} {number : Digits} {c : ProgressCall} {questionId : Int}
      {x : Bool × Db × List Stmt} : ByUser w.time req.path number c →
      (s.sessions req.sessionId).or w.stray = some username →
      (userInfo w username s.db).1 = true → stoi number.val = some questionId →
      (c.run w.mysql L.clock (userInfo w username s.db).2.id questionId).run (s.db, []) = x →
      Did x.2.2 { s with db := x.2.1 }
  | login {r : UserRow} : req.path = .login →
      LoggedIn w.mysql L.md5 (req.paramOrFile "username".toList) (req.paramOrFile "password".toList)
        s.db r →
      Did [] { s with
        sessions := Function.update s.sessions w.sessionId.val
          (some (req.paramOrFile "username".toList)) }
  | logout {username : Str} : req.path = .logout → s.sessions req.sessionId = some username →
      Did [] { s with sessions := Function.update s.sessions req.sessionId none }

/-- A handler that has come to `x` has done so. -/
def Leads (x : Except Stop Reply × ServerState × List Effect) : Prop :=
  Did L w req s (sentBy x.2.2) x.2.1

end

section
variable {L : Library} {w : World} {req : Request} {s : ServerState}

open Handling

theorem leads_nothing {reply : Except Stop Reply} {es : List Effect} (h : sentBy es = []) :
    Leads L w req s (reply, s, es) := by
  rw [Leads, h]
  exact .nothing

theorem run_updateMysql_bind (stmt : Stmt) {f : Bool → Handling Reply} {g : Bool → Reply}
    (hf : ∀ ok, f ok = pure (g ok)) (es : List Effect) :
    run (sql (updateMysql w.mysql stmt) >>= f) (s, es) =
      (.ok (g (w.mysql.exec stmt s.db).isSome), s.exec w.mysql stmt, es ++ [.sent stmt]) := by
  rw [run_sql_bind, run_updateMysql, hf, run_pure]
  rfl

/-- A statement, then an answer. -/
theorem leads_updateMysql {stmt : Stmt} {f : Bool → Handling Reply}
    (h : Did L w req s [stmt] (s.exec w.mysql stmt)) {es : List Effect} (hes : sentBy es = [])
    (hf : ∀ ok, ∃ reply, f ok = pure reply) :
    Leads L w req s (run (sql (updateMysql w.mysql stmt) >>= f) (s, es)) := by
  choose g hg using hf
  rw [run_updateMysql_bind stmt hg, Leads, sentBy, List.filterMap_append, ← sentBy, hes]
  exact h

/-- A statement of an administrator, and an answer. -/
theorem leads_byAdmin {username error : Str} {stmt : Stmt}
    (hs : s.sessions req.sessionId = some username) (hb : ByAdmin req.path stmt) :
    Leads L w req s (run (do
      if ← sql (isAdmin w.mysql w.userId username) then
        return answer (← sql (updateMysql w.mysql stmt))
      else
        return failure error) (s, [])) := by
  rw [run_isAdmin_bind]
  split
  · next ha => exact leads_updateMysql (.admin hs (admin_iff.mp ha) hb) rfl fun _ => ⟨_, rfl⟩
  · exact leads_nothing rfl

theorem leads_editUser (hp : req.path = .editUser) :
    Leads L w req s (run (handleEditUser L w req) (s, [])) := by
  rw [handleEditUser]
  refine of_ofExcept (fun parsed _ => ?_) (leads_nothing rfl)
  rcases parsed with ⟨_ | _, json_data⟩
  · exact leads_nothing rfl
  refine of_ofExcept (fun number _ => ?_) (leads_nothing rfl)
  refine of_ofExcept (fun username _ => ?_) (leads_nothing rfl)
  refine of_ofExcept (fun password _ => ?_) (leads_nothing rfl)
  refine of_ofExcept (fun role _ => ?_) (leads_nothing rfl)
  rw [run_find_bind]
  rcases hs : s.sessions req.sessionId with _ | username2
  · exact leads_nothing rfl
  · exact leads_byAdmin hs (hp ▸ .editUser)

theorem leads_deleteUser {userId : Digits} (hp : req.path = .deleteUser userId) :
    Leads L w req s (run (handleDeleteUser w req userId) (s, [])) := by
  rw [handleDeleteUser, run_find_bind]
  rcases hs : s.sessions req.sessionId with _ | username
  · exact leads_nothing rfl
  · exact leads_byAdmin hs (hp ▸ .deleteUser)

theorem leads_addUser (hp : req.path = .addUser) :
    Leads L w req s (run (handleAddUser L w req) (s, [])) := by
  rw [handleAddUser]
  refine of_ofExcept (fun parsed _ => ?_) (leads_nothing rfl)
  rcases parsed with ⟨_ | _, req_data⟩
  · exact leads_nothing rfl
  refine of_ofExcept (fun username _ => ?_) (leads_nothing rfl)
  refine of_ofExcept (fun password _ => ?_) (leads_nothing rfl)
  refine of_ofExcept (fun role _ => ?_) (leads_nothing rfl)
  rw [run_find_bind]
  rcases hs : s.sessions req.sessionId with _ | username2
  · exact leads_nothing rfl
  · exact leads_byAdmin hs (hp ▸ .addUser)

theorem leads_getUserInfo : Leads L w req s (run (handleGetUserInfo w req) (s, [])) := by
  rw [handleGetUserInfo, run_find_bind]
  rcases s.sessions req.sessionId with _ | username
  · exact leads_nothing rfl
  dsimp only
  rw [run_getUserInfo_bind]
  split
  · exact leads_nothing rfl
  · exact leads_nothing rfl

theorem leads_register (hp : req.path = .register) :
    Leads L w req s (run (handleRegister L w req) (s, [])) :=
  leads_updateMysql (.anyone (hp ▸ .register)) rfl fun _ => ⟨_, rfl⟩

theorem leads_login (hp : req.path = .login) :
    Leads L w req s (run (handleLogin L w req) (s, [])) := by
  rw [handleLogin, run_sql_bind, run_loginUser]
  dsimp only
  split
  · next ha =>
    obtain ⟨r, hr⟩ := loggedIn_iff.mp ha
    exact .login hp hr
  · exact leads_nothing rfl

theorem leads_checkLogin : Leads L w req s (run (handleCheckLogin req) (s, [])) := by
  rw [handleCheckLogin, run_find_bind]
  rcases s.sessions req.sessionId with _ | username
  · exact leads_nothing rfl
  · exact leads_nothing rfl

theorem leads_logout (hp : req.path = .logout) :
    Leads L w req s (run (handleLogout req) (s, [])) := by
  rw [handleLogout, run_find_bind]
  rcases hs : s.sessions req.sessionId with _ | username
  · exact leads_nothing rfl
  · exact .logout hp hs

theorem leads_updateQuestion (hp : req.path = .updateQuestion) :
    Leads L w req s (run (handleUpdateQuestion w req) (s, [])) := by
  rw [handleUpdateQuestion]
  split
  · exact leads_updateMysql (.anyone (hp ▸ .updateQuestion)) rfl fun _ => ⟨_, rfl⟩
  · exact leads_nothing rfl

/-- A dereference sends no statement. -/
theorem sentBy_strayed {b : Bool} : sentBy (if b then [] else [.strayed]) = [] := by
  cases b with
  | false => rfl
  | true => rfl

theorem sentBy_append (es es' : List Effect) : sentBy (es ++ es') = sentBy es ++ sentBy es' :=
  List.filterMap_append

/-- Nothing is sent, and without a session `sessions.end()` is dereferenced. -/
def Quiet (req : Request) (s : ServerState) (es : List Effect) : Prop :=
  sentBy es = [] ∧ (s.sessions req.sessionId = none → .strayed ∈ es)

/-- What `/addQuestion` comes to: nothing, or a question whose limits it has
checked. -/
inductive Added (w : World) (req : Request) (s : ServerState) :
    Except Stop Reply × ServerState × List Effect → Prop
  | nothing {reply : Except Stop Reply} {es : List Effect} : Quiet req s es → Added w req s (reply, s, es)
  | sent {reply : Except Stop Reply} {es : List Effect}
      {title star questionDesc header tail timeLimit memLimit : Str} {cpu mem : Int} :
      Quiet req s es → isValidNumber timeLimit = true → stoi timeLimit = some cpu →
      isValidNumber memLimit = true → stoi memLimit = some mem →
      Added w req s (reply, s.exec w.mysql (.insertQuestion title star questionDesc header tail cpu mem),
        es ++ [.sent (.insertQuestion title star questionDesc header tail cpu mem)])

theorem added : Added w req s (run (handleAddQuestion L w req) (s, [])) := by
  rw [handleAddQuestion, run_find_bind]
  have hquiet : Quiet req s (if (s.sessions req.sessionId).isSome then [] else [.strayed]) := by
    refine ⟨sentBy_strayed, fun hs => ?_⟩
    rw [hs]
    exact List.mem_singleton_self _
  have here (reply : Except Stop Reply) : Added w req s (reply, s, _) := .nothing hquiet
  refine of_second (fun username _ => ?_) (.nothing ⟨rfl, fun _ => List.mem_singleton_self _⟩)
  rcases L.parseFromStream req.body with ⟨_ | _, jsonData⟩
  · exact here _
  refine of_ofExcept (fun title _ => ?_) (here _)
  refine of_ofExcept (fun star _ => ?_) (here _)
  refine of_ofExcept (fun questionDesc _ => ?_) (here _)
  refine of_ofExcept (fun header _ => ?_) (here _)
  refine of_ofExcept (fun tail _ => ?_) (here _)
  refine of_ofExcept (fun timeLimit _ => ?_) (here _)
  refine of_ofExcept (fun memLimit _ => ?_) (here _)
  split
  · exact here _
  next hv =>
  simp only [Bool.or_eq_true, Bool.not_eq_true', not_or, Bool.not_eq_false] at hv
  split
  · next cpu mem hcpu hmem =>
    have hreply (ok : Bool) : (if ok then pure (answer true)
        else pure (failure "Failed to add question".toList) : Handling Reply) =
        pure (if ok then answer true else failure "Failed to add question".toList) := by
      cases ok with
      | false => rfl
      | true => rfl
    rw [run_updateMysql_bind _ hreply]
    exact .sent hquiet hv.1 hcpu hv.2 hmem
  · exact here _

theorem leads_addQuestion (hp : req.path = .addQuestion) :
    Leads L w req s (run (handleAddQuestion L w req) (s, [])) := by
  have h : Added w req s (run (handleAddQuestion L w req) (s, [])) := added
  generalize run (handleAddQuestion L w req) (s, []) = x at h
  cases h with
  | nothing hq => exact leads_nothing hq.1
  | sent hq =>
    rw [Leads, sentBy_append, hq.1]
    exact .anyone (hp ▸ .addQuestion)

theorem leads_deleteQuestion {number : Digits} (hp : req.path = .deleteQuestion number) :
    Leads L w req s (run (handleDeleteQuestion w req number) (s, [])) := by
  rw [handleDeleteQuestion, run_find_bind]
  rcases hs : s.sessions req.sessionId with _ | username
  · exact leads_nothing rfl
  dsimp only
  rw [run_getUserInfo_bind]
  split
  · next ha =>
    refine leads_updateMysql (.admin hs (admin_iff.mp ha) (hp ▸ .deleteQuestion)) rfl fun ok => ?_
    cases ok with
    | false => exact ⟨_, rfl⟩
    | true => exact ⟨_, rfl⟩
  · exact leads_nothing rfl

theorem sentBy_map_sent (stmts : List Stmt) : sentBy (stmts.map .sent) = stmts := by
  rw [sentBy, List.filterMap_map]
  exact List.filterMap_some

/-- A call of `UserProgressControl` as the last step. -/
theorem leads_call {username : Str} {number : Digits} {c : ProgressCall} {questionId : Int}
    (hp : ByUser w.time req.path number c)
    (hu : (s.sessions req.sessionId).or w.stray = some username)
    (hok : (userInfo w username s.db).1 = true) (hq : stoi number.val = some questionId)
    {reply : Except Stop Reply} {x : Bool × Db × List Stmt}
    (hx : (c.run w.mysql L.clock (userInfo w username s.db).2.id questionId).run (s.db, []) = x)
    {es : List Effect} (hes : sentBy es = []) :
    Leads L w req s (reply, { s with db := x.2.1 }, es ++ x.2.2.map .sent) := by
  have hsent : sentBy (es ++ x.2.2.map .sent) = x.2.2 := by
    rw [sentBy_append, hes, sentBy_map_sent, List.nil_append]
  rw [Leads, hsent]
  exact .progress hp hu hok hq hx

/-- What comes after it and sends no statement. -/
theorem Leads.concat {reply : Except Stop Reply} {t : ServerState} {es es' : List Effect}
    (h : Leads L w req s (reply, t, es)) (hes' : sentBy es' = []) :
    Leads L w req s (reply, t, es ++ es') := by
  rw [Leads, sentBy_append, hes', List.append_nil]
  exact h

theorem leads_setCompleted {number : Digits} (hp : req.path = .setCompleted number) :
    Leads L w req s (run (handleSetCompleted L w req number) (s, [])) := by
  rw [handleSetCompleted, run_find_bind]
  refine of_second (fun username hu => ?_) (leads_nothing rfl)
  rw [run_getUserInfo_bind]
  dsimp only
  split
  · next hok =>
    refine of_ofOption (fun questionId hq => ?_) (leads_nothing sentBy_strayed)
    rw [run_sql_bind, run_pure]
    have hc : ByUser w.time req.path number (.setCompleted w.time) := hp ▸ .setCompleted
    exact leads_call hc hu hok hq rfl sentBy_strayed
  · exact leads_nothing sentBy_strayed

theorem sentBy_posted (n : Nat) (body : Str) : sentBy (List.replicate n (.posted body)) = [] := by
  induction n with
  | zero => rfl
  | succ n ih => exact ih

variable (L w req) in
/-- `Judge` sends no statement. -/
theorem run_judge (number : Digits) (f : Str → Reply) (t : ServerState) (es : List Effect) :
    ∃ reply es', run (do return f (← judge L w req number)) (t, es) = (reply, t, es ++ es') ∧
      sentBy es' = [] := by
  rw [judge, run_bind, run_bind, run_get]
  dsimp only
  rw [run_bind, run_ofExcept]
  cases compileString L.reader L.fastWrite w.mysql t.db number.val req.body with
  | ok text => exact ⟨_, _, rfl, sentBy_posted _ _⟩
  | error e => exact ⟨_, [], by rw [List.append_nil]; rfl, rfl⟩

theorem leads_judge {number : Digits} (hp : req.path = .judge number) :
    Leads L w req s (run (handleJudge L w req number) (s, [])) := by
  rw [handleJudge, run_find_bind]
  refine of_second (fun username hu => ?_) (leads_nothing rfl)
  rw [run_getUserInfo_bind]
  dsimp only
  split
  · next hok =>
    refine of_ofOption (fun questionId hq => ?_) (leads_nothing sentBy_strayed)
    rw [run_sql_bind]
    obtain ⟨reply, es', he, hes'⟩ := run_judge L w req number .text _ _
    rw [he]
    have hc : ByUser w.time req.path number .addOrUpdateUserProgress := hp ▸ .judge
    exact (leads_call hc hu hok hq rfl sentBy_strayed).concat hes'
  · obtain ⟨reply, es', he, hes'⟩ := run_judge L w req number .text _ _
    rw [he]
    exact (leads_nothing sentBy_strayed).concat hes'

theorem leads_getUserProgress {number : Digits} :
    Leads L w req s (run (handleGetUserProgress L w req number) (s, [])) := by
  rw [handleGetUserProgress, run_find_bind, run_getUserInfo_bind]
  rcases (User.new w.userId).of _ with ⟨_ | _, user⟩
  · exact leads_nothing rfl
  refine of_ofOption (fun questionId _ => ?_) (leads_nothing rfl)
  rw [run_sql_bind, run_queryProgress_state]
  rcases (StateT.run (queryProgress _ _ _ _ _) _).1 with ⟨_ | _, progress⟩
  · exact leads_nothing rfl
  · exact leads_nothing rfl

theorem leads_allUsers : Leads L w req s (run (handleAllUsers w) (s, [])) := by
  rw [handleAllUsers, run_sql_bind, run_getAllUsers]
  dsimp only
  split
  · exact leads_nothing rfl
  · exact leads_nothing rfl

theorem leads_allQuestions : Leads L w req s (run (handleAllQuestions w) (s, [])) := by
  rw [handleAllQuestions, run_bind, run_get]
  dsimp only
  split
  · exact leads_nothing rfl
  · exact leads_nothing rfl

theorem leads_user {id : Digits} : Leads L w req s (run (handleUser L w id) (s, [])) := by
  rw [handleUser, run_sql_bind, run_queryUserById]
  rcases (User.new w.userId).of _ with ⟨_ | _, user⟩
  · exact leads_nothing rfl
  dsimp only
  rw [if_pos rfl, run_bind, run_get]
  dsimp only
  split
  · exact leads_nothing rfl
  · exact leads_nothing rfl

theorem leads_question {number : Digits} : Leads L w req s (run (handleQuestion w number) (s, [])) := by
  rw [handleQuestion, run_bind, run_get]
  dsimp only
  rcases getOneQuestion w.mysql s.db number.val .new with ⟨_ | _, q⟩
  · exact leads_nothing rfl
  · exact leads_nothing rfl

/-- One request does one of these things. -/
theorem did : Did L w req s (sentBy (serve L w req s).2.2) (serve L w req s).2.1 := by
  show Leads L w req s (run (handle L w req) (s, []))
  rw [handle]
  split
  case h_1 hp => exact leads_editUser hp
  case h_2 hp => exact leads_deleteUser hp
  case h_3 hp => exact leads_addUser hp
  case h_4 => exact leads_getUserInfo
  case h_5 hp => exact leads_register hp
  case h_6 hp => exact leads_login hp
  case h_7 => exact leads_checkLogin
  case h_8 hp => exact leads_logout hp
  case h_9 hp => exact leads_updateQuestion hp
  case h_10 hp => exact leads_addQuestion hp
  case h_11 hp => exact leads_deleteQuestion hp
  case h_12 hp => exact leads_setCompleted hp
  case h_13 => exact leads_getUserProgress
  case h_14 => exact leads_allUsers
  case h_15 => exact leads_allQuestions
  case h_16 => exact leads_user
  case h_17 => exact leads_question
  case h_18 hp => exact leads_judge hp

end

/-! ## Runs -/

/-- A request with what it meets. -/
abbrev Visit := World × Request

/-- The server with no one logged in. -/
def ServerState.start (db : Db) : ServerState := ⟨fun _ => none, db⟩

/-- A whole request, after which the process still runs: the requests of a run
are handled one after another. -/
def ServerState.step (L : Library) (s : ServerState) (e : Visit) : Option ServerState :=
  match serve L e.1 e.2 s with
  | (.error .crashed, _) => none
  | (_, t, _) => some t

/-- MySQL does for a request what its statements are meant to do, or fails. -/
def Meant (collate : Collation) (_ : ServerState) (e : Visit) : Prop := e.1.mysql.Meant collate

theorem ServerState.eq_of_step {L : Library} {s s' : ServerState} {e : Visit}
    (h : s.step L e = some s') : s' = (serve L e.1 e.2 s).2.1 := by
  rw [step] at h
  split at h
  · cases h
  · next h' =>
    rw [h']
    exact (Option.some.inj h).symm

theorem ServerState.did_of_step {L : Library} {s s' : ServerState} {e : Visit}
    (h : s.step L e = some s') : ∃ stmts, Did L e.1 e.2 s stmts s' :=
  ⟨_, eq_of_step h ▸ did⟩

theorem MySQL.Meant.of_exec {collate : Collation} {m : MySQL} (h : m.Meant collate) {stmt : Stmt}
    {db db' : Db} (he : m.exec stmt db = some db') : stmt.Does collate db db' := by
  rcases h.exec stmt db with e | ⟨db₀, hskips, e⟩
  · rw [he] at e
    cases e
  · exact ⟨db₀, hskips, e.symm.trans he⟩

/-- What MySQL does with a statement is nothing or what is meant. -/
theorem MySQL.Meant.exec_cases {collate : Collation} {m : MySQL} (h : m.Meant collate) (stmt : Stmt)
    (db : Db) : (m.exec stmt db).getD db = db ∨ stmt.Does collate db ((m.exec stmt db).getD db) := by
  cases he : m.exec stmt db with
  | none => exact .inl rfl
  | some db' => exact .inr (h.of_exec he)

/-- A request leaves the tables alone, or one of its statements does what is
meant. -/
theorem Did.db_cases {collate : Collation} {L : Library} {w : World} {req : Request}
    {s s' : ServerState} {stmts : List Stmt} (h : Did L w req s stmts s') (hm : w.mysql.Meant collate) :
    s'.db = s.db ∨ ∃ stmt ∈ stmts, w.mysql.exec stmt s.db = some s'.db ∧ stmt.Does collate s.db s'.db := by
  have one (stmt : Stmt) : (w.mysql.exec stmt s.db).getD s.db = s.db ∨ ∃ stmt' ∈ [stmt],
      w.mysql.exec stmt' s.db = some ((w.mysql.exec stmt s.db).getD s.db) ∧
        stmt'.Does collate s.db ((w.mysql.exec stmt s.db).getD s.db) := by
    cases he : w.mysql.exec stmt s.db with
    | none => exact .inl rfl
    | some db' => exact .inr ⟨stmt, List.mem_singleton_self _, he, hm.of_exec he⟩
  cases h with
  | nothing | login | logout => exact .inl rfl
  | admin | anyone => exact one _
  | progress _ _ _ _ hx =>
    rw [ProgressCall.run_stmt] at hx
    subst hx
    exact one _

section
variable {collate : Collation} {L : Library} {s s' : ServerState} {e : Visit}

/-- A step leaves the tables alone, or one of its statements does what is meant. -/
theorem ServerState.db_of_step (hm : e.1.mysql.Meant collate) (hs : s.step L e = some s') :
    s'.db = s.db ∨ ∃ stmt ∈ sentBy (serve L e.1 e.2 s).2.2,
      e.1.mysql.exec stmt s.db = some s'.db ∧ stmt.Does collate s.db s'.db := by
  rw [eq_of_step hs]
  exact did.db_cases hm

/-- A step keeps the keys. -/
theorem ServerState.ok_of_step (h : s.db.Ok collate) (hm : e.1.mysql.Meant collate)
    (hs : s.step L e = some s') : s'.db.Ok collate := by
  rcases db_of_step hm hs with hdb | ⟨stmt, -, -, hdb⟩
  · rw [hdb]
    exact h
  · exact h.does hdb

end

end OJ.Server
