import DistributedOj.Framework.TwoRuns
import DistributedOj.OjServer.Secrets
import DistributedOj.OjServer.View

/-!
# What clients learn of secrets

Two servers whose tables differ only in what is secret (`ServerState.Same`) go
through the same handler in step (`handle_discreet`): they answer alike and send the
same statements, and stay so. `/login` alone may tell them apart. So to any
requests they answer alike unless a login does (`ServerState.seen_eq`). A request
meets the same world at both: what is posted for `/judge` carries the tail and the
limits, and is answered alike here.
-/

namespace OJ.Server

open OJ.Comm OJ.Framework

/-! ## What is read -/

/-- Users that differ at most in the password and its salt. -/
structure User.Same (u u' : User) : Prop where
  id : u.id = u'.id
  name : u.name = u'.name
  isAdmin : u.isAdmin = u'.isAdmin

/-- Questions that differ at most in the tests and the limits. -/
structure Question.Same (q q' : Question) : Prop where
  number : q.number = q'.number
  title : q.title = q'.title
  star : q.star = q'.star
  desc : q.desc = q'.desc
  header : q.header = q'.header

/-- Both found, or neither, and the same but for what is secret. -/
def SameUser (x y : Bool × User) : Prop := x.1 = y.1 ∧ x.2.Same y.2

theorem User.Same.refl (u : User) : u.Same u := ⟨rfl, rfl, rfl⟩

theorem UserRow.Same.read {r r' : UserRow} (h : r.Same r') : r.read.Same r'.read :=
  ⟨h.userid, h.username, h.isAdmin⟩

theorem QuestionRow.Same.read {r r' : QuestionRow} (h : r.Same r') : r.read.Same r'.read :=
  ⟨congrArg toStringI h.id, h.title, h.star, h.questionDesc, h.header⟩

theorem User.of_same (u : User) {x y : Option (List UserRow)}
    (h : Option.Rel (List.Forall₂ UserRow.Same) x y) : SameUser (u.of x) (u.of y) := by
  cases h with
  | none => exact ⟨rfl, .refl u⟩
  | some h =>
    cases h with
    | nil => exact ⟨rfl, .refl u⟩
    | cons hr => exact ⟨rfl, hr.read⟩

/-! ## What is done with the database -/

def SameDb (x y : Db × List Stmt) : Prop := x.1.Same y.1 ∧ x.2 = y.2

section
variable {m : MySQL}

theorem query_inStep {α : Type} {R : Option (List α) → Option (List α) → Prop}
    {select : Db → Option (List α)} (h : ∀ db db', db.Same db' → R (select db) (select db')) :
    InStep SameDb R (query select) (query select) :=
  fun s t hs => ⟨h s.1 t.1 hs.1, hs⟩

variable (hm : m.Blind)
include hm

theorem updateMysql_inStep (stmt : Stmt) : InStep SameDb Eq (updateMysql m stmt) (updateMysql m stmt) := by
  intro s t hs
  rw [run_updateMysql, run_updateMysql]
  have h := hm.exec stmt s.1 t.1 hs.1
  generalize m.exec stmt s.1 = x at h
  generalize m.exec stmt t.1 = y at h
  cases h with
  | none => exact ⟨rfl, hs.1, congrArg (· ++ [stmt]) hs.2⟩
  | some h => exact ⟨rfl, h, congrArg (· ++ [stmt]) hs.2⟩

theorem queryUser_inStep (username : Str) (u : User) :
    InStep SameDb SameUser (queryUser m username u) (queryUser m username u) :=
  (query_inStep (hm.user username)).bind fun _ _ h => .pure (u.of_same h)

theorem queryUserById_inStep (userId : Str) (u : User) :
    InStep SameDb SameUser (queryUserById m userId u) (queryUserById m userId u) :=
  (query_inStep (hm.userById userId)).bind fun _ _ h => .pure (u.of_same h)

theorem isAdmin_inStep (id : Int) (username : Str) :
    InStep SameDb Eq (isAdmin m id username) (isAdmin m id username) := by
  refine (queryUser_inStep hm username (.new id)).bind ?_
  rintro ⟨ok, u⟩ ⟨_, u'⟩ ⟨rfl, hu⟩
  exact .pure (by rw [hu.isAdmin])

theorem getAllUsers_inStep : InStep SameDb (Option.Rel (List.Forall₂ User.Same)) (getAllUsers m) (getAllUsers m) := by
  refine (query_inStep hm.allUsers).bind fun x y h => .pure ?_
  cases h with
  | none => exact .none
  | some h => exact .some (List.rel_map (fun _ _ hr => hr.read) h)

theorem queryProgress_inStep (clock : Clock) (userId questionId : Int) (up : UserProgress) :
    InStep SameDb Eq (queryProgress m clock userId questionId up)
      (queryProgress m clock userId questionId up) := by
  refine InStep.bind (R := Eq) ?_ fun x y e => by subst e; exact .pure rfl
  refine (query_inStep (hm.progress userId questionId)).bind fun x y e => ?_
  subst e
  rcases x with _ | _ | ⟨r, rs⟩
  · exact .pure rfl
  · exact .pure rfl
  · exact .pure rfl

theorem touchAndStore_inStep (clock : Clock) (touch : UserProgress → UserProgress) (up : UserProgress) :
    InStep SameDb Eq (touchAndStore m clock touch up) (touchAndStore m clock touch up) := by
  refine (queryProgress_inStep hm clock _ _ up).bind fun x y e => ?_
  subst e
  rw [writeBack_eq]
  exact updateMysql_inStep hm _

end

/-! ## What a handler does -/

/-- Servers that differ at most in what is secret. -/
structure ServerState.Same (s t : ServerState) : Prop where
  sessions : s.sessions = t.sessions
  db : s.db.Same t.db

/-- Two handlers have come equally far. -/
def SameSoFar (x y : ServerState × List Effect) : Prop := x.1.Same y.1 ∧ sentBy x.2 = sentBy y.2

namespace Handling

variable {α β : Type} {R : α → β → Prop}

theorem sql_inStep {x : Sql α} {y : Sql β} (h : InStep SameDb R x y) :
    InStepE SameSoFar R (sql x) (sql y) := by
  refine .lift fun s t hs => ?_
  obtain ⟨hr, hdb, hlog⟩ := h (s.1.db, []) (t.1.db, []) ⟨hs.1.db, rfl⟩
  refine ⟨hr, ⟨hs.1.sessions, hdb⟩, ?_⟩
  show sentBy (s.2 ++ _) = sentBy (t.2 ++ _)
  rw [sentBy, sentBy, List.filterMap_append, List.filterMap_append, hlog]
  exact congrArg (· ++ _) hs.2

theorem find_inStep (sessionId : Str) : InStepE SameSoFar Eq (find sessionId) (find sessionId) :=
  InStepE.get.bind fun _ _ hs => .pure (congrFun hs.1.sessions sessionId)

theorem ofExcept_inStep {ε : Type} {x : Except ε α} {y : Except ε β} (h : SameOutcome R x y) :
    InStepE SameSoFar R (ofExcept x) (ofExcept y) := by
  cases h with
  | ok hr => exact .pure hr
  | error => exact .throw _

theorem ofOption_inStep (x : Option α) : InStepE SameSoFar Eq (ofOption x) (ofOption x) := by
  cases x with
  | some a => exact .pure rfl
  | none => exact .throw _

theorem second_inStep (stray found : Option Str) :
    InStepE SameSoFar Eq (second stray found) (second stray found) := by
  cases found with
  | some username => exact .pure rfl
  | none =>
    refine InStepE.bind (R := Eq) ?_ fun _ _ _ => ?_
    · refine .lift fun s t hs => ⟨rfl, hs.1, ?_⟩
      show sentBy (s.2 ++ _) = sentBy (t.2 ++ _)
      rw [sentBy, sentBy, List.filterMap_append, List.filterMap_append]
      exact congrArg (· ++ _) hs.2
    · cases stray with
      | some username => exact .pure rfl
      | none => exact .throw _

/-- What does not look at the state. -/
theorem ofExcept_bind_inStep {ε γ δ : Type} {Q : γ → δ → Prop} (x : Except ε α) {f : α → Handling γ}
    {g : α → Handling δ} (h : ∀ a, InStepE SameSoFar Q (f a) (g a)) :
    InStepE SameSoFar Q (ofExcept x >>= f) (ofExcept x >>= g) := by
  refine (ofExcept_inStep (R := Eq) ?_).bind fun a _ e => e ▸ h a
  cases x with
  | ok a => exact .ok rfl
  | error e => exact .error e

end Handling

/-- Replies of which a client sees the same. -/
def SameShown (clock : Clock) (r r' : Reply) : Prop := r.shown clock = r'.shown clock

/-- From servers that are the same, `x` and `y` make replies that are. -/
abbrev SameReply (clock : Clock) (x y : Handling Reply) : Prop := InStepE SameSoFar (SameShown clock) x y

/-- A handler that tells no secret to whom it answers. -/
abbrev Discreet (clock : Clock) (x : Handling Reply) : Prop := SameReply clock x x

section
variable {L : Library} {w : World} {clock : Clock}

open Handling

theorem answer_discreet {x : Sql Bool} (hx : InStep SameDb Eq x x) {f : Bool → Reply} :
    Discreet clock (do return f (← sql x)) :=
  (sql_inStep hx).bind fun _ _ e => .pure (e ▸ rfl)

/-- A session that is found or not. -/
theorem find_bind_discreet {sessionId : Str} {f : Option Str → Handling Reply}
    (h : ∀ found, Discreet clock (f found)) : Discreet clock (find sessionId >>= f) :=
  (find_inStep sessionId).bind fun found _ e => e ▸ h found

theorem second_bind_discreet {found : Option Str} {f : Str → Handling Reply}
    (h : ∀ username, Discreet clock (f username)) :
    Discreet clock (second w.stray found >>= f) :=
  (second_inStep _ _).bind fun username _ e => e ▸ h username

theorem logout_discreet (req : Request) : Discreet clock (handleLogout req) := by
  refine find_bind_discreet fun found => ?_
  cases found with
  | some username =>
    refine InStepE.bind (R := Eq) (.update fun s t hs => ⟨⟨?_, hs.1.db⟩, hs.2⟩) fun _ _ _ => .pure rfl
    show Function.update s.1.sessions _ _ = Function.update t.1.sessions _ _
    rw [hs.1.sessions]
  | none => exact .pure rfl

theorem checkLogin_discreet (req : Request) :
    Discreet clock (handleCheckLogin req) := by
  refine find_bind_discreet fun found => ?_
  cases found with
  | some username => exact .pure rfl
  | none => exact .pure rfl

/-- A call of `UserProgressControl` for the user of a session, then `y`. -/
theorem progress_inStep {ok : Bool} {u u' : User} (hu : u.Same u') {number : Str}
    {call : UserProgress → Sql Bool} (hcall : ∀ up, InStep SameDb Eq (call up) (call up))
    {y : Handling Reply} (hy : Discreet clock y) :
    SameReply clock
      (do
        if ok then
          let questionId ← ofOption (stoi number)
          let _ ← sql (call (.new u.id questionId))
        y)
      (do
        if ok then
          let questionId ← ofOption (stoi number)
          let _ ← sql (call (.new u'.id questionId))
        y) := by
  rw [hu.id]
  cases ok with
  | false => exact hy
  | true =>
    refine (ofOption_inStep _).bind fun questionId _ e => ?_
    subst e
    exact (sql_inStep (hcall _)).bind fun _ _ _ => hy

variable (hm : w.mysql.Blind)
include hm

/-- What an administrator does, and an answer. -/
theorem byAdmin_discreet {username error : Str} {x : Sql Bool} (hx : InStep SameDb Eq x x) :
    Discreet clock (do
      if ← sql (isAdmin w.mysql w.userId username) then
        return answer (← sql x)
      else
        return failure error) := by
  refine (sql_inStep (isAdmin_inStep hm _ _)).bind fun ok _ e => ?_
  subst e
  exact .ite (answer_discreet hx) (.pure rfl)

/-- What is done for the user of a session. -/
theorem userInfo_bind_discreet {username : Str} {f : Bool × User → Handling Reply}
    (h : ∀ ok u u', u.Same u' → SameReply clock (f (ok, u)) (f (ok, u'))) :
    Discreet clock (sql (getUserInfo w.mysql username (.new w.userId)) >>= f) := by
  refine (sql_inStep (queryUser_inStep hm username _)).bind ?_
  rintro ⟨ok, u⟩ ⟨_, u'⟩ ⟨rfl, hu⟩
  exact h ok u u' hu

theorem editUser_discreet (req : Request) :
    Discreet clock (handleEditUser L w req) := by
  unfold handleEditUser
  refine ofExcept_bind_inStep _ fun parsed => .ite (.pure rfl) (ofExcept_bind_inStep _ fun number => ?_)
  refine ofExcept_bind_inStep _ fun username => ofExcept_bind_inStep _ fun password => ?_
  refine ofExcept_bind_inStep _ fun role => find_bind_discreet fun found => ?_
  cases found with
  | some username2 => exact byAdmin_discreet hm (updateMysql_inStep hm _)
  | none => exact .pure rfl

theorem deleteUser_discreet (req : Request) (userId : Digits) :
    Discreet clock (handleDeleteUser w req userId) := by
  refine find_bind_discreet fun found => ?_
  cases found with
  | some username => exact byAdmin_discreet hm (updateMysql_inStep hm _)
  | none => exact .pure rfl

theorem addUser_discreet (req : Request) :
    Discreet clock (handleAddUser L w req) := by
  unfold handleAddUser
  refine ofExcept_bind_inStep _ fun parsed => .ite ?_ (.pure rfl)
  refine ofExcept_bind_inStep _ fun username => ofExcept_bind_inStep _ fun password => ?_
  refine ofExcept_bind_inStep _ fun role => find_bind_discreet fun found => ?_
  cases found with
  | some username2 => exact byAdmin_discreet hm (updateMysql_inStep hm _)
  | none => exact .pure rfl

theorem getUserInfo_discreet (req : Request) :
    Discreet clock (handleGetUserInfo w req) := by
  refine find_bind_discreet fun found => ?_
  cases found with
  | some username =>
    refine userInfo_bind_discreet hm fun ok u u' hu => .ite (.pure ?_) (.pure rfl)
    rw [hu.isAdmin, hu.name]
    rfl
  | none => exact .pure rfl

theorem updateQuestion_discreet (req : Request) :
    Discreet clock (handleUpdateQuestion w req) := by
  unfold handleUpdateQuestion
  split
  · exact answer_discreet (updateMysql_inStep hm _)
  · exact .pure rfl

theorem addQuestion_discreet (req : Request) :
    Discreet clock (handleAddQuestion L w req) := by
  unfold handleAddQuestion
  refine find_bind_discreet fun found => second_bind_discreet fun _ => .ite (.pure rfl) ?_
  refine ofExcept_bind_inStep _ fun title => ofExcept_bind_inStep _ fun star => ?_
  refine ofExcept_bind_inStep _ fun questionDesc => ofExcept_bind_inStep _ fun header => ?_
  refine ofExcept_bind_inStep _ fun tail => ofExcept_bind_inStep _ fun timeLimit => ?_
  refine ofExcept_bind_inStep _ fun memLimit => .ite (.pure rfl) ?_
  split
  · refine (sql_inStep (updateMysql_inStep hm _)).bind fun ok _ e => ?_
    subst e
    exact .ite (.pure rfl) (.pure rfl)
  · exact .pure rfl

theorem deleteQuestion_discreet (req : Request) (number : Digits) :
    Discreet clock (handleDeleteQuestion w req number) := by
  refine find_bind_discreet fun found => ?_
  cases found with
  | some username =>
    refine userInfo_bind_discreet hm fun ok u u' hu => ?_
    dsimp only
    rw [hu.isAdmin]
    refine .ite ((sql_inStep (updateMysql_inStep hm _)).bind fun ok _ e => ?_) (.pure rfl)
    subst e
    exact .ite (.pure rfl) (.pure rfl)
  | none => exact .pure rfl

theorem setCompleted_discreet (req : Request) (number : Digits) :
    Discreet clock (handleSetCompleted L w req number) := by
  refine find_bind_discreet fun found => second_bind_discreet fun username => ?_
  refine userInfo_bind_discreet hm fun ok u u' hu => ?_
  exact progress_inStep hu (touchAndStore_inStep hm L.clock _) (.pure rfl)

theorem getUserProgress_discreet (req : Request) (number : Digits) :
    Discreet clock (handleGetUserProgress L w req number) := by
  refine find_bind_discreet fun found => userInfo_bind_discreet hm fun ok u u' hu => ?_
  dsimp only
  rw [hu.id]
  refine .ite ((ofOption_inStep _).bind fun questionId _ e => ?_) (.pure rfl)
  subst e
  refine (sql_inStep (queryProgress_inStep hm L.clock _ _ _)).bind fun found _ e => ?_
  subst e
  exact .ite (.pure rfl) (.pure rfl)

theorem register_discreet (req : Request) : Discreet clock (handleRegister L w req) :=
  answer_discreet (updateMysql_inStep hm _)

/-! ### Pages -/

theorem allUsers_discreet : Discreet clock (handleAllUsers w) := by
  refine (sql_inStep (getAllUsers_inStep hm)).bind fun x y h => ?_
  cases h with
  | none => exact .pure rfl
  | @some all all' h =>
    have hrows : userAllHtml all = userAllHtml all' := by
      rw [userAllHtml, userAllHtml]
      congr 2
      exact Table.map_eq_of_forall₂ h fun u u' hu => by rw [hu.id, hu.name, hu.isAdmin]
    exact .pure (congrArg (fun page => (Shown.html page, none)) hrows)

theorem allQuestions_discreet : Discreet clock (handleAllQuestions w) := by
  refine InStepE.get.bind fun s t hs => ?_
  have h := hm.allQuestions _ _ hs.1.db
  generalize w.mysql.allQuestions s.1.db = x at h
  generalize w.mysql.allQuestions t.1.db = y at h
  cases h with
  | none => exact .pure rfl
  | @some all all' h =>
    have hsort (rows : List QuestionRow) :
        ((rows.map QuestionRow.read).mergeSort fun q1 q2 => atoi q1.number ≤ atoi q2.number).map
            Question.listed =
          ((rows.map QuestionRow.read).map Question.listed).mergeSort fun q1 q2 => atoi q1.1 ≤ atoi q2.1 :=
      List.map_mergeSort fun _ _ _ _ => rfl
    have hrows : (all.map QuestionRow.read).map Question.listed =
        (all'.map QuestionRow.read).map Question.listed := by
      rw [List.map_map, List.map_map]
      refine Table.map_eq_of_forall₂ h fun r r' hr => ?_
      show (toStringI r.id, r.title, r.star) = (toStringI r'.id, r'.title, r'.star)
      rw [hr.id, hr.title, hr.star]
    refine .pure ?_
    show ((Shown.html (expandAllHtml _), none) : Shown × Option Str) = (.html (expandAllHtml _), none)
    rw [expandAllHtml_eq, expandAllHtml_eq, hsort, hsort, hrows]

theorem user_discreet (id : Digits) : Discreet clock (handleUser L w id) := by
  refine (sql_inStep (queryUserById_inStep hm id.val _)).bind ?_
  rintro ⟨ok, u⟩ ⟨_, u'⟩ ⟨rfl, hu⟩
  refine .ite (InStepE.get.bind fun s t hs => ?_) (.pure rfl)
  have hid : u.id = u'.id := hu.id
  have h : w.mysql.completed u.id s.1.db = w.mysql.completed u'.id t.1.db := by
    rw [hm.completed u.id _ _ hs.1.db, hid]
  rw [h]
  split
  · refine .pure ?_
    show ((Shown.html (generateUserDetailPage clock u _), none) : Shown × Option Str) =
      (.html (generateUserDetailPage clock u' _), none)
    rw [generateUserDetailPage, generateUserDetailPage, hu.name, hu.isAdmin]
  · exact .pure rfl

theorem getOneQuestion_same {db db' : Db} (h : db.Same db') (number : Str) :
    (getOneQuestion w.mysql db number .new).1 = (getOneQuestion w.mysql db' number .new).1 ∧
      (getOneQuestion w.mysql db number .new).2.Same (getOneQuestion w.mysql db' number .new).2 := by
  have h := hm.question number _ _ h
  rw [getOneQuestion, getOneQuestion]
  generalize w.mysql.question number db = x at h
  generalize w.mysql.question number db' = y at h
  have hnew : Question.new.Same .new := ⟨rfl, rfl, rfl, rfl, rfl⟩
  cases h with
  | none => exact ⟨rfl, hnew⟩
  | some h =>
    cases h with
    | nil => exact ⟨rfl, hnew⟩
    | cons hr h =>
      cases h with
      | nil => exact ⟨rfl, hr.read⟩
      | cons => exact ⟨rfl, hnew⟩

theorem question_discreet (number : Digits) : Discreet clock (handleQuestion w number) := by
  refine InStepE.get.bind fun s t hs => ?_
  obtain ⟨hok, hq⟩ := getOneQuestion_same hm hs.1.db number.val
  dsimp only
  rw [hok]
  refine .ite (.pure ?_) (.pure rfl)
  show ((Shown.html (oneExpandHtml _), none) : Shown × Option Str) = (.html (oneExpandHtml _), none)
  rw [oneExpandHtml, oneExpandHtml, hq.number, hq.title, hq.star, hq.desc, hq.header]

theorem judge_discreet (req : Request) (number : Digits) : Discreet clock (handleJudge L w req number) := by
  refine find_bind_discreet fun found => second_bind_discreet fun username => ?_
  refine userInfo_bind_discreet hm fun ok u u' hu => ?_
  refine progress_inStep hu (touchAndStore_inStep hm L.clock _) ?_
  refine InStepE.bind (R := Eq) ?_ fun _ _ e => .pure (e ▸ rfl)
  -- What is posted depends on the tests, but not whether anything is.
  refine InStepE.get.bind fun s t hs => ?_
  refine (ofExcept_inStep (R := fun _ _ => True) ?_).bind fun text text' _ => ?_
  · rw [compileString, compileString]
    cases requestTexts L.reader req.body with
    | ok => exact .ok trivial
    | error e => exact .error e
  · refine InStepE.bind (R := Eq) (.update fun s t hs => ⟨hs.1, ?_⟩) fun _ _ _ => .pure rfl
    show sentBy (s.2 ++ _) = sentBy (t.2 ++ _)
    have hposted (text : Str) : (List.replicate w.posts (Effect.posted text)).filterMap Effect.stmt = [] := by
      simp [Effect.stmt]
    rw [sentBy, sentBy, List.filterMap_append, List.filterMap_append, hposted, hposted, List.append_nil,
      List.append_nil]
    exact hs.2

/-- Every handler but one is discreet. -/
theorem handle_discreet {req : Request} (hp : req.path ≠ .login) : Discreet clock (handle L w req) := by
  rw [handle]
  split
  case h_1 => exact editUser_discreet hm req
  case h_2 userId _ => exact deleteUser_discreet hm req userId
  case h_3 => exact addUser_discreet hm req
  case h_4 => exact getUserInfo_discreet hm req
  case h_5 => exact register_discreet hm req
  case h_6 h => exact absurd h hp
  case h_7 => exact checkLogin_discreet req
  case h_8 => exact logout_discreet req
  case h_9 => exact updateQuestion_discreet hm req
  case h_10 => exact addQuestion_discreet hm req
  case h_11 number _ => exact deleteQuestion_discreet hm req number
  case h_12 number _ => exact setCompleted_discreet hm req number
  case h_13 number _ => exact getUserProgress_discreet hm req number
  case h_14 => exact allUsers_discreet hm
  case h_15 => exact allQuestions_discreet hm
  case h_16 id _ => exact user_discreet hm id
  case h_17 number _ => exact question_discreet hm number
  case h_18 number _ => exact judge_discreet hm req number

end

/-! ## Runs -/

/-- What is seen of a request: its reply, and the statements that MySQL is sent. -/
structure Seen where
  path : Path
  reply : Except Stop (Shown × Option Str)
  stmts : List Stmt

/-- A request to `/login`. -/
def Seen.login (x : Seen) : Bool := x.path = .login

section
variable {L : Library} {s t : ServerState} {e : Visit} {es : List Visit}

def seen (L : Library) (s : ServerState) (e : Visit) : Seen :=
  let x := serve L e.1 e.2 s
  ⟨e.2.path, x.1.map (Reply.shown L.clock), sentBy x.2.2⟩

/-- What is seen of requests, until the process crashes. -/
def ServerState.seen (L : Library) (s : ServerState) : List Visit → List Seen
  | [] => []
  | e :: es => OJ.Server.seen L s e :: ((s.step L e).map fun t => t.seen L es).getD []

theorem ServerState.Same.serve (h : s.Same t) (hm : e.1.mysql.Blind) (hp : e.2.path ≠ .login) :
    OJ.Server.seen L s e = OJ.Server.seen L t e ∧
      (serve L e.1 e.2 s).2.1.Same (serve L e.1 e.2 t).2.1 := by
  have hd : Discreet L.clock (handle L e.1 e.2) := handle_discreet hm hp
  obtain ⟨hr, hs, hsent⟩ := hd (s, []) (t, []) ⟨h, rfl⟩
  refine ⟨?_, hs⟩
  show (⟨_, _, _⟩ : Seen) = ⟨_, _, _⟩
  exact congrArg₂ (Seen.mk e.2.path) (hr.map_eq fun _ _ hr => hr) hsent

/-- A login binds its session, or it fails. -/
theorem run_handleLogin (L : Library) (w : World) (req : Request) (s : ServerState) : ∃ ok : Bool,
    Handling.run (handleLogin L w req) (s, []) =
      if ok then
        (.ok { Reply.json [("session_id", .str w.sessionId.val), ("success", .str "success".toList)] with
            setCookie := some ("session_id=".toList ++ w.sessionId.val) },
          { s with
            sessions := Function.update s.sessions w.sessionId.val
              (some (req.paramOrFile "username".toList)) }, [])
      else (.ok (.text "Login Failed".toList), s, []) := by
  rw [handleLogin, Handling.run_sql_bind, run_loginUser]
  generalize (_ && _) = ok
  refine ⟨ok, ?_⟩
  cases ok with
  | true => rfl
  | false => rfl

/-- Where a login answers alike, it makes the same sessions. -/
theorem ServerState.Same.login (h : s.Same t) (hp : e.2.path = .login)
    (hseen : OJ.Server.seen L s e = OJ.Server.seen L t e) :
    (OJ.Server.serve L e.1 e.2 s).2.1.Same (OJ.Server.serve L e.1 e.2 t).2.1 := by
  have hreply := congrArg Seen.reply hseen
  obtain ⟨ok, hs⟩ := run_handleLogin L e.1 e.2 s
  obtain ⟨ok', ht⟩ := run_handleLogin L e.1 e.2 t
  have serve_eq (s : ServerState) : OJ.Server.serve L e.1 e.2 s = (handleLogin L e.1 e.2).run (s, []) := by
    rw [OJ.Server.serve, handle, hp]
  rw [OJ.Server.seen, OJ.Server.seen, serve_eq, serve_eq, hs, ht] at hreply
  rw [serve_eq, serve_eq, hs, ht]
  cases ok with
  | true =>
    cases ok' with
    | true =>
      refine ⟨?_, h.db⟩
      show Function.update s.sessions _ _ = Function.update t.sessions _ _
      rw [h.sessions]
    | false => cases hreply
  | false =>
    cases ok' with
    | true => cases hreply
    | false => exact h

/-- The process crashes in both or in none. -/
theorem ServerState.Same.step (h : (OJ.Server.serve L e.1 e.2 s).2.1.Same (OJ.Server.serve L e.1 e.2 t).2.1)
    (hseen : OJ.Server.seen L s e = OJ.Server.seen L t e) :
    Option.Rel ServerState.Same (s.step L e) (t.step L e) := by
  have hreply := congrArg Seen.reply hseen
  rw [OJ.Server.seen, OJ.Server.seen] at hreply
  rw [ServerState.step, ServerState.step]
  rcases hs : OJ.Server.serve L e.1 e.2 s with ⟨x, s', stmts⟩
  rcases ht : OJ.Server.serve L e.1 e.2 t with ⟨y, t', stmts'⟩
  rw [hs, ht] at h
  rw [hs, ht] at hreply
  rcases x with (_ | _) | r
  · rcases y with (_ | _) | r'
    · exact .some h
    · cases hreply
    · cases hreply
  · rcases y with (_ | _) | r'
    · cases hreply
    · exact .none
    · cases hreply
  · rcases y with (_ | _) | r'
    · cases hreply
    · cases hreply
    · exact .some h

/-- Of requests without a login, none is seen. -/
theorem ServerState.no_login_seen (s : ServerState) (h : ∀ e ∈ es, e.2.path ≠ .login) :
    (s.seen L es).filter Seen.login = [] := by
  induction es generalizing s with
  | nil => rfl
  | cons e es ih =>
    obtain ⟨he, hes⟩ := List.forall_mem_cons.mp h
    have hno : (OJ.Server.seen L s e).login = false := decide_eq_false he
    rw [ServerState.seen, List.filter_cons_of_neg (by rw [hno]; exact Bool.false_ne_true)]
    cases s.step L e with
    | some t => exact ih t hes
    | none => rfl

/-- Two servers whose tables differ only in what is secret, and the same
requests, answered alike by the compile servers: if what is seen of the logins is
the same, then so is all that is seen. -/
theorem ServerState.seen_eq (h : s.Same t) (hm : ∀ e ∈ es, e.1.mysql.Blind)
    (hlogin : (s.seen L es).filter Seen.login = (t.seen L es).filter Seen.login) :
    s.seen L es = t.seen L es := by
  induction es generalizing s t with
  | nil => rfl
  | cons e es ih =>
    obtain ⟨hme, hmes⟩ := List.forall_mem_cons.mp hm
    rw [ServerState.seen, ServerState.seen] at hlogin ⊢
    have hhead : OJ.Server.seen L s e = OJ.Server.seen L t e ∧
        (serve L e.1 e.2 s).2.1.Same (serve L e.1 e.2 t).2.1 := by
      by_cases hp : e.2.path = .login
      · -- The logins that are seen begin with this one.
        have hl (s : ServerState) : (OJ.Server.seen L s e).login = true := decide_eq_true hp
        rw [List.filter_cons_of_pos (hl s), List.filter_cons_of_pos (hl t)] at hlogin
        have hseen := (List.cons.inj hlogin).1
        exact ⟨hseen, h.login hp hseen⟩
      · exact h.serve hme hp
    obtain ⟨hseen, hsame⟩ := hhead
    have hstep := hsame.step hseen
    rw [hseen] at hlogin ⊢
    have htail : (((s.step L e).map fun t => t.seen L es).getD []).filter Seen.login =
        (((t.step L e).map fun t => t.seen L es).getD []).filter Seen.login := by
      rw [List.filter_cons, List.filter_cons] at hlogin
      split at hlogin
      · exact (List.cons.inj hlogin).2
      · exact hlogin
    refine congrArg (List.cons _) ?_
    generalize s.step L e = x at hstep htail
    generalize t.step L e = y at hstep htail
    cases hstep with
    | none => rfl
    | some hst => exact ih hst hmes htail

end

/-- A question with these tests. -/
def Db.tested (tail : Str) : Db := Submitted.store [{ Submitted.question with tail := tail }]

/-- `bob` reads the question and submits, whatever the tests are. -/
theorem seen_eq_tested :
    (ServerState.start (.tested "a".toList)).seen .sample
        ([.question Submitted.number, .judge Submitted.number].map fun path => (.k, .bob path)) =
      (ServerState.start (.tested "b".toList)).seen .sample
        ([.question Submitted.number, .judge Submitted.number].map fun path => (.k, .bob path)) := by
  have hsame : (ServerState.start (.tested "a".toList)).Same (.start (.tested "b".toList)) :=
    ⟨rfl, .nil, .cons ⟨rfl, rfl, rfl, rfl, rfl⟩ .nil, rfl, rfl, rfl, rfl⟩
  refine ServerState.seen_eq hsame (fun e he => ?_) ?_
  · obtain ⟨path, -, rfl⟩ := List.mem_map.mp he
    exact MySQL.exact_blind id
  · have hno : ∀ e ∈ [Path.question Submitted.number, .judge Submitted.number].map
        fun path => (World.k, Request.bob path), e.2.path ≠ .login := by
      simp [Request.bob]
    rw [ServerState.no_login_seen _ hno, ServerState.no_login_seen _ hno]

end OJ.Server
