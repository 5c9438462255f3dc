import DistributedOj.Comm.Digits
import DistributedOj.Framework.Footprint
import DistributedOj.Framework.Logged
import DistributedOj.Framework.Table

/-!
# The database

The tables of `src/sql`, the statements that the server sends to change them
(`Stmt`) and what each is meant to do (`Stmt.meaning`): a key or a foreign key
may reject it. What MySQL does is a parameter (`MySQL`), of which each answer
is an error or what is meant where `MySQL.Meant` is assumed. The meanings keep
the keys (`Db.Ok.meaning`) and touch one table each, but for `ON DELETE
CASCADE`. Times are texts, and every one that the server writes is taken to be
storable, also that of second 0 (`1970-01-01 00:00:00`).
-/

namespace OJ.Server

open OJ.Comm OJ.Framework Table

/-! ## The tables -/

/-- A row of `questions`. -/
structure QuestionRow where
  id : Int
  title : Str
  star : Str
  questionDesc : Str
  header : Str
  tail : Str
  timeLimit : Int
  memLimit : Int
  deriving DecidableEq, Repr

/-- A row of `User`. -/
structure UserRow where
  userid : Int
  username : Str
  password : Str
  salt : Str
  isAdmin : Int
  deriving DecidableEq, Repr

/-- A row of `UserProgress`. -/
structure ProgressRow where
  progressId : Int
  userId : Int
  questionId : Int
  isCompleted : Bool
  completedTime : Str
  attemptCount : Int
  deriving DecidableEq, Repr

/-- What the key of `UserProgress` says: the user and the question. -/
def ProgressRow.key (r : ProgressRow) : Int × Int := (r.userId, r.questionId)

/-- The tables, in the order in which rows were inserted, and their next
`AUTO_INCREMENT`. -/
structure Db where
  user : List UserRow
  questions : List QuestionRow
  progress : List ProgressRow
  nextUser : Int
  nextQuestion : Int
  nextProgress : Int
  deriving DecidableEq, Repr

/-! ## Statements -/

/-- The statements that change a table, with the values put into them. -/
inductive Stmt where
  | addUser (username password salt : Str)
  | insertUserByAdmin (username password salt : Str) (isAdmin : Int)
  | updateUserById (username password salt : Str) (isAdmin userid : Int)
  | deleteUserById (userid : Str)
  | insertQuestion (title star questionDesc header tail : Str) (timeLimit memLimit : Int)
  | updateQuestion (title star questionDesc header tail : Str) (timeLimit memLimit : Int) (id : Str)
  | deleteQuestion (id : Str)
  | addUserProgress (userId questionId : Int) (isCompleted : Bool) (completedTime : Str)
      (attemptCount : Int)
  | updateUserProgress (isCompleted : Bool) (completedTime : Str)
      (attemptCount userId questionId : Int)
  deriving DecidableEq, Repr

/-- A sign, and what follows it. -/
def signOf : Str → Int × Str
  | '-' :: text => (-1, text)
  | '+' :: text => (1, text)
  | text => (1, text)

/-- The exponent with which a text begins, or 0. -/
def exponentOf : Str → Int
  | 'e' :: text | 'E' :: text => (signOf text).1 * digitsVal 0 (signOf text).2
  | _ => 0

/-- The number that MySQL takes a text for where it compares it with an `INT`, if
that is a whole one. After blanks the text counts as far as it is a number, so
that ` 7`, `+7`, `7.0` and `70e-1` are 7, and as 0 if it does not begin with one. -/
def idOf (text : Str) : Option Int :=
  let (sign, text) := signOf (text.dropWhile isSpace)
  let whole := text.takeWhile Char.isDigit
  let point := text.dropWhile Char.isDigit
  let fraction := if point.head? = some '.' then point.tail.takeWhile Char.isDigit else []
  let rest := if point.head? = some '.' then point.tail.dropWhile Char.isDigit else point
  let digits := sign * digitsVal 0 (whole ++ fraction)
  let exponent := exponentOf rest - fraction.length
  if 0 ≤ exponent then some (digits * 10 ^ exponent.toNat)
  else if 10 ^ (-exponent).toNat ∣ digits then some (digits / 10 ^ (-exponent).toNat)
  else none

example : [" 7", "+7x", "7.0", "70e-1", "7.5", "-0", ""].map (fun text => idOf text.toList) =
    [some 7, some 7, some 7, some 7, none, some 0, some 0] := by decide

/-- A text of digits. -/
theorem idOf_of_digits {text : Str} (hne : text ≠ []) (h : text.all Char.isDigit) :
    idOf text = some (digitsVal 0 text : Int) := by
  obtain ⟨c, cs, rfl⟩ := List.exists_cons_of_ne_nil hne
  have hdigit : c.isDigit = true := List.all_eq_true.mp h c List.mem_cons_self
  have hspace : (c :: cs).dropWhile isSpace = c :: cs :=
    List.dropWhile_cons_of_neg (by rw [isSpace_of_isDigit hdigit]; exact Bool.false_ne_true)
  have hsign : signOf (c :: cs) = (1, c :: cs) := by
    rw [signOf.eq_def]
    split
    · next he =>
      rw [(List.cons.inj he).1] at hdigit
      exact absurd hdigit (by decide)
    · next he =>
      rw [(List.cons.inj he).1] at hdigit
      exact absurd hdigit (by decide)
    · rfl
  have htake : (c :: cs).takeWhile Char.isDigit = c :: cs := List.takeWhile_eq_self_iff.mpr (List.all_eq_true.mp h)
  have hdrop : (c :: cs).dropWhile Char.isDigit = [] := List.dropWhile_eq_nil_iff.mpr (List.all_eq_true.mp h)
  rw [idOf, hspace, hsign]
  simp only [htake, hdrop]
  simp [exponentOf]

/-- The collation of `username`: what two names are compared by. -/
abbrev Collation := Str → Str

section
variable (collate : Collation)

/-- What two user names are compared by. -/
def UserRow.name (r : UserRow) : Str := collate r.username

namespace Db

/-- `INSERT INTO user`, which `UNIQUE` rejects if the name is taken. -/
def insertUser (username password salt : Str) (isAdmin : Int) (db : Db) : Option Db :=
  if ∃ r ∈ db.user, r.name collate = collate username then none
  else some { db with
    user := db.user ++ [⟨db.nextUser, username, password, salt, isAdmin⟩]
    nextUser := db.nextUser + 1 }

def updateUser (username password salt : Str) (isAdmin userid : Int) (db : Db) : Option Db :=
  if (∃ r ∈ db.user, r.userid = userid) ∧
      ∃ r ∈ db.user, r.userid ≠ userid ∧ r.name collate = collate username then none
  else some { db with
    user := update (fun r => r.userid = userid)
      (fun r => ⟨r.userid, username, password, salt, isAdmin⟩) db.user }

/-- `DELETE FROM user`, which deletes the user's progress. -/
def deleteUser (userid : Option Int) (db : Db) : Db :=
  { db with
    user := db.user.filter fun r => some r.userid ≠ userid
    progress := db.progress.filter fun r => some r.userId ≠ userid }

def insertQuestion (title star questionDesc header tail : Str) (timeLimit memLimit : Int)
    (db : Db) : Db :=
  { db with
    questions := db.questions ++
      [⟨db.nextQuestion, title, star, questionDesc, header, tail, timeLimit, memLimit⟩]
    nextQuestion := db.nextQuestion + 1 }

def updateQuestion (title star questionDesc header tail : Str) (timeLimit memLimit : Int)
    (id : Option Int) (db : Db) : Db :=
  { db with
    questions := update (fun r => some r.id = id)
      (fun r => ⟨r.id, title, star, questionDesc, header, tail, timeLimit, memLimit⟩) db.questions }

/-- `DELETE FROM questions`, which deletes the progress with the question. -/
def deleteQuestion (id : Option Int) (db : Db) : Db :=
  { db with
    questions := db.questions.filter fun r => some r.id ≠ id
    progress := db.progress.filter fun r => some r.questionId ≠ id }

/-- `INSERT INTO UserProgress`, which a foreign key or `UNIQUE` may reject. -/
def insertProgress (userId questionId : Int) (isCompleted : Bool) (completedTime : Str)
    (attemptCount : Int) (db : Db) : Option Db :=
  if (∃ r ∈ db.user, r.userid = userId) ∧ (∃ r ∈ db.questions, r.id = questionId) ∧
      ∀ r ∈ db.progress, r.key ≠ (userId, questionId) then
    some { db with
      progress := db.progress ++
        [⟨db.nextProgress, userId, questionId, isCompleted, completedTime, attemptCount⟩]
      nextProgress := db.nextProgress + 1 }
  else none

def updateProgress (isCompleted : Bool) (completedTime : Str) (attemptCount userId questionId : Int)
    (db : Db) : Db :=
  { db with
    progress := update (fun r => r.key = (userId, questionId))
      (fun r => { r with
        isCompleted := isCompleted
        completedTime := completedTime
        attemptCount := attemptCount }) db.progress }

end Db

/-- What a statement is meant to do, if no key rejects it. -/
def Stmt.meaning : Stmt → Db → Option Db
  | addUser username password salt => Db.insertUser collate username password salt 0
  | insertUserByAdmin username password salt isAdmin => Db.insertUser collate username password salt isAdmin
  | updateUserById username password salt isAdmin userid =>
    Db.updateUser collate username password salt isAdmin userid
  | deleteUserById userid => fun db => some (db.deleteUser (idOf userid))
  | insertQuestion title star questionDesc header tail timeLimit memLimit => fun db =>
    some (db.insertQuestion title star questionDesc header tail timeLimit memLimit)
  | updateQuestion title star questionDesc header tail timeLimit memLimit id => fun db =>
    some (db.updateQuestion title star questionDesc header tail timeLimit memLimit (idOf id))
  | deleteQuestion id => fun db => some (db.deleteQuestion (idOf id))
  | addUserProgress userId questionId isCompleted completedTime attemptCount =>
    Db.insertProgress userId questionId isCompleted completedTime attemptCount
  | updateUserProgress isCompleted completedTime attemptCount userId questionId => fun db =>
    some (db.updateProgress isCompleted completedTime attemptCount userId questionId)

end

section
variable {collate : Collation} {db db' : Db}

theorem Db.of_insertUser {username password salt : Str} {isAdmin : Int}
    (h : db.insertUser collate username password salt isAdmin = some db') :
    (∀ r ∈ db.user, r.name collate ≠ collate username) ∧
      db' = { db with
        user := db.user ++ [⟨db.nextUser, username, password, salt, isAdmin⟩]
        nextUser := db.nextUser + 1 } := by
  rw [insertUser, Option.ite_none_left_eq_some] at h
  obtain ⟨hname, h⟩ := h
  exact ⟨fun r hr e => hname ⟨r, hr, e⟩, (Option.some.inj h).symm⟩

theorem Db.of_updateUser {username password salt : Str} {isAdmin userid : Int}
    (h : db.updateUser collate username password salt isAdmin userid = some db') :
    (∀ r ∈ db.user, r.userid = userid → ∀ r' ∈ db.user, r'.userid ≠ userid →
        r'.name collate ≠ collate username) ∧
      db' = { db with
        user := update (fun r => r.userid = userid)
          (fun r => ⟨r.userid, username, password, salt, isAdmin⟩) db.user } := by
  rw [updateUser, Option.ite_none_left_eq_some] at h
  obtain ⟨hname, h⟩ := h
  exact ⟨fun r hr hid r' hr' hne e => hname ⟨⟨r, hr, hid⟩, r', hr', hne, e⟩, (Option.some.inj h).symm⟩

theorem Db.of_insertProgress {userId questionId attemptCount : Int} {isCompleted : Bool}
    {completedTime : Str}
    (h : db.insertProgress userId questionId isCompleted completedTime attemptCount = some db') :
    (∀ r ∈ db.progress, r.key ≠ (userId, questionId)) ∧
      db' = { db with
        progress := db.progress ++
          [⟨db.nextProgress, userId, questionId, isCompleted, completedTime, attemptCount⟩]
        nextProgress := db.nextProgress + 1 } := by
  rw [insertProgress, Option.ite_none_right_eq_some] at h
  obtain ⟨⟨-, -, hkey⟩, h⟩ := h
  exact ⟨hkey, (Option.some.inj h).symm⟩

end

/-! ## MySQL -/

/-- What MySQL does: the tables after a statement, and the rows of a `SELECT`,
or `none` for an error. -/
structure MySQL where
  exec : Stmt → Db → Option Db
  user : Str → Db → Option (List UserRow)
  userById : Str → Db → Option (List UserRow)
  allUsers : Db → Option (List UserRow)
  question : Str → Db → Option (List QuestionRow)
  allQuestions : Db → Option (List QuestionRow)
  progress : Int → Int → Db → Option (List ProgressRow)
  completed : Int → Db → Option (List ProgressRow)

/-- An answer that is an error or what is meant. -/
def OrError {α : Type*} (x meant : Option α) : Prop := x = none ∨ x = meant

/-- The same rows. Statements that were rejected may have used up some of the next
numbers. -/
structure Db.Skips (db db₀ : Db) : Prop where
  user : db₀.user = db.user
  questions : db₀.questions = db.questions
  progress : db₀.progress = db.progress
  nextUser : db.nextUser ≤ db₀.nextUser
  nextQuestion : db.nextQuestion ≤ db₀.nextQuestion
  nextProgress : db.nextProgress ≤ db₀.nextProgress

/-- What a statement may do to the tables where it is not rejected. -/
def Stmt.Does (collate : Collation) (stmt : Stmt) (db db' : Db) : Prop :=
  ∃ db₀, db.Skips db₀ ∧ stmt.meaning collate db₀ = some db'

/-- MySQL does what each statement is meant to do, or fails. -/
structure MySQL.Meant (collate : Collation) (m : MySQL) : Prop where
  exec : ∀ stmt db, m.exec stmt db = none ∨ ∃ db₀, db.Skips db₀ ∧ m.exec stmt db = stmt.meaning collate db₀
  user : ∀ username db,
    OrError (m.user username db) (some (rowsWith (UserRow.name collate) (collate username) db.user))
  userById : ∀ userid db, OrError (m.userById userid db)
    (some (rowsWith (fun r => some r.userid) (idOf userid) db.user))
  question : ∀ id db, OrError (m.question id db)
    (some (rowsWith (fun r => some r.id) (idOf id) db.questions))
  progress : ∀ userId questionId db, OrError (m.progress userId questionId db)
    (some (rowsWith ProgressRow.key (userId, questionId) db.progress))

/-- What a user has completed. -/
def Db.completedBy (userId : Int) (db : Db) : List ProgressRow :=
  db.progress.filter fun r => r.userId = userId ∧ r.isCompleted

/-- Of a `SELECT` of many rows MySQL gives each once, and if asked for an order of
times, the latest first. -/
structure MySQL.Lists (m : MySQL) : Prop where
  allUsers : ∀ db rows, m.allUsers db = some rows → rows.Perm db.user
  allQuestions : ∀ db rows, m.allQuestions db = some rows → rows.Perm db.questions
  completed : ∀ userId db rows, m.completed userId db = some rows →
    rows.Perm (db.completedBy userId) ∧ rows.Pairwise fun r r' => r'.completedTime ≤ r.completedTime

/-- MySQL without errors. -/
def MySQL.exact (collate : Collation) : MySQL where
  exec stmt db := stmt.meaning collate db
  user username db := some (rowsWith (UserRow.name collate) (collate username) db.user)
  userById userid db := some (rowsWith (fun r => some r.userid) (idOf userid) db.user)
  allUsers db := some db.user.reverse
  question id db := some (rowsWith (fun r => some r.id) (idOf id) db.questions)
  allQuestions db := some db.questions
  progress userId questionId db :=
    some (rowsWith ProgressRow.key (userId, questionId) db.progress)
  completed userId db := some ((db.completedBy userId).insertionSort fun r s => s.completedTime ≤ r.completedTime)

theorem Db.Skips.refl (db : Db) : db.Skips db := ⟨rfl, rfl, rfl, le_rfl, le_rfl, le_rfl⟩

theorem MySQL.exact_meant (collate : Collation) : (MySQL.exact collate).Meant collate :=
  ⟨fun _ db => .inr ⟨db, .refl db, rfl⟩, fun _ _ => .inr rfl, fun _ _ => .inr rfl, fun _ _ => .inr rfl,
    fun _ _ _ => .inr rfl⟩

theorem MySQL.exact_lists (collate : Collation) : (MySQL.exact collate).Lists where
  allUsers db rows h := by
    rw [← Option.some.inj h]
    exact List.reverse_perm _
  allQuestions db rows h := by rw [← Option.some.inj h]
  completed userId db rows h := by
    have : IsTrans ProgressRow fun r s => s.completedTime ≤ r.completedTime := ⟨fun _ _ _ h h' => h'.trans h⟩
    have : Std.Total fun r s : ProgressRow => s.completedTime ≤ r.completedTime := ⟨fun _ _ => le_total _ _⟩
    rw [← Option.some.inj h]
    exact ⟨List.perm_insertionSort _ _, List.pairwise_insertionSort _ _⟩

theorem MySQL.Meant.of_user {collate : Collation} {m : MySQL} (h : m.Meant collate) {username : Str}
    {db : Db} {r : UserRow} {rs : List UserRow} (hr : m.user username db = some (r :: rs)) :
    r ∈ db.user ∧ r.name collate = collate username := by
  rw [← mem_rowsWith]
  rcases h.user username db with e | e
  · rw [hr] at e
    cases e
  · rw [hr] at e
    rw [← Option.some.inj e]
    exact List.mem_cons_self

/-! ## Connections -/

/-- What the server does with the database, and the statements it sends that
change tables. -/
abbrev Sql := Logged Db Stmt

section
variable {α : Type}

/-- A `SELECT`. -/
def query (select : Db → Option (List α)) : Sql (Option (List α)) :=
  Logged.of do return select (← get)

/-- `UpdateMysql`. -/
def updateMysql (m : MySQL) (stmt : Stmt) : Sql Bool := do
  Logged.note stmt
  Logged.of fun db => match m.exec stmt db with
    | some db => (true, db)
    | none => (false, db)

theorem run_query (select : Db → Option (List α)) (s : Db × List Stmt) :
    (query select).run s = (select s.1, s) := (rfl)

theorem run_updateMysql (m : MySQL) (stmt : Stmt) (s : Db × List Stmt) :
    (updateMysql m stmt).run s =
      ((m.exec stmt s.1).isSome, ((m.exec stmt s.1).getD s.1, s.2 ++ [stmt])) := by
  rw [updateMysql, Stateful.run_bind, Logged.run_note, Logged.run_of, StateT.run]
  dsimp only
  split <;> simp [*]

end

/-! ## Keys -/

/-- What the keys and `AUTO_INCREMENT` say of the tables. -/
structure Db.Ok (collate : Collation) (db : Db) : Prop where
  userids : Keyed UserRow.userid db.user
  usernames : Keyed (UserRow.name collate) db.user
  userid_lt : ∀ r ∈ db.user, r.userid < db.nextUser
  progress : Keyed ProgressRow.key db.progress
  progress_pos : ∀ r ∈ db.progress, 0 < r.progressId
  nextProgress_pos : 0 < db.nextProgress

section
variable {collate : Collation} {db db' : Db}

theorem Db.Ok.insertUser {username password salt : Str} {isAdmin : Int} (h : db.Ok collate)
    (hdb : db.insertUser collate username password salt isAdmin = some db') : db'.Ok collate := by
  obtain ⟨hname, rfl⟩ := Db.of_insertUser hdb
  refine ⟨h.userids.append fun y hy => ne_of_lt (h.userid_lt y hy), h.usernames.append hname, ?_,
    h.progress, h.progress_pos, h.nextProgress_pos⟩
  intro r hr
  rcases List.mem_append.mp hr with hr | hr
  · exact (h.userid_lt r hr).trans (Int.lt_succ _)
  · rw [List.mem_singleton.mp hr]
    exact Int.lt_succ _

theorem Db.Ok.updateUser {username password salt : Str} {isAdmin userid : Int} (h : db.Ok collate)
    (hdb : db.updateUser collate username password salt isAdmin userid = some db') :
    db'.Ok collate := by
  obtain ⟨hname, rfl⟩ := Db.of_updateUser hdb
  refine ⟨h.userids.update fun _ _ _ => rfl, ?_, ?_, h.progress, h.progress_pos, h.nextProgress_pos⟩
  · exact h.usernames.update_one h.userids (fun _ => decide_eq_true_iff) hname
  · intro r hr
    obtain ⟨x, hx, rfl⟩ := mem_update.mp hr
    have := h.userid_lt x hx
    split
    · exact this
    · exact this

theorem Db.Ok.insertProgress {userId questionId attemptCount : Int} {isCompleted : Bool}
    {completedTime : Str} (h : db.Ok collate)
    (hdb : db.insertProgress userId questionId isCompleted completedTime attemptCount = some db') :
    db'.Ok collate := by
  obtain ⟨hkey, rfl⟩ := Db.of_insertProgress hdb
  refine ⟨h.userids, h.usernames, h.userid_lt, h.progress.append hkey, ?_, ?_⟩
  · intro r hr
    rcases List.mem_append.mp hr with hr | hr
    · exact h.progress_pos r hr
    · rw [List.mem_singleton.mp hr]
      exact h.nextProgress_pos
  · exact h.nextProgress_pos.trans (Int.lt_succ _)

theorem Db.Ok.updateProgress {userId questionId attemptCount : Int} {isCompleted : Bool}
    {completedTime : Str} (h : db.Ok collate) :
    (db.updateProgress isCompleted completedTime attemptCount userId questionId).Ok collate := by
  refine ⟨h.userids, h.usernames, h.userid_lt, h.progress.update fun _ _ _ => rfl, ?_,
    h.nextProgress_pos⟩
  intro r hr
  obtain ⟨x, hx, rfl⟩ := mem_update.mp hr
  have := h.progress_pos x hx
  split
  · exact this
  · exact this

theorem Db.Ok.deleteUser {userid : Option Int} (h : db.Ok collate) :
    (db.deleteUser userid).Ok collate :=
  ⟨h.userids.filter _, h.usernames.filter _, fun r hr => h.userid_lt r (List.mem_filter.mp hr).1,
    h.progress.filter _, fun r hr => h.progress_pos r (List.mem_filter.mp hr).1, h.nextProgress_pos⟩

theorem Db.Ok.skips (h : db.Ok collate) (hs : db.Skips db') : db'.Ok collate where
  userids := hs.user ▸ h.userids
  usernames := hs.user ▸ h.usernames
  userid_lt r hr := (h.userid_lt r (hs.user ▸ hr)).trans_le hs.nextUser
  progress := hs.progress ▸ h.progress
  progress_pos r hr := h.progress_pos r (hs.progress ▸ hr)
  nextProgress_pos := h.nextProgress_pos.trans_le hs.nextProgress

theorem Db.Ok.deleteQuestion {id : Option Int} (h : db.Ok collate) :
    (db.deleteQuestion id).Ok collate :=
  ⟨h.userids, h.usernames, h.userid_lt, h.progress.filter _,
    fun r hr => h.progress_pos r (List.mem_filter.mp hr).1, h.nextProgress_pos⟩

/-- Every statement keeps the keys. -/
theorem Db.Ok.meaning {stmt : Stmt} (h : db.Ok collate) (hdb : stmt.meaning collate db = some db') :
    db'.Ok collate := by
  cases stmt with
  | addUser | insertUserByAdmin => exact h.insertUser hdb
  | updateUserById => exact h.updateUser hdb
  | deleteUserById =>
    cases hdb
    exact h.deleteUser
  | insertQuestion | updateQuestion =>
    cases hdb
    exact ⟨h.userids, h.usernames, h.userid_lt, h.progress, h.progress_pos, h.nextProgress_pos⟩
  | deleteQuestion =>
    cases hdb
    exact h.deleteQuestion
  | addUserProgress => exact h.insertProgress hdb
  | updateUserProgress =>
    cases hdb
    exact h.updateProgress

theorem Db.Ok.does {stmt : Stmt} (h : db.Ok collate) (hdb : stmt.Does collate db db') : db'.Ok collate := by
  obtain ⟨db₀, hskips, hdb⟩ := hdb
  exact (h.skips hskips).meaning hdb

end

end OJ.Server
