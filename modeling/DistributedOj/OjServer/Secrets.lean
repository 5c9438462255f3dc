import DistributedOj.OjServer.Deeds

/-!
# Secrets in the tables

The digests and salts of passwords, and the tests and the limits of questions,
are no one's business. Two databases may differ in them alone (`Db.Same`): every
statement keeps it so (`Db.Same.meaning`), and every `SELECT` gives rows that
differ in them alone (`MySQL.exact_blind`).
-/

namespace OJ.Server

open OJ.Comm OJ.Framework Table

/-- Rows that differ at most in the password and its salt. -/
structure UserRow.Same (r r' : UserRow) : Prop where
  userid : r.userid = r'.userid
  username : r.username = r'.username
  isAdmin : r.isAdmin = r'.isAdmin

/-- Rows that differ at most in the tests and the limits. -/
structure QuestionRow.Same (r r' : QuestionRow) : Prop where
  id : r.id = r'.id
  title : r.title = r'.title
  star : r.star = r'.star
  questionDesc : r.questionDesc = r'.questionDesc
  header : r.header = r'.header

/-- Databases that differ at most in what is secret. -/
structure Db.Same (db db' : Db) : Prop where
  user : List.Forall₂ UserRow.Same db.user db'.user
  questions : List.Forall₂ QuestionRow.Same db.questions db'.questions
  progress : db.progress = db'.progress
  nextUser : db.nextUser = db'.nextUser
  nextQuestion : db.nextQuestion = db'.nextQuestion
  nextProgress : db.nextProgress = db'.nextProgress

/-- What MySQL answers, and whether it fails, has nothing to do with what is
secret. -/
structure MySQL.Blind (m : MySQL) : Prop where
  exec : ∀ stmt db db', db.Same db' → Option.Rel Db.Same (m.exec stmt db) (m.exec stmt db')
  user : ∀ username db db', db.Same db' →
    Option.Rel (List.Forall₂ UserRow.Same) (m.user username db) (m.user username db')
  userById : ∀ userid db db', db.Same db' →
    Option.Rel (List.Forall₂ UserRow.Same) (m.userById userid db) (m.userById userid db')
  allUsers : ∀ db db', db.Same db' →
    Option.Rel (List.Forall₂ UserRow.Same) (m.allUsers db) (m.allUsers db')
  question : ∀ id db db', db.Same db' →
    Option.Rel (List.Forall₂ QuestionRow.Same) (m.question id db) (m.question id db')
  allQuestions : ∀ db db', db.Same db' →
    Option.Rel (List.Forall₂ QuestionRow.Same) (m.allQuestions db) (m.allQuestions db')
  progress : ∀ userId questionId db db', db.Same db' →
    m.progress userId questionId db = m.progress userId questionId db'
  completed : ∀ userId db db', db.Same db' → m.completed userId db = m.completed userId db'

theorem UserRow.Same.refl (r : UserRow) : r.Same r := ⟨rfl, rfl, rfl⟩

theorem QuestionRow.Same.refl (r : QuestionRow) : r.Same r := ⟨rfl, rfl, rfl, rfl, rfl⟩

namespace Db.Same

variable {collate : Collation} {db db' : Db}

theorem insertUser (h : db.Same db') (username password salt : Str) (isAdmin : Int) :
    Option.Rel Db.Same (db.insertUser collate username password salt isAdmin)
      (db'.insertUser collate username password salt isAdmin) := by
  have hname : (∃ r ∈ db.user, r.name collate = collate username) ↔
      ∃ r ∈ db'.user, r.name collate = collate username :=
    exists_iff_of_forall₂ h.user fun r r' hr => by rw [UserRow.name, UserRow.name, hr.username]
  rw [Db.insertUser, Db.insertUser]
  by_cases hn : ∃ r ∈ db.user, r.name collate = collate username
  · rw [if_pos hn, if_pos (hname.mp hn)]
    exact .none
  · rw [if_neg hn, if_neg (hname.not.mp hn)]
    exact .some { h with
      user := forall₂_append h.user ⟨h.nextUser, rfl, rfl⟩
      nextUser := congrArg (· + 1) h.nextUser }

theorem updateUser (h : db.Same db') (username password salt : Str) (isAdmin userid : Int) :
    Option.Rel Db.Same (db.updateUser collate username password salt isAdmin userid)
      (db'.updateUser collate username password salt isAdmin userid) := by
  have hid : (∃ r ∈ db.user, r.userid = userid) ↔ ∃ r ∈ db'.user, r.userid = userid :=
    exists_iff_of_forall₂ h.user fun r r' hr => by rw [hr.userid]
  have hname : (∃ r ∈ db.user, r.userid ≠ userid ∧ r.name collate = collate username) ↔
      ∃ r ∈ db'.user, r.userid ≠ userid ∧ r.name collate = collate username :=
    exists_iff_of_forall₂ h.user fun r r' hr => by
      rw [UserRow.name, UserRow.name, hr.userid, hr.username]
  rw [Db.updateUser, Db.updateUser]
  by_cases hn : (∃ r ∈ db.user, r.userid = userid) ∧
      ∃ r ∈ db.user, r.userid ≠ userid ∧ r.name collate = collate username
  · rw [if_pos hn, if_pos ((and_congr hid hname).mp hn)]
    exact .none
  · rw [if_neg hn, if_neg ((and_congr hid hname).not.mp hn)]
    exact .some { h with
      user := forall₂_update h.user (fun r r' hr => by rw [hr.userid])
        fun r r' hr => ⟨hr.userid, rfl, rfl⟩ }

theorem deleteUser (h : db.Same db') (userid : Option Int) :
    (db.deleteUser userid).Same (db'.deleteUser userid) :=
  { h with
    user := forall₂_filter h.user fun r r' hr => by rw [hr.userid]
    progress := congrArg (List.filter _) h.progress }

theorem insertQuestion (h : db.Same db') (title star questionDesc header tail : Str)
    (timeLimit memLimit : Int) :
    (db.insertQuestion title star questionDesc header tail timeLimit memLimit).Same
      (db'.insertQuestion title star questionDesc header tail timeLimit memLimit) :=
  { h with
    questions := forall₂_append h.questions ⟨h.nextQuestion, rfl, rfl, rfl, rfl⟩
    nextQuestion := congrArg (· + 1) h.nextQuestion }

theorem updateQuestion (h : db.Same db') (title star questionDesc header tail : Str)
    (timeLimit memLimit : Int) (id : Option Int) :
    (db.updateQuestion title star questionDesc header tail timeLimit memLimit id).Same
      (db'.updateQuestion title star questionDesc header tail timeLimit memLimit id) :=
  { h with
    questions := forall₂_update h.questions (fun r r' hr => by rw [hr.id])
      fun r r' hr => ⟨hr.id, rfl, rfl, rfl, rfl⟩ }

theorem deleteQuestion (h : db.Same db') (id : Option Int) :
    (db.deleteQuestion id).Same (db'.deleteQuestion id) :=
  { h with
    questions := forall₂_filter h.questions fun r r' hr => by rw [hr.id]
    progress := congrArg (List.filter _) h.progress }

theorem insertProgress (h : db.Same db') (userId questionId : Int) (isCompleted : Bool)
    (completedTime : Str) (attemptCount : Int) :
    Option.Rel Db.Same (db.insertProgress userId questionId isCompleted completedTime attemptCount)
      (db'.insertProgress userId questionId isCompleted completedTime attemptCount) := by
  have hu : (∃ r ∈ db.user, r.userid = userId) ↔ ∃ r ∈ db'.user, r.userid = userId :=
    exists_iff_of_forall₂ h.user fun r r' hr => by rw [hr.userid]
  have hq : (∃ r ∈ db.questions, r.id = questionId) ↔ ∃ r ∈ db'.questions, r.id = questionId :=
    exists_iff_of_forall₂ h.questions fun r r' hr => by rw [hr.id]
  rw [Db.insertProgress, Db.insertProgress]
  by_cases hn : (∃ r ∈ db.user, r.userid = userId) ∧ (∃ r ∈ db.questions, r.id = questionId) ∧
      ∀ r ∈ db.progress, r.key ≠ (userId, questionId)
  · rw [if_pos hn, if_pos (by rw [← hu, ← hq, ← h.progress]; exact hn)]
    exact .some { h with
      progress := by rw [h.progress, h.nextProgress]
      nextProgress := congrArg (· + 1) h.nextProgress }
  · rw [if_neg hn, if_neg (by rw [← hu, ← hq, ← h.progress]; exact hn)]
    exact .none

theorem updateProgress (h : db.Same db') (isCompleted : Bool) (completedTime : Str)
    (attemptCount userId questionId : Int) :
    (db.updateProgress isCompleted completedTime attemptCount userId questionId).Same
      (db'.updateProgress isCompleted completedTime attemptCount userId questionId) :=
  { h with progress := congrArg (update _ _) h.progress }

/-- Every statement is accepted by both or by none, and leaves them the same. -/
theorem meaning (h : db.Same db') (stmt : Stmt) :
    Option.Rel Db.Same (stmt.meaning collate db) (stmt.meaning collate db') := by
  cases stmt with
  | addUser | insertUserByAdmin => exact h.insertUser _ _ _ _
  | updateUserById => exact h.updateUser _ _ _ _ _
  | deleteUserById => exact .some (h.deleteUser _)
  | insertQuestion => exact .some (h.insertQuestion _ _ _ _ _ _ _)
  | updateQuestion => exact .some (h.updateQuestion _ _ _ _ _ _ _ _)
  | deleteQuestion => exact .some (h.deleteQuestion _)
  | addUserProgress => exact h.insertProgress _ _ _ _ _
  | updateUserProgress => exact .some (h.updateProgress _ _ _ _ _)

end Db.Same

/-- The rows that a key selects in both. -/
theorem rel_rowsWith {α κ : Type} [DecidableEq κ] {R : α → α → Prop} {key : α → κ} {l m : List α} (k : κ)
    (h : List.Forall₂ R l m) (hk : ∀ x y, R x y → key x = key y) :
    Option.Rel (List.Forall₂ R) (some (rowsWith key k l)) (some (rowsWith key k m)) :=
  .some (forall₂_filter h fun x y hxy => by rw [hk x y hxy])

/-- MySQL without errors. -/
theorem MySQL.exact_blind (collate : Collation) : (MySQL.exact collate).Blind where
  exec stmt _ _ h := h.meaning stmt
  user _ _ _ h := rel_rowsWith _ h.user fun _ _ hr => congrArg collate hr.username
  userById _ _ _ h := rel_rowsWith _ h.user fun _ _ hr => congrArg some hr.userid
  allUsers _ _ h := .some (List.rel_reverse h.user)
  question _ _ _ h := rel_rowsWith _ h.questions fun _ _ hr => congrArg some hr.id
  allQuestions _ _ h := .some h.questions
  progress _ _ _ _ h := congrArg (fun l => some (rowsWith _ _ l)) h.progress
  completed _ db db' h := by
    show some (List.insertionSort _ (db.progress.filter _)) = some (List.insertionSort _ (db'.progress.filter _))
    rw [h.progress]

end OJ.Server
