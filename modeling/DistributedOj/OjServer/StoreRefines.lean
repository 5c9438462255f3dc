import DistributedOj.Framework.Lookup
import DistributedOj.Framework.Simulation
import DistributedOj.OjServer.Deeds
import DistributedOj.OjServer.Store

/-!
# The tables are a store

Each statement does to the tables what `Stmt.spec` says of the maps that they
stand for (`Db.abs`), and is rejected by a key where that is (`Db.Sound.refines`).
MySQL takes the statements of all threads one after another, so whatever order
they come in the tables go the way of the store, and each of the seven `SELECT`s
reads what is in it, or fails (`Db.refines_run`). Of any number of statements in any order, none leaves
progress of a user or on a question that is not there, and none brings back
what has been deleted (`Db.integrity`).
-/

namespace OJ.Server

open OJ.Comm OJ.Framework Table

def UserRow.profile (r : UserRow) : Profile := ⟨r.username, r.password, r.salt, r.isAdmin⟩

def QuestionRow.problem (r : QuestionRow) : Problem :=
  ⟨r.title, r.star, r.questionDesc, r.header, r.tail, r.timeLimit, r.memLimit⟩

def ProgressRow.effort (r : ProgressRow) : Effort := ⟨r.isCompleted, r.completedTime, r.attemptCount⟩

namespace Db

/-- What the tables stand for. -/
def abs (db : Db) : Store where
  accounts := toMap UserRow.userid UserRow.profile db.user
  problems := toMap QuestionRow.id QuestionRow.problem db.questions
  efforts := toMap ProgressRow.key ProgressRow.effort db.progress
  nextAccount := db.nextUser
  nextProblem := db.nextQuestion

/-- The tables have their keys, and stand for a sound store. -/
structure Sound (collate : Collation) (db : Db) : Prop extends db.Ok collate where
  questionids : Keyed QuestionRow.id db.questions
  store : db.abs.Sound collate

variable {collate : Collation} {db db' : Db} {stmt : Stmt}

theorem hasName_abs (h : Keyed UserRow.userid db.user) {username : Str} {i : Int} :
    db.abs.HasName collate username i ↔ ∃ r ∈ db.user, r.userid = i ∧ r.name collate = collate username := by
  constructor
  · rintro ⟨a, ha, hn⟩
    obtain ⟨r, hr, hi, rfl⟩ := exists_of_toMap ha
    exact ⟨r, hr, hi, hn⟩
  · rintro ⟨r, hr, rfl, hn⟩
    exact ⟨r.profile, h.toMap_of_mem hr, hn⟩

theorem Sound.insertUser (h : db.Sound collate) (username password salt : Str) (isAdmin : Int) :
    (db.insertUser collate username password salt isAdmin).map abs =
      db.abs.createAccount collate ⟨username, password, salt, isAdmin⟩ := by
  have htaken : (∃ r ∈ db.user, r.name collate = collate username) ↔
      ∃ i, db.abs.HasName collate username i := by
    simp only [hasName_abs h.userids]
    exact ⟨fun ⟨r, hr, hn⟩ => ⟨r.userid, r, hr, rfl, hn⟩, fun ⟨_, r, hr, _, hn⟩ => ⟨r, hr, hn⟩⟩
  rw [Db.insertUser, Store.createAccount]
  by_cases ht : ∃ r ∈ db.user, r.name collate = collate username
  · rw [if_pos ht, if_pos (htaken.mp ht)]
    rfl
  · rw [if_neg ht, if_neg fun e => ht (htaken.mpr e)]
    refine congrArg some (Store.ext ?_ rfl rfl rfl rfl)
    exact toMap_append fun r hr => (h.userid_lt r hr).ne

theorem Sound.updateUser (h : db.Sound collate) (username password salt : Str) (isAdmin userid : Int) :
    (db.updateUser collate username password salt isAdmin userid).map abs =
      db.abs.editAccount collate ⟨username, password, salt, isAdmin⟩ userid := by
  have htaken : ((∃ r ∈ db.user, r.userid = userid) ∧
      ∃ r ∈ db.user, r.userid ≠ userid ∧ r.name collate = collate username) ↔
      db.abs.accounts userid ≠ none ∧ ∃ j ≠ userid, db.abs.HasName collate username j := by
    simp only [hasName_abs h.userids]
    refine and_congr toMap_ne_none.symm ?_
    exact ⟨fun ⟨r, hr, hne, hn⟩ => ⟨r.userid, hne, r, hr, rfl, hn⟩,
      fun ⟨_, hne, r, hr, e, hn⟩ => ⟨r, hr, e ▸ hne, hn⟩⟩
  rw [Db.updateUser, Store.editAccount]
  by_cases ht : (∃ r ∈ db.user, r.userid = userid) ∧
      ∃ r ∈ db.user, r.userid ≠ userid ∧ r.name collate = collate username
  · rw [if_pos ht, if_pos (htaken.mp ht)]
    rfl
  · rw [if_neg ht, if_neg fun e => ht (htaken.mpr e)]
    refine congrArg some (Store.ext ?_ rfl rfl rfl rfl)
    exact toMap_update (fun _ => decide_eq_true_iff) (fun _ => rfl) fun _ => rfl

/-- The rows left by a deletion under a number. -/
theorem toMap_filter_ne {α β : Type} {key : α → Int} {val : α → β} {l : List α} (i : Int) :
    toMap key val (l.filter fun r => some (key r) ≠ some i) = Function.update (toMap key val l) i none := by
  rw [toMap_filter (P := fun k => k ≠ i) fun y => by simp]
  funext k
  by_cases e : k = i
  · subst e
    rw [Function.update_self, if_neg fun hne => hne rfl]
  · rw [Function.update_of_ne e, if_pos e]

theorem filter_none {α : Type} {key : α → Int} {l : List α} :
    (l.filter fun r => some (key r) ≠ (none : Option Int)) = l :=
  List.filter_eq_self.mpr fun _ _ => by simp

theorem abs_deleteUser (id : Option Int) : (db.deleteUser id).abs = id.elim db.abs (db.abs.removeAccount ·) := by
  cases id with
  | none => exact congrArg abs (by rw [Db.deleteUser, filter_none, filter_none])
  | some i =>
    refine Store.ext (toMap_filter_ne i) rfl ?_ rfl rfl
    show toMap _ _ (db.progress.filter fun r => some r.userId ≠ some i) = _
    rw [toMap_filter (P := fun k : Int × Int => k.1 ≠ i) fun y => by simp [ProgressRow.key]]
    funext k
    by_cases e : k.1 = i
    · simp [Option.elim, Store.removeAccount, e]
    · simp [Option.elim, Store.removeAccount, e, abs]

theorem abs_deleteQuestion (id : Option Int) :
    (db.deleteQuestion id).abs = id.elim db.abs (db.abs.removeProblem ·) := by
  cases id with
  | none => exact congrArg abs (by rw [Db.deleteQuestion, filter_none, filter_none])
  | some i =>
    refine Store.ext rfl (toMap_filter_ne i) ?_ rfl rfl
    show toMap _ _ (db.progress.filter fun r => some r.questionId ≠ some i) = _
    rw [toMap_filter (P := fun k : Int × Int => k.2 ≠ i) fun y => by simp [ProgressRow.key]]
    funext k
    by_cases e : k.2 = i
    · simp [Option.elim, Store.removeProblem, e]
    · simp [Option.elim, Store.removeProblem, e, abs]

theorem abs_updateQuestion (title star questionDesc header tail : Str) (timeLimit memLimit : Int)
    (id : Option Int) :
    (db.updateQuestion title star questionDesc header tail timeLimit memLimit id).abs =
      id.elim db.abs
        (db.abs.editProblem ⟨title, star, questionDesc, header, tail, timeLimit, memLimit⟩ ·) := by
  cases id with
  | none =>
    have hsame : Table.update (fun r : QuestionRow => some r.id = none)
        (fun r => ⟨r.id, title, star, questionDesc, header, tail, timeLimit, memLimit⟩) db.questions =
        db.questions := by
      simp [Table.update]
    exact congrArg abs (by rw [Db.updateQuestion, hsame])
  | some i =>
    refine Store.ext rfl ?_ rfl rfl rfl
    exact toMap_update (fun _ => by simp) (fun _ => rfl) fun _ => rfl

theorem abs_insertProgress (userId questionId : Int) (isCompleted : Bool)
    (completedTime : Str) (attemptCount : Int) :
    (db.insertProgress userId questionId isCompleted completedTime attemptCount).map abs =
      db.abs.createEffort ⟨isCompleted, completedTime, attemptCount⟩ (userId, questionId) := by
  have hfree : ((∃ r ∈ db.user, r.userid = userId) ∧ (∃ r ∈ db.questions, r.id = questionId) ∧
      ∀ r ∈ db.progress, r.key ≠ (userId, questionId)) ↔
      db.abs.accounts userId ≠ none ∧ db.abs.problems questionId ≠ none ∧
        db.abs.efforts (userId, questionId) = none :=
    and_congr toMap_ne_none.symm (and_congr toMap_ne_none.symm toMap_eq_none.symm)
  rw [Db.insertProgress, Store.createEffort]
  by_cases hf : (∃ r ∈ db.user, r.userid = userId) ∧ (∃ r ∈ db.questions, r.id = questionId) ∧
      ∀ r ∈ db.progress, r.key ≠ (userId, questionId)
  · rw [if_pos hf, if_pos (hfree.mp hf)]
    refine congrArg some (Store.ext rfl rfl ?_ rfl rfl)
    exact toMap_append hf.2.2
  · rw [if_neg hf, if_neg fun e => hf (hfree.mpr e)]
    rfl

/-- What a statement does to the tables is what it means for the store. -/
theorem Sound.refines (h : db.Sound collate) (stmt : Stmt) :
    (stmt.meaning collate db).map abs = stmt.spec collate db.abs := by
  cases stmt with
  | addUser username password salt => exact h.insertUser username password salt 0
  | insertUserByAdmin username password salt isAdmin => exact h.insertUser username password salt isAdmin
  | updateUserById username password salt isAdmin userid =>
    exact h.updateUser username password salt isAdmin userid
  | deleteUserById userid => exact congrArg some (abs_deleteUser _)
  | insertQuestion =>
    refine congrArg some (Store.ext rfl ?_ rfl rfl rfl)
    exact toMap_append fun r hr => (h.store.problems_lt r.id (toMap_ne_none.mpr ⟨r, hr, rfl⟩)).ne
  | updateQuestion => exact congrArg some (abs_updateQuestion ..)
  | deleteQuestion id => exact congrArg some (abs_deleteQuestion _)
  | addUserProgress userId questionId isCompleted completedTime attemptCount =>
    exact abs_insertProgress userId questionId isCompleted completedTime attemptCount
  | updateUserProgress =>
    refine congrArg some (Store.ext rfl rfl ?_ rfl rfl)
    exact toMap_update (fun _ => decide_eq_true_iff) (fun _ => rfl) fun _ => rfl

theorem keyed_questions (h : db.Sound collate) (hdb : stmt.meaning collate db = some db') :
    Keyed QuestionRow.id db'.questions := by
  cases stmt with
  | addUser | insertUserByAdmin =>
    obtain ⟨-, rfl⟩ := Db.of_insertUser hdb
    exact h.questionids
  | updateUserById =>
    obtain ⟨-, rfl⟩ := Db.of_updateUser hdb
    exact h.questionids
  | addUserProgress =>
    obtain ⟨-, rfl⟩ := Db.of_insertProgress hdb
    exact h.questionids
  | deleteUserById | updateUserProgress =>
    cases hdb
    exact h.questionids
  | insertQuestion =>
    cases hdb
    exact h.questionids.append fun r hr => (h.store.problems_lt r.id (toMap_ne_none.mpr ⟨r, hr, rfl⟩)).ne
  | updateQuestion =>
    cases hdb
    exact h.questionids.update fun _ _ _ => rfl
  | deleteQuestion =>
    cases hdb
    exact h.questionids.filter _

/-- Every statement keeps `Sound`. -/
theorem Sound.step (h : db.Sound collate) (hdb : stmt.meaning collate db = some db') : db'.Sound collate := by
  have hspec : stmt.spec collate db.abs = some db'.abs := by rw [← h.refines, hdb, Option.map_some]
  exact ⟨h.toOk.meaning hdb, keyed_questions h hdb, h.store.step hspec⟩

theorem abs_skips (hs : db.Skips db') : db'.abs =
    { db.abs with nextAccount := db'.nextUser, nextProblem := db'.nextQuestion } := by
  rw [abs, hs.user, hs.questions, hs.progress]
  rfl

theorem Sound.skips (h : db.Sound collate) (hs : db.Skips db') : db'.Sound collate where
  toOk := h.toOk.skips hs
  questionids := hs.questions ▸ h.questionids
  store := by
    rw [abs_skips hs]
    exact ⟨h.store.names, fun i hi => (h.store.accounts_lt i hi).trans_le hs.nextUser,
      fun i hi => (h.store.problems_lt i hi).trans_le hs.nextQuestion, h.store.efforts⟩

theorem Sound.does (h : db.Sound collate) (hdb : stmt.Does collate db db') : db'.Sound collate := by
  obtain ⟨db₀, hskips, hdb⟩ := hdb
  exact (h.skips hskips).step hdb

/-! ## Runs -/

/-- A statement that MySQL carries out. -/
def carryOut (collate : Collation) (db : Db) (stmt : Stmt) : Option Db := stmt.meaning collate db

variable {stmts : List Stmt}

theorem Sound.run (h : db.Sound collate) (hr : Run (carryOut collate) Free db stmts db') : db'.Sound collate :=
  hr.inv (fun _ _ _ hs _ hstep => hs.step hstep) h

theorem Sound.run_abs (h : db.Sound collate) (hr : Run (carryOut collate) Free db stmts db') :
    Run (fun s stmt => Stmt.spec collate stmt s) Free db.abs stmts db'.abs := by
  induction hr with
  | nil _ => exact .nil _
  | @cons db db₁ _ stmt _ _ hstep _ ih =>
    have hspec : stmt.spec collate db.abs = some db₁.abs := by rw [← h.refines, show stmt.meaning _ _ = _ from hstep]; rfl
    exact .cons trivial hspec (ih (h.step hstep))

/-- What the `SELECT`s give is what is in the store, unless they fail. -/
structure Reads (collate : Collation) (m : MySQL) (db : Db) (s : Store) : Prop where
  userById : ∀ userid rows, m.userById userid db = some rows →
    rows.map UserRow.profile = ((idOf userid).bind s.accounts).toList
  user : ∀ username rows, m.user username db = some rows → (rows = [] ∧ ∀ i, ¬ s.HasName collate username i) ∨
    ∃ r, rows = [r] ∧ s.accounts r.userid = some r.profile ∧ s.HasName collate username r.userid
  allUsers : ∀ rows, m.allUsers db = some rows → Lists UserRow.userid UserRow.profile rows s.accounts
  question : ∀ id rows, m.question id db = some rows →
    rows.map QuestionRow.problem = ((idOf id).bind s.problems).toList
  allQuestions : ∀ rows, m.allQuestions db = some rows → Lists QuestionRow.id QuestionRow.problem rows s.problems
  progress : ∀ userId questionId rows, m.progress userId questionId db = some rows →
    rows.map ProgressRow.effort = (s.efforts (userId, questionId)).toList
  completed : ∀ userId rows, m.completed userId db = some rows →
    Lists ProgressRow.key ProgressRow.effort rows
      (fun k => (s.efforts k).filter fun x => k.1 = userId ∧ x.isCompleted) ∧
    rows.Pairwise fun r r' => r'.completedTime ≤ r.completedTime

/-- A selection by a text that may be no number. -/
theorem map_rowsWith_some {α β : Type} {key : α → Int} {val : α → β} {l : List α} (h : Keyed key l)
    (i : Option Int) :
    (rowsWith (fun r => some (key r)) i l).map val = (i.bind (toMap key val l)).toList := by
  cases i with
  | none =>
    have hnone : rowsWith (fun r => some (key r)) none l = [] := rowsWith_eq_nil.mpr fun _ _ e => by cases e
    rw [hnone]
    rfl
  | some i =>
    have hrows : rowsWith (fun r => some (key r)) (some i) l = rowsWith key i l :=
      List.filter_congr fun r _ => by simp
    rw [hrows, h.map_rowsWith]
    rfl

/-- An answer of MySQL that is no error. -/
theorem rows_eq {α : Type*} {x : Option α} {meant rows : α} (h : OrError x (some meant)) (hx : x = some rows) :
    rows = meant := by
  rcases h with e | e
  · rw [hx] at e
    cases e
  · exact Option.some.inj (hx.symm.trans e)

theorem Sound.reads (h : db.Sound collate) {m : MySQL} (hm : m.Meant collate) (hl : m.Lists) :
    Reads collate m db db.abs where
  userById userid rows hrows := by
    rw [rows_eq (hm.userById userid db) hrows]
    exact map_rowsWith_some h.userids _
  question id rows hrows := by
    rw [rows_eq (hm.question id db) hrows]
    exact map_rowsWith_some h.questionids _
  progress userId questionId rows hrows := by
    rw [rows_eq (hm.progress userId questionId db) hrows]
    exact h.toOk.progress.map_rowsWith
  allUsers rows hrows := h.userids.lists (hl.allUsers db rows hrows)
  allQuestions rows hrows := h.questionids.lists (hl.allQuestions db rows hrows)
  completed userId rows hrows := by
    obtain ⟨hp, horder⟩ := hl.completed userId db rows hrows
    exact ⟨h.toOk.progress.lists_filter (fun _ => rfl) hp, horder⟩
  user username rows hrows := by
    rw [rows_eq (hm.user username db) hrows]
    by_cases hn : ∃ r ∈ db.user, r.name collate = collate username
    · obtain ⟨r, hr, hn⟩ := hn
      have hrows : rowsWith (UserRow.name collate) (collate username) db.user = [r] :=
        hn ▸ h.usernames.rowsWith_eq hr
      exact .inr ⟨r, hrows, h.userids.toMap_of_mem hr, (hasName_abs h.userids).mpr ⟨r, hr, rfl, hn⟩⟩
    · refine .inl ⟨rowsWith_eq_nil.mpr fun r hr e => hn ⟨r, hr, e⟩, fun i hi => hn ?_⟩
      obtain ⟨r, hr, -, e⟩ := (hasName_abs h.userids).mp hi
      exact ⟨r, hr, e⟩

/-- Whatever statements are carried out, in whatever order: the store goes
through the same statements, at the end the tables and the store reject the same
ones, and each `SELECT` reads what is in the store, or fails. -/
theorem refines_run (h : db.Sound collate) (hr : Run (carryOut collate) Free db stmts db') :
    Run (fun s stmt => Stmt.spec collate stmt s) Free db.abs stmts db'.abs ∧
      (∀ m : MySQL, m.Meant collate → m.Lists → Reads collate m db' db'.abs) ∧
      ∀ stmt : Stmt, stmt.meaning collate db' = none ↔ stmt.spec collate db'.abs = none := by
  have h' := h.run hr
  refine ⟨h.run_abs hr, fun m hm hl => h'.reads hm hl, fun stmt => ?_⟩
  rw [← h'.refines, Option.map_eq_none_iff]

theorem sample_sound : Db.sample.Sound id where
  toOk := Db.sample_ok
  questionids := by decide
  store := by
    have hname {i : Int} {username : Str} (h : Db.sample.abs.HasName id username i) : i = 1 := by
      obtain ⟨r, hr, rfl, -⟩ := (hasName_abs Db.sample_ok.userids).mp h
      rw [List.mem_singleton.mp hr]
    refine ⟨fun i j _ hi hj => (hname hi).trans (hname hj).symm, fun i hi => ?_, fun i hi => ?_, fun k hk => ?_⟩
    · obtain ⟨r, hr, rfl⟩ := toMap_ne_none.mp hi
      exact Db.sample_ok.userid_lt r hr
    · obtain ⟨r, hr, rfl⟩ := toMap_ne_none.mp hi
      rw [List.mem_singleton.mp hr]
      decide
    · exact absurd rfl hk

/-- A deletion takes the user's progress with it. -/
theorem refines_run_two : ∃ db', Run (carryOut id) Free Db.sample
    [.addUserProgress 1 7 false [] 0, .deleteUserById "1".toList] db' ∧ Reads id (.exact id) db' db'.abs := by
  have hr : Run (carryOut id) Free Db.sample [.addUserProgress 1 7 false [] 0, .deleteUserById "1".toList] _ :=
    .of_replay rfl
  exact ⟨_, hr, (refines_run sample_sound hr).2.1 _ (MySQL.exact_meant id) (MySQL.exact_lists id)⟩

/-- The accounts and questions that have been deleted. -/
def Deleted (db : Db) : Set Int × Set Int :=
  (fun i => i < db.nextUser ∧ ∀ r ∈ db.user, r.userid ≠ i,
    fun i => i < db.nextQuestion ∧ ∀ r ∈ db.questions, r.id ≠ i)

theorem removed_abs {A P : Set Int} : db.abs.Removed A P ↔ A ⊆ db.Deleted.1 ∧ P ⊆ db.Deleted.2 := by
  constructor
  · intro h
    refine ⟨fun i hi => ?_, fun i hi => ?_⟩
    · obtain ⟨hlt, hnone⟩ := h.accounts i hi
      exact ⟨hlt, toMap_eq_none.mp hnone⟩
    · obtain ⟨hlt, hnone⟩ := h.problems i hi
      exact ⟨hlt, toMap_eq_none.mp hnone⟩
  · rintro ⟨hA, hP⟩
    refine ⟨fun i hi => ?_, fun i hi => ?_⟩
    · obtain ⟨hlt, hnone⟩ := hA hi
      exact ⟨hlt, toMap_eq_none.mpr hnone⟩
    · obtain ⟨hlt, hnone⟩ := hP hi
      exact ⟨hlt, toMap_eq_none.mpr hnone⟩

/-- What has been deleted stays deleted. -/
theorem Sound.deleted (h : db.Sound collate) (hr : Run (carryOut collate) Free db stmts db') :
    db.Deleted.1 ⊆ db'.Deleted.1 ∧ db.Deleted.2 ⊆ db'.Deleted.2 :=
  removed_abs.mp <| (h.run_abs hr).inv (I := Store.Removed db.Deleted.1 db.Deleted.2)
    (fun _ _ _ hs _ hstep => hs.step hstep) (removed_abs.mpr ⟨subset_rfl, subset_rfl⟩)

theorem Sound.deleted_of_does {stmt : Stmt} (h : db.Sound collate) (hdb : stmt.Does collate db db') :
    db.Deleted.1 ⊆ db'.Deleted.1 ∧ db.Deleted.2 ⊆ db'.Deleted.2 := by
  obtain ⟨db₀, hskips, hdb⟩ := hdb
  obtain ⟨hA, hP⟩ := (h.skips hskips).deleted (.single trivial hdb)
  refine ⟨fun i hi => hA ⟨hi.1.trans_le hskips.nextUser, ?_⟩, fun i hi => hP ⟨hi.1.trans_le hskips.nextQuestion, ?_⟩⟩
  · rw [hskips.user]
    exact hi.2
  · rw [hskips.questions]
    exact hi.2

/-- Progress is of users and on questions that are there. -/
theorem Sound.known (h : db.Sound collate) {r : ProgressRow} (hr : r ∈ db.progress) :
    db.Known r.userId r.questionId := by
  have heffort : db.abs.efforts r.key ≠ none := toMap_ne_none.mpr ⟨r, hr, rfl⟩
  obtain ⟨hu, hq⟩ := h.store.efforts r.key heffort
  exact ⟨toMap_ne_none.mp hu, toMap_ne_none.mp hq⟩

/-- Whatever statements are carried out, in whatever order: each row of
progress is of a user and on a question that are there, and an account or a
question that has been deleted stays so, with all progress that refers to it. -/
theorem integrity (h : db.Sound collate) (hr : Run (carryOut collate) Free db stmts db') :
    (∀ r ∈ db'.progress, db'.Known r.userId r.questionId) ∧
    db.Deleted.1 ⊆ db'.Deleted.1 ∧ db.Deleted.2 ⊆ db'.Deleted.2 ∧
    ∀ r ∈ db'.progress, r.userId ∉ db.Deleted.1 ∧ r.questionId ∉ db.Deleted.2 := by
  obtain ⟨hA, hP⟩ := h.deleted hr
  refine ⟨fun r hmem => (h.run hr).known hmem, hA, hP, fun r hmem => ?_⟩
  obtain ⟨⟨u, hu, hui⟩, q, hq, hqi⟩ := (h.run hr).known hmem
  exact ⟨fun hd => (hA hd).2 u hu hui, fun hd => (hP hd).2 q hq hqi⟩

/-- The number of a deleted user is not used again. -/
theorem integrity_three : ∃ db₁ db₂, Run (carryOut id) Free Db.sample [.deleteUserById "1".toList] db₁ ∧
    Run (carryOut id) Free db₁ [.addUser "ann".toList [] []] db₂ ∧ 1 ∈ db₁.Deleted.1 ∧ 1 ∈ db₂.Deleted.1 := by
  have h₁ : Run (carryOut id) Free Db.sample [.deleteUserById "1".toList] (Db.sample.deleteUser (some 1)) :=
    .of_replay rfl
  have h₂ : Run (carryOut id) Free (Db.sample.deleteUser (some 1)) [.addUser "ann".toList [] []] _ :=
    .of_replay rfl
  have hd : 1 ∈ (Db.sample.deleteUser (some 1)).Deleted.1 := ⟨by decide, by decide⟩
  exact ⟨_, _, h₁, h₂, hd, (integrity (sample_sound.run h₁) h₂).2.1 hd⟩

end Db

end OJ.Server
