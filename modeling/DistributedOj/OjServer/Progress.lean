import DistributedOj.OjServer.Database

/-!
# Progress on a question

`UserProgressControl`: `setCompleted` and `AddOrUpdateUserProgress` read the
row of a user and a question, change it (`touch`) and write it back, or insert
the caller's object if there is none (`touchAndStore`). With MySQL without
errors a call does one of three things (`Stores`). Calls in turn record a
completion unless the first one is a `setCompleted` that inserts the row
(`recorded_iff`).
-/

namespace OJ.Server

open OJ.Comm OJ.Framework Table

/-- `UserProgress`. -/
structure UserProgress where
  progressId : Int
  userId : Int
  questionId : Int
  isCompleted : Bool
  completedTime : Int
  attemptCount : Int
  deriving DecidableEq, Repr

/-- `UserProgress()`, with the user and the question set. -/
def UserProgress.new (userId questionId : Int) : UserProgress :=
  ⟨0, userId, questionId, false, 0, 0⟩

/-- `timeToString`, without its quotes, and `convertStringToTimeT`, which
depend on the time zone. -/
structure Clock where
  timeToString : Int → Str
  convertStringToTimeT : Str → Int

section
variable (m : MySQL) (clock : Clock)

/-- A row as `QueryMysql` reads it. -/
def ProgressRow.read (r : ProgressRow) : UserProgress :=
  ⟨r.progressId, r.userId, r.questionId, r.isCompleted,
    clock.convertStringToTimeT r.completedTime, r.attemptCount⟩

/-- `QueryUserProgress`, with `*up`: no row is a success that leaves it alone. -/
def queryUserProgress (userId questionId : Int) (up : UserProgress) : Sql (Bool × UserProgress) := do
  match ← query (m.progress userId questionId) with
  | some (r :: _) => return (true, r.read clock)
  | some [] => return (true, up)
  | none => return (false, up)

def queryProgress (userId questionId : Int) (userProgress : UserProgress) :
    Sql (Bool × UserProgress) := do
  let (ok, userProgress) ← queryUserProgress m clock userId questionId userProgress
  return (ok && userProgress.progressId != 0, userProgress)

def addUserProgress (up : UserProgress) : Sql Bool :=
  updateMysql m (.addUserProgress up.userId up.questionId up.isCompleted
    (clock.timeToString up.completedTime) up.attemptCount)

def updateUserProgress (up : UserProgress) : Sql Bool :=
  updateMysql m (.updateUserProgress up.isCompleted (clock.timeToString up.completedTime)
    up.attemptCount up.userId up.questionId)

/-- What a call does after its `queryProgress`. -/
def writeBack (touch : UserProgress → UserProgress) (found : Bool × UserProgress) : Sql Bool :=
  if found.1 then updateUserProgress m clock (touch found.2) else addUserProgress m clock found.2

/-- The statement that it sends. -/
def writtenBy (touch : UserProgress → UserProgress) (found : Bool × UserProgress) : Stmt :=
  if found.1 then
    .updateUserProgress (touch found.2).isCompleted (clock.timeToString (touch found.2).completedTime)
      (touch found.2).attemptCount (touch found.2).userId (touch found.2).questionId
  else
    .addUserProgress found.2.userId found.2.questionId found.2.isCompleted
      (clock.timeToString found.2.completedTime) found.2.attemptCount

theorem writeBack_eq (touch : UserProgress → UserProgress) (found : Bool × UserProgress) :
    writeBack m clock touch found = updateMysql m (writtenBy clock touch found) := by
  rw [writeBack, writtenBy]
  split
  · rfl
  · rfl

def touchAndStore (touch : UserProgress → UserProgress) (userProgress : UserProgress) : Sql Bool := do
  let found ← queryProgress m clock userProgress.userId userProgress.questionId userProgress
  writeBack m clock touch found

/-- `attemptCount++`. -/
def UserProgress.attempted (up : UserProgress) : UserProgress :=
  { up with attemptCount := (up.attemptCount + 1).bmod (2 ^ 32) }

/-- What `setCompleted` changes, with `time` what `std::time` returns. -/
def UserProgress.completed (time : Int) (up : UserProgress) : UserProgress :=
  { up with isCompleted := true, completedTime := time }.attempted

def setCompleted (time : Int) : UserProgress → Sql Bool := touchAndStore m clock (·.completed time)

def addOrUpdateUserProgress : UserProgress → Sql Bool := touchAndStore m clock (·.attempted)

end

/-- A `SELECT` changes nothing. -/
theorem run_queryProgress_state (m : MySQL) (clock : Clock) (userId questionId : Int)
    (up : UserProgress) (s : Db × List Stmt) :
    ((queryProgress m clock userId questionId up).run s).2 = s := by
  simp only [queryProgress, queryUserProgress, Stateful.run_bind, run_query]
  rcases m.progress userId questionId s.1 with _ | _ | ⟨r, rs⟩
  · rfl
  · rfl
  · rfl

/-! ## A call -/

/-- A call of `UserProgressControl`, with what `std::time` returns in it. -/
inductive ProgressCall where
  | setCompleted (time : Int)
  | addOrUpdateUserProgress
  deriving DecidableEq, Repr

namespace ProgressCall

def touch : ProgressCall → UserProgress → UserProgress
  | setCompleted time => (·.completed time)
  | addOrUpdateUserProgress => (·.attempted)

/-- The call with the object that the handlers make. -/
def run (m : MySQL) (clock : Clock) (userId questionId : Int) : ProgressCall → Sql Bool
  | setCompleted time => OJ.Server.setCompleted m clock time (.new userId questionId)
  | addOrUpdateUserProgress => OJ.Server.addOrUpdateUserProgress m clock (.new userId questionId)

theorem run_eq (m : MySQL) (clock : Clock) (userId questionId : Int) (c : ProgressCall) :
    c.run m clock userId questionId = touchAndStore m clock c.touch (.new userId questionId) := by
  cases c with
  | setCompleted => rfl
  | addOrUpdateUserProgress => rfl

@[simp] theorem touch_userId (c : ProgressCall) (up : UserProgress) :
    (c.touch up).userId = up.userId := by
  cases c with
  | setCompleted => rfl
  | addOrUpdateUserProgress => rfl

@[simp] theorem touch_questionId (c : ProgressCall) (up : UserProgress) :
    (c.touch up).questionId = up.questionId := by
  cases c with
  | setCompleted => rfl
  | addOrUpdateUserProgress => rfl

/-- What a call finds. -/
def found (m : MySQL) (clock : Clock) (userId questionId : Int) (db : Db) : Bool × UserProgress :=
  ((queryProgress m clock userId questionId (.new userId questionId)).run (db, [])).1

/-- A call sends one statement. -/
theorem run_stmt (m : MySQL) (clock : Clock) (userId questionId : Int) (c : ProgressCall) (db : Db) :
    (c.run m clock userId questionId).run (db, []) =
      let stmt := writtenBy clock c.touch (found m clock userId questionId db)
      ((m.exec stmt db).isSome, ((m.exec stmt db).getD db, [stmt])) := by
  rw [run_eq, touchAndStore, Stateful.run_bind, writeBack_eq, UserProgress.new,
    run_queryProgress_state, run_updateMysql]
  rfl

end ProgressCall

/-- The rows of a user and a question. -/
def Db.progressOf (userId questionId : Int) (db : Db) : List ProgressRow :=
  rowsWith ProgressRow.key (userId, questionId) db.progress

/-- What the foreign keys of a row ask for. -/
def Db.Known (userId questionId : Int) (db : Db) : Prop :=
  (∃ r ∈ db.user, r.userid = userId) ∧ ∃ r ∈ db.questions, r.id = questionId

theorem Db.Ok.progressOf {collate : Collation} {db : Db} (h : db.Ok collate) (userId questionId : Int) :
    db.progressOf userId questionId = [] ∨ ∃ r, db.progressOf userId questionId = [r] ∧
      r.key = (userId, questionId) ∧ 0 < r.progressId := by
  rcases hd : (db.progressOf userId questionId).head? with _ | r
  · exact .inl (List.head?_eq_none_iff.mp hd)
  · obtain ⟨hr, hk⟩ := h.progress.head?_eq_some.mp hd
    refine .inr ⟨r, ?_, hk, h.progress_pos r hr⟩
    rw [Db.progressOf, ← hk]
    exact h.progress.rowsWith_eq hr

/-- The tables with the row of `up` changed to it. -/
def Db.store (clock : Clock) (up : UserProgress) (db : Db) : Db :=
  db.updateProgress up.isCompleted (clock.timeToString up.completedTime) up.attemptCount up.userId
    up.questionId

/-- The tables with a row for a new object. -/
def Db.inserted (clock : Clock) (userId questionId : Int) (db : Db) : Db :=
  { db with
    progress := db.progress ++
      [⟨db.nextProgress, userId, questionId, false, clock.timeToString 0, 0⟩]
    nextProgress := db.nextProgress + 1 }

/-- What a call does to the tables if MySQL makes no errors, and what it
returns. -/
inductive Stores (clock : Clock) (userId questionId : Int) (touch : UserProgress → UserProgress)
    (db : Db) : Bool → Db → Prop
  | update {r : ProgressRow} : db.progressOf userId questionId = [r] →
      Stores clock userId questionId touch db true (db.store clock (touch (r.read clock)))
  | insert : db.progressOf userId questionId = [] → db.Known userId questionId →
      Stores clock userId questionId touch db true (db.inserted clock userId questionId)
  | reject : db.progressOf userId questionId = [] → ¬ db.Known userId questionId →
      Stores clock userId questionId touch db false db

section
variable {collate : Collation} {clock : Clock} {userId questionId : Int} {db : Db}

theorem insertProgress_eq (h : db.progressOf userId questionId = []) [Decidable (db.Known userId questionId)] :
    db.insertProgress userId questionId false (clock.timeToString 0) 0 =
      if db.Known userId questionId then some (db.inserted clock userId questionId) else none := by
  have hno := rowsWith_eq_nil.mp h
  rw [Db.insertProgress]
  by_cases hk : db.Known userId questionId
  · rw [if_pos ⟨hk.1, hk.2, hno⟩, if_pos hk]
    rfl
  · rw [if_neg fun h => hk ⟨h.1, h.2.1⟩, if_neg hk]

theorem run_queryProgress (log : List Stmt) (up : UserProgress) :
    (queryProgress (.exact collate) clock userId questionId up).run (db, log) =
      (match db.progressOf userId questionId with
        | r :: _ => (r.progressId != 0, r.read clock)
        | [] => (up.progressId != 0, up), (db, log)) := by
  simp only [queryProgress, queryUserProgress, Stateful.run_bind, run_query, MySQL.exact,
    Db.progressOf, Stateful.run_pure]
  rcases rowsWith ProgressRow.key (userId, questionId) db.progress with _ | ⟨r, rs⟩
  · rfl
  · rfl

variable (clock userId questionId) in
/-- A call in one piece. -/
theorem ProgressCall.run_spec (h : db.Ok collate) (log : List Stmt) (c : ProgressCall) :
    Stores clock userId questionId c.touch db
      ((c.run (.exact collate) clock userId questionId).run (db, log)).1
      ((c.run (.exact collate) clock userId questionId).run (db, log)).2.1 := by
  classical
  simp only [run_eq, touchAndStore, Stateful.run_bind, UserProgress.new, run_queryProgress]
  rcases h.progressOf userId questionId with e | ⟨r, e, hk, hpos⟩
  · simp only [e, writeBack, addUserProgress, run_updateMysql, MySQL.exact, Stmt.meaning,
      bne_self_eq_false, Bool.false_eq_true, if_false, insertProgress_eq e]
    by_cases hk : db.Known userId questionId
    · simp only [if_pos hk]
      exact .insert e hk
    · simp only [if_neg hk]
      exact .reject e hk
  · have hne : (r.progressId != 0) = true := by simpa using hpos.ne'
    simp only [e, writeBack, hne, if_true, updateUserProgress, run_updateMysql, MySQL.exact,
      Stmt.meaning]
    exact .update e

/-- The row as a call writes it back. -/
def ProgressRow.stored (clock : Clock) (touch : UserProgress → UserProgress) (r : ProgressRow) :
    ProgressRow :=
  { r with
    isCompleted := (touch (r.read clock)).isCompleted
    completedTime := clock.timeToString (touch (r.read clock)).completedTime
    attemptCount := (touch (r.read clock)).attemptCount }

namespace Stores

variable {c : ProgressCall} {ok : Bool} {db' : Db}

theorem keeps (h : Stores clock userId questionId c.touch db ok db') (hdb : db.Ok collate) :
    db'.Ok collate ∧ db'.user = db.user ∧ db'.questions = db.questions := by
  classical
  cases h with
  | update _ => exact ⟨hdb.updateProgress, rfl, rfl⟩
  | insert e hk =>
    have : db.insertProgress userId questionId false (clock.timeToString 0) 0 = _ :=
      insertProgress_eq e
    rw [if_pos hk] at this
    exact ⟨hdb.insertProgress this, rfl, rfl⟩
  | reject => exact ⟨hdb, rfl, rfl⟩

/-- The rows after a call. -/
theorem progressOf (h : Stores clock userId questionId c.touch db ok db') :
    (∃ r, db.progressOf userId questionId = [r] ∧ ok = true ∧
      db'.progressOf userId questionId = [r.stored clock c.touch]) ∨
    (db.progressOf userId questionId = [] ∧ db.Known userId questionId ∧ ok = true ∧
      db'.progressOf userId questionId =
        [⟨db.nextProgress, userId, questionId, false, clock.timeToString 0, 0⟩]) ∨
    (db.progressOf userId questionId = [] ∧ ¬ db.Known userId questionId ∧ ok = false ∧ db' = db) := by
  cases h with
  | @update r e =>
    refine .inl ⟨r, e, rfl, ?_⟩
    obtain ⟨-, hk⟩ := mem_rowsWith.mp (show r ∈ db.progressOf userId questionId from
      e ▸ List.mem_singleton_self r)
    have hu : (c.touch (r.read clock)).userId = userId :=
      (c.touch_userId _).trans (congrArg Prod.fst hk)
    have hq : (c.touch (r.read clock)).questionId = questionId :=
      (c.touch_questionId _).trans (congrArg Prod.snd hk)
    rw [Db.store, hu, hq, Db.progressOf, Db.updateProgress, rowsWith_update, ← Db.progressOf, e]
    · rfl
    · exact fun _ => decide_eq_true_iff
    · exact fun _ => rfl
  | insert e hk =>
    refine .inr (.inl ⟨e, hk, rfl, ?_⟩)
    rw [Db.progressOf, Db.inserted, rowsWith_append, ← Db.progressOf, e]
    simp [rowsWith, ProgressRow.key]
  | reject e hk => exact .inr (.inr ⟨e, hk, rfl, rfl⟩)

end Stores

end

/-! ## Calls in turn -/

/-- The calls one after another, with what each returns. -/
def runCalls (m : MySQL) (clock : Clock) (userId questionId : Int) :
    List ProgressCall → Sql (List (ProgressCall × Bool))
  | [] => return []
  | c :: calls => do
    let ok ← c.run m clock userId questionId
    let results ← runCalls m clock userId questionId calls
    return (c, ok) :: results

/-- The row of a user and a question says that the question is completed. -/
def Completed (userId questionId : Int) (db : Db) : Prop :=
  ∃ r ∈ db.progressOf userId questionId, r.isCompleted

/-- Some `setCompleted` returned true. -/
def Reported (results : List (ProgressCall × Bool)) : Prop :=
  ∃ time, (ProgressCall.setCompleted time, true) ∈ results

/-- After each of the calls the row is completed iff it was or some
`setCompleted` returned true. -/
def Recorded (m : MySQL) (clock : Clock) (userId questionId : Int) (calls : List ProgressCall)
    (db : Db) : Prop :=
  ∀ done, done <+: calls →
    (Completed userId questionId ((runCalls m clock userId questionId done).run (db, [])).2.1 ↔
      Completed userId questionId db ∨
        Reported ((runCalls m clock userId questionId done).run (db, [])).1)

section
variable {collate : Collation} {clock : Clock} {userId questionId : Int} {db : Db}

/-- A call that does not insert the row with `setCompleted`. -/
theorem Stores.completed {c : ProgressCall} {ok : Bool} {db' : Db}
    (h : Stores clock userId questionId c.touch db ok db')
    (hc : ∀ time, c = .setCompleted time →
      db.progressOf userId questionId = [] → ¬ db.Known userId questionId) :
    Completed userId questionId db' ↔
      Completed userId questionId db ∨ ∃ time, c = .setCompleted time ∧ ok = true := by
  rcases h.progressOf with ⟨r, e, rfl, e'⟩ | ⟨e, hk, rfl, e'⟩ | ⟨-, -, rfl, rfl⟩
  · rw [Completed, Completed, e, e']
    cases c with
    | setCompleted time => simp [ProgressRow.stored, ProgressCall.touch, UserProgress.completed,
        UserProgress.attempted]
    | addOrUpdateUserProgress => simp [ProgressRow.stored, ProgressCall.touch,
        UserProgress.attempted, ProgressRow.read]
  · rw [Completed, Completed, e, e']
    cases c with
    | setCompleted time => exact absurd hk (hc time rfl e)
    | addOrUpdateUserProgress => simp
  · simp

/-- Once a call that is not a first `setCompleted` is over, no later one is. -/
theorem Stores.known {c : ProgressCall} {ok : Bool} {db' : Db}
    (h : Stores clock userId questionId c.touch db ok db') :
    db'.progressOf userId questionId = [] → ¬ db'.Known userId questionId := by
  rcases h.progressOf with ⟨r, -, -, e'⟩ | ⟨-, -, -, e'⟩ | ⟨-, hk, -, rfl⟩
  · rw [e']
    exact fun h => by cases h
  · rw [e']
    exact fun h => by cases h
  · exact fun _ => hk

theorem run_runCalls_nil (s : Db × List Stmt) :
    (runCalls (.exact collate) clock userId questionId []).run s = ([], s) := (rfl)

theorem run_runCalls_cons (c : ProgressCall) (calls : List ProgressCall) (s : Db × List Stmt) :
    (runCalls (.exact collate) clock userId questionId (c :: calls)).run s =
      let x := (c.run (.exact collate) clock userId questionId).run s
      let y := (runCalls (.exact collate) clock userId questionId calls).run x.2
      ((c, x.1) :: y.1, y.2) := (rfl)

theorem reported_cons {c : ProgressCall} {ok : Bool} {results : List (ProgressCall × Bool)} :
    Reported ((c, ok) :: results) ↔
      (∃ time, c = .setCompleted time ∧ ok = true) ∨ Reported results := by
  simp [Reported, exists_or, eq_comm]

theorem completed_runCalls (h : db.Ok collate) {calls : List ProgressCall}
    (hc : ∀ time, calls.head? = some (.setCompleted time) →
      db.progressOf userId questionId = [] → ¬ db.Known userId questionId) (log : List Stmt) :
    Completed userId questionId
        ((runCalls (.exact collate) clock userId questionId calls).run (db, log)).2.1 ↔
      Completed userId questionId db ∨
        Reported ((runCalls (.exact collate) clock userId questionId calls).run (db, log)).1 := by
  induction calls generalizing db log with
  | nil => simp [run_runCalls_nil, Reported]
  | cons c calls ih =>
    have hs := c.run_spec clock userId questionId h log
    rw [run_runCalls_cons]
    dsimp only
    rw [reported_cons, ih (hs.keeps h).1 (fun _ _ => hs.known),
      hs.completed fun time e => hc time (e ▸ rfl), or_assoc]

/-- Calls in turn record a completion iff the first one is not a `setCompleted`
that inserts the row. -/
theorem recorded_iff (h : db.Ok collate) (calls : List ProgressCall) :
    Recorded (.exact collate) clock userId questionId calls db ↔
      ∀ time, calls.head? = some (.setCompleted time) →
        db.progressOf userId questionId = [] → ¬ db.Known userId questionId := by
  constructor
  · intro hr time hc e hk
    have hpre : [.setCompleted time] <+: calls := by
      cases calls with
      | nil => cases hc
      | cons c calls =>
        cases hc
        exact ⟨calls, rfl⟩
    have hs := (ProgressCall.setCompleted time).run_spec clock userId questionId h []
    have hr := hr _ hpre
    rw [run_runCalls_cons] at hr
    dsimp only at hr
    rw [reported_cons] at hr
    rcases hs.progressOf with ⟨r, e', -⟩ | ⟨-, -, hok, e'⟩ | ⟨-, hk', -⟩
    · rw [e] at e'
      cases e'
    · have hdone := hr.mpr (.inr (.inl ⟨time, rfl, hok⟩))
      obtain ⟨r, hmem, hr⟩ := hdone
      rw [run_runCalls_nil, e'] at hmem
      cases List.mem_singleton.mp hmem
      cases hr
    · exact hk' hk
  · rintro hc done ⟨rest, rfl⟩
    refine completed_runCalls h (fun time hd => hc time ?_) []
    cases done with
    | nil => cases hd
    | cons c done => exact hd

end

/-- Two times in a clock at UTC. -/
def Clock.utc : Clock where
  timeToString t := (if t = 0 then "1970-01-01 00:00:00" else "2023-11-14 22:13:20").toList
  convertStringToTimeT s := if s = "1970-01-01 00:00:00".toList then 0 else 1700000000

/-- One user and one question. -/
def Db.sample : Db where
  user := [⟨1, "ann".toList, [], [], 0⟩]
  questions := [⟨7, "sum".toList, "easy".toList, [], [], [], 1, 50000⟩]
  progress := []
  nextUser := 2
  nextQuestion := 8
  nextProgress := 1

theorem Db.sample_ok : Db.sample.Ok id :=
  ⟨by decide, by decide, by decide, by decide, by decide, by decide⟩

theorem recorded_iff_two : Db.sample.Ok id ∧ Recorded (.exact id) .utc 1 7
    [.addOrUpdateUserProgress, .setCompleted 1700000000] .sample := by
  refine ⟨Db.sample_ok, (recorded_iff Db.sample_ok _).mpr ?_⟩
  intro time h
  cases h

/-- A first `setCompleted` returns true and records no completion. -/
theorem not_recorded : ¬ Recorded (.exact id) .utc 1 7 [.setCompleted 1700000000] .sample := by
  intro h
  obtain ⟨r, hr, hc⟩ := (h _ (List.prefix_refl _)).mpr (.inr ⟨_, List.mem_singleton_self _⟩)
  have hrow : r = ⟨1, 1, 7, false, "1970-01-01 00:00:00".toList, 0⟩ := List.mem_singleton.mp hr
  rw [hrow] at hc
  cases hc

end OJ.Server
