import DistributedOj.OjServer.Sessions

/-!
# Whose progress

`QueryUser`, `QueryUserById` and `GetUserInfo` tell truthfully whether there is
such a user iff there is one or MySQL fails (`truthful_iff`): for a name without
a row they succeed and leave `User.id` as it was. So `/judge`, `/setCompleted`
and `/getUserProgress` keep to the progress of the user of the session iff that
user's name still has a row, or they come to no progress at all (`keeps_iff`).
As long as no account with a session is deleted or renamed, the name of every
session has one (`Rooted.of_step`).
-/

namespace OJ.Server

open OJ.Comm OJ.Framework Table Handling

/-! ## Users -/

/-- The rows with a name. -/
def Db.named (collate : Collation) (username : Str) (db : Db) : List UserRow :=
  rowsWith (UserRow.name collate) (collate username) db.user

/-- The rows with an id. -/
def Db.numbered (userId : Str) (db : Db) : List UserRow :=
  rowsWith (fun r => some r.userid) (idOf userId) db.user

/-- What is returned for a user that one of `rows` should be: false without
rows, and otherwise a user as a row has it. -/
structure Truthful (rows : List UserRow) (x : Bool × User) : Prop where
  absent : rows = [] → x.1 = false
  present : x.1 = true → ∃ r ∈ rows, x.2 = r.read

theorem User.of_fst (u : User) (rows : Option (List UserRow)) : (u.of rows).1 = rows.isSome := by
  rcases rows with _ | _ | ⟨r, rs⟩
  · rfl
  · rfl
  · rfl

/-- An answer without rows is the only one that misleads. -/
theorem truthful_of_iff {rows : List UserRow} {answer : Option (List UserRow)}
    (h : OrError answer (some rows)) (u : User) :
    Truthful rows (u.of answer) ↔ rows ≠ [] ∨ answer = none := by
  rcases h with rfl | rfl
  · refine iff_of_true ⟨fun _ => rfl, fun h => ?_⟩ (.inr rfl)
    cases h
  · rcases rows with _ | ⟨r, rs⟩
    · refine iff_of_false (fun h => ?_) (by simp)
      cases h.absent rfl
    · refine iff_of_true ⟨fun h => ?_, fun _ => ⟨r, List.mem_cons_self, rfl⟩⟩ (by simp)
      cases h

section
variable {collate : Collation} {m : MySQL}

/-- The three functions are faithful iff there is a row or MySQL fails. -/
theorem truthful_iff (hm : m.Meant collate) (text : Str) (u : User) (s : Db × List Stmt) :
    (Truthful (s.1.named collate text) ((queryUser m text u).run s).1 ↔
      s.1.named collate text ≠ [] ∨ m.user text s.1 = none) ∧
    (Truthful (s.1.named collate text) ((getUserInfo m text u).run s).1 ↔
      s.1.named collate text ≠ [] ∨ m.user text s.1 = none) ∧
    (Truthful (s.1.numbered text) ((queryUserById m text u).run s).1 ↔
      s.1.numbered text ≠ [] ∨ m.userById text s.1 = none) := by
  rw [getUserInfo, run_queryUser, run_queryUserById]
  have hname := truthful_of_iff (hm.user text s.1) u
  exact ⟨hname, hname, truthful_of_iff (hm.userById text s.1) u⟩

end

/-! ## Requests about progress -/

/-- The handlers that deal with progress, with the question. -/
def Path.onProgress : Path → Option Digits
  | judge number | setCompleted number | getUserProgress number => some number
  | _ => none

/-- The user whose progress a statement changes. -/
def Stmt.progressOf : Stmt → Option Int
  | addUserProgress userId _ _ _ _ => some userId
  | updateUserProgress _ _ _ userId _ => some userId
  | _ => none

/-- The world with other answers of MySQL about progress. -/
def World.answering (w : World) (progress : Int → Int → Db → Option (List ProgressRow)) : World :=
  { w with mysql := { w.mysql with progress := progress } }

/-- An account with the name of a session has this id. -/
def Owner (collate : Collation) (s : ServerState) (req : Request) (id : Int) : Prop :=
  ∃ username, s.sessions req.sessionId = some username ∧
    ∃ r ∈ s.db.user, r.name collate = collate username ∧ r.userid = id

/-- Nothing depends on progress of another user than that of the session, and
no statement changes it. -/
structure KeepsTo (collate : Collation) (L : Library) (w : World) (req : Request) (s : ServerState) :
    Prop where
  reads : ∀ progress, (∀ id, Owner collate s req id → progress id = w.mysql.progress id) →
    serve L (w.answering progress) req s = serve L w req s
  writes : ∀ stmt ∈ sentBy (serve L w req s).2.2, ∀ id, stmt.progressOf = some id →
    Owner collate s req id

/-- The name that a handler gives to `GetUserInfo`, if it comes to that. -/
def asked (w : World) (req : Request) (s : ServerState) : Option Str :=
  match req.path with
  | .judge _ | .setCompleted _ => (s.sessions req.sessionId).or w.stray
  | .getUserProgress _ => some ((s.sessions req.sessionId).getD [])
  | _ => none

/-- The session has an account, or the request comes to no progress: there is
no name to ask for, MySQL fails, or the question has no number. -/
def Accounted (collate : Collation) (w : World) (req : Request) (number : Digits) (s : ServerState) :
    Prop :=
  (∃ id, Owner collate s req id) ∨ ∀ username, asked w req s = some username →
    w.mysql.user username s.db = none ∨ stoi number.val = none

/-- The request comes to progress, under this id. -/
def ActsUnder (w : World) (req : Request) (number : Digits) (s : ServerState) (id : Int) : Prop :=
  ∃ username, asked w req s = some username ∧ (userInfo w username s.db).1 = true ∧
    (stoi number.val).isSome ∧ (userInfo w username s.db).2.id = id

section
variable {collate : Collation} {L : Library} {w : World} {req : Request} {s : ServerState}
  {number : Digits}

/-- With a session both handlers ask for its name. -/
theorem asked_eq {username : Str} (hp : req.path.onProgress = some number)
    (hs : s.sessions req.sessionId = some username) : asked w req s = some username := by
  rw [asked, hs]
  cases hpath : req.path with
  | judge | setCompleted | getUserProgress => rfl
  | _ =>
    rw [hpath] at hp
    cases hp

theorem Accounted.owner (h : Accounted collate w req number s) (hm : w.mysql.Meant collate)
    (hp : req.path.onProgress = some number) {id : Int} (ha : ActsUnder w req number s id) :
    Owner collate s req id := by
  obtain ⟨username, hu, hok, hq, rfl⟩ := ha
  rw [userInfo, User.of_fst, Option.isSome_iff_ne_none] at hok
  rcases h with ⟨_, username', hs, r, hr, hname, -⟩ | h
  · cases Option.some.inj ((asked_eq hp hs).symm.trans hu)
    have hmem : r ∈ rowsWith (UserRow.name collate) (collate username) s.db.user :=
      mem_rowsWith.mpr ⟨hr, hname⟩
    rcases he : w.mysql.user username s.db with _ | _ | ⟨r', rs⟩
    · exact absurd he hok
    · rcases hm.user username s.db with e | e
      · exact absurd e hok
      · rw [he] at e
        rw [← Option.some.inj e] at hmem
        cases hmem
    · obtain ⟨hr', hname'⟩ := hm.of_user he
      rw [userInfo, he]
      exact ⟨username, hs, r', hr', hname', rfl⟩
  · rcases h username hu with e | e
    · exact absurd e hok
    · rw [e] at hq
      cases hq

/-! ### Reads -/

/-- Two computations agree if their parts do. -/
theorem Handling.run_bind_congr {α β : Type} {x y : Handling α} {f g : α → Handling β}
    {t : ServerState × List Effect} (hx : run x t = run y t)
    (hf : ∀ a t', run y t = (.ok a, t') → run (f a) t' = run (g a) t') :
    run (x >>= f) t = run (y >>= g) t := by
  rw [run_bind, run_bind, hx]
  rcases h : run y t with ⟨_ | a, t'⟩
  · rfl
  · exact hf a t' h

theorem Handling.run_ite_congr {β : Type} {p : Prop} [Decidable p] {x y z : Handling β}
    {t : ServerState × List Effect} (h : p → run x t = run y t) :
    run (if p then x else z) t = run (if p then y else z) t := by
  split
  · next hp => exact h hp
  · rfl

theorem Handling.run_sql_congr {α : Type} {x y : Sql α} (h : ∀ s, x.run s = y.run s)
    (t : ServerState × List Effect) : run (sql x) t = run (sql y) t := by
  rw [run_sql, run_sql, h]

theorem Handling.of_run_second {stray found : Option Str} {username : Str}
    {t : ServerState × List Effect} (h : run (second stray found) (s, []) = (.ok username, t)) :
    found.or stray = some username ∧ t.1 = s := by
  rw [run_second] at h
  rcases found with _ | name
  · rcases stray with _ | name
    · cases h
    · cases h
      exact ⟨rfl, rfl⟩
  · cases h
    exact ⟨rfl, rfl⟩

theorem Handling.of_run_ofOption {α : Type} {x : Option α} {a : α} {t t' : ServerState × List Effect}
    (h : run (ofOption x) t = (.ok a, t')) : x = some a ∧ t' = t := by
  rw [run_ofOption] at h
  cases x with
  | none => cases h
  | some b =>
    cases h
    exact ⟨rfl, rfl⟩

section
variable {progress : Int → Int → Db → Option (List ProgressRow)} {id : Int}

theorem queryProgress_answering (h : progress id = w.mysql.progress id) (clock : Clock) (questionId : Int)
    (up : UserProgress) (s : Db × List Stmt) :
    (queryProgress (w.answering progress).mysql clock id questionId up).run s =
      (queryProgress w.mysql clock id questionId up).run s := by
  simp only [queryProgress, queryUserProgress, Stateful.run_bind, run_query, World.answering, h]

/-- A call reads the progress of its user only. -/
theorem call_answering (h : progress id = w.mysql.progress id) (clock : Clock) (questionId : Int)
    (c : ProgressCall) (s : Db × List Stmt) :
    (c.run (w.answering progress).mysql clock id questionId).run s =
      (c.run w.mysql clock id questionId).run s := by
  rw [ProgressCall.run_eq, ProgressCall.run_eq, touchAndStore, touchAndStore, Stateful.run_bind,
    Stateful.run_bind, UserProgress.new, queryProgress_answering h]
  rfl

end

/-- The request comes to progress only where the answers are the same. -/
def Agreed (w : World) (req : Request) (number : Digits) (s : ServerState)
    (progress : Int → Int → Db → Option (List ProgressRow)) : Prop :=
  ∀ id, ActsUnder w req number s id → progress id = w.mysql.progress id

section
variable {progress : Int → Int → Db → Option (List ProgressRow)}

theorem reads_setCompleted (h : Agreed w req number s progress)
    (hp : req.path = .setCompleted number) :
    run (handleSetCompleted L (w.answering progress) req number) (s, []) =
      run (handleSetCompleted L w req number) (s, []) := by
  rw [handleSetCompleted, handleSetCompleted, run_find_bind, run_find_bind]
  refine run_bind_congr rfl fun username t hsecond => ?_
  obtain ⟨hu, ht⟩ := of_run_second hsecond
  obtain ⟨s', es⟩ := t
  subst ht
  rw [run_getUserInfo_bind, run_getUserInfo_bind]
  have hasked : asked w req s' = some username := by
    rw [asked, hp]
    exact hu
  refine run_ite_congr fun hok => ?_
  refine run_bind_congr rfl fun questionId t hof => ?_
  obtain ⟨hq, rfl⟩ := of_run_ofOption hof
  have hsame := h _ ⟨username, hasked, hok, by rw [hq]; rfl, rfl⟩
  exact run_bind_congr
    (run_sql_congr (call_answering hsame L.clock questionId (.setCompleted w.time)) _) fun _ _ _ => rfl

theorem reads_judge (h : Agreed w req number s progress) (hp : req.path = .judge number) :
    run (handleJudge L (w.answering progress) req number) (s, []) =
      run (handleJudge L w req number) (s, []) := by
  rw [handleJudge, handleJudge, run_find_bind, run_find_bind]
  refine run_bind_congr rfl fun username t hsecond => ?_
  obtain ⟨hu, ht⟩ := of_run_second hsecond
  obtain ⟨s', es⟩ := t
  subst ht
  rw [run_getUserInfo_bind, run_getUserInfo_bind]
  have hasked : asked w req s' = some username := by
    rw [asked, hp]
    exact hu
  refine run_ite_congr fun hok => ?_
  refine run_bind_congr rfl fun questionId t hof => ?_
  obtain ⟨hq, rfl⟩ := of_run_ofOption hof
  have hsame := h _ ⟨username, hasked, hok, by rw [hq]; rfl, rfl⟩
  exact run_bind_congr
    (run_sql_congr (call_answering hsame L.clock questionId .addOrUpdateUserProgress) _) fun _ _ _ => rfl

theorem reads_getUserProgress (h : Agreed w req number s progress)
    (hp : req.path = .getUserProgress number) :
    run (handleGetUserProgress L (w.answering progress) req number) (s, []) =
      run (handleGetUserProgress L w req number) (s, []) := by
  rw [handleGetUserProgress, handleGetUserProgress, run_find_bind, run_find_bind,
    run_getUserInfo_bind, run_getUserInfo_bind]
  have hasked : asked w req s = some ((s.sessions req.sessionId).getD []) := by rw [asked, hp]
  refine run_ite_congr fun hok => ?_
  refine run_bind_congr rfl fun questionId t hof => ?_
  obtain ⟨hq, rfl⟩ := of_run_ofOption hof
  have hsame := h _ ⟨_, hasked, hok, by rw [hq]; rfl, rfl⟩
  exact run_bind_congr (run_sql_congr (queryProgress_answering hsame L.clock questionId _) _)
    fun _ _ _ => rfl

end

/-! ### Writes -/

theorem found_userId (hm : w.mysql.Meant collate) (clock : Clock) (userId questionId : Int) (db : Db) :
    (ProgressCall.found w.mysql clock userId questionId db).2.userId = userId := by
  rw [ProgressCall.found]
  simp only [queryProgress, queryUserProgress, Stateful.run_bind, run_query]
  rcases he : w.mysql.progress userId questionId db with _ | _ | ⟨r, rs⟩
  · rfl
  · rfl
  · rcases hm.progress userId questionId db with e | e
    · rw [he] at e
      cases e
    · rw [he] at e
      have hr : r ∈ rowsWith ProgressRow.key (userId, questionId) db.progress :=
        Option.some.inj e ▸ List.mem_cons_self
      exact congrArg Prod.fst (mem_rowsWith.mp hr).2

theorem writtenBy_progressOf (clock : Clock) (c : ProgressCall) (found : Bool × UserProgress) :
    (writtenBy clock c.touch found).progressOf = some found.2.userId := by
  rw [writtenBy]
  split
  · exact congrArg some (c.touch_userId _)
  · rfl

/-- The statement of a call is about its user. -/
theorem call_progressOf (hm : w.mysql.Meant collate) (clock : Clock) (userId questionId : Int)
    (c : ProgressCall) (db : Db) : ∃ stmt, stmt.progressOf = some userId ∧
      ((c.run w.mysql clock userId questionId).run (db, [])).2.2 = [stmt] := by
  rw [ProgressCall.run_stmt]
  exact ⟨_, (writtenBy_progressOf ..).trans (congrArg some (found_userId hm ..)), rfl⟩

theorem ByUser.onProgress {time : Int} {path : Path} {c : ProgressCall} (h : ByUser time path number c) :
    path.onProgress = some number := by
  cases h with
  | setCompleted => rfl
  | judge => rfl

theorem ByUser.asked {time : Int} {c : ProgressCall} (h : ByUser time req.path number c) :
    asked w req s = (s.sessions req.sessionId).or w.stray := by
  rw [OJ.Server.asked]
  generalize req.path = path at h
  cases h with
  | setCompleted => rfl
  | judge => rfl

theorem ByAdmin.progressOf {path : Path} {stmt : Stmt} (h : ByAdmin path stmt) :
    stmt.progressOf = none := by
  cases h with
  | editUser | deleteUser | addUser | deleteQuestion => rfl

theorem ByAnyone.progressOf {path : Path} {stmt : Stmt} (h : ByAnyone path stmt) :
    stmt.progressOf = none := by
  cases h with
  | register | updateQuestion | addQuestion => rfl

/-- Progress is written only under an id that the request acts under. -/
theorem Did.actsUnder {s' : ServerState} {stmts : List Stmt} (h : Did L w req s stmts s')
    (hm : w.mysql.Meant collate) (hp : req.path.onProgress = some number) {stmt : Stmt}
    (hstmt : stmt ∈ stmts) {id : Int} (hid : stmt.progressOf = some id) :
    ActsUnder w req number s id := by
  cases h with
  | nothing | login | logout => cases hstmt
  | admin _ _ hb =>
    rw [List.mem_singleton.mp hstmt, hb.progressOf] at hid
    cases hid
  | anyone hb =>
    rw [List.mem_singleton.mp hstmt, hb.progressOf] at hid
    cases hid
  | progress hc hu hok hq hx =>
    obtain ⟨stmt', hid', hone⟩ := call_progressOf hm L.clock _ _ _ s.db
    rw [← hx, hone] at hstmt
    rw [List.mem_singleton.mp hstmt] at hid
    cases Option.some.inj (hc.onProgress.symm.trans hp)
    exact ⟨_, hc.asked.trans hu, hok, by rw [hq]; rfl, Option.some.inj (hid'.symm.trans hid)⟩

theorem Handling.run_second_of {stray found : Option Str} {username : Str}
    (h : found.or stray = some username) : run (second stray found) (s, []) =
      (.ok username, s, if found.isSome then [] else [.strayed]) := by
  rw [run_second]
  rcases found with _ | name
  · rw [Option.none_or] at h
    rw [h]
    rfl
  · cases h
    rfl

/-- A call that a request comes to sends its statement. -/
theorem sent_of_actsUnder (hm : w.mysql.Meant collate) {c : ProgressCall}
    (hc : ByUser w.time req.path number c) {id : Int} (h : ActsUnder w req number s id) :
    ∃ stmt ∈ sentBy (serve L w req s).2.2, stmt.progressOf = some id := by
  obtain ⟨username, hu, hok, hq, rfl⟩ := h
  obtain ⟨questionId, hq⟩ := Option.isSome_iff_exists.mp hq
  rw [hc.asked] at hu
  obtain ⟨stmt, hid, hone⟩ :=
    call_progressOf hm L.clock (userInfo w username s.db).2.id questionId c s.db
  have hsent {stmts : List Stmt} (h : stmts = [stmt]) (es : List Effect) :
      stmt ∈ sentBy (es ++ stmts.map .sent) := by
    rw [h, sentBy_append, sentBy_map_sent]
    exact List.mem_append_right _ (List.mem_singleton_self _)
  refine ⟨stmt, ?_, hid⟩
  rw [serve, handle]
  generalize hpath : req.path = path at hc
  rw [userInfo] at hok
  cases hc with
  | setCompleted =>
    dsimp only
    rw [handleSetCompleted, run_find_bind, run_bind, run_second_of hu]
    dsimp only
    rw [run_getUserInfo_bind, if_pos hok, run_bind, run_ofOption, hq]
    dsimp only
    rw [run_sql_bind, run_pure]
    exact hsent hone _
  | judge =>
    dsimp only
    rw [handleJudge, run_find_bind, run_bind, run_second_of hu]
    dsimp only
    rw [run_getUserInfo_bind, if_pos hok, run_bind, run_ofOption, hq]
    dsimp only
    rw [run_sql_bind]
    obtain ⟨reply, es', he, hes'⟩ := run_judge L w req number .text _ _
    rw [he, sentBy_append]
    exact List.mem_append_left _ (hsent hone _)

/-! ### When a request keeps to the user of its session -/

theorem reads_of_agreed {progress : Int → Int → Db → Option (List ProgressRow)}
    (h : Agreed w req number s progress) (hp : req.path.onProgress = some number) :
    serve L (w.answering progress) req s = serve L w req s := by
  rw [serve, serve, handle, handle]
  cases hpath : req.path with
  | judge =>
    rw [hpath] at hp
    cases hp
    exact reads_judge h hpath
  | setCompleted =>
    rw [hpath] at hp
    cases hp
    exact reads_setCompleted h hpath
  | getUserProgress =>
    rw [hpath] at hp
    cases hp
    exact reads_getUserProgress h hpath
  | _ => simp [hpath, Path.onProgress] at hp

theorem Accounted.keepsTo (h : Accounted collate w req number s) (hm : w.mysql.Meant collate)
    (hp : req.path.onProgress = some number) : KeepsTo collate L w req s where
  reads _ hprogress := reads_of_agreed (fun id ha => hprogress id (h.owner hm hp ha)) hp
  writes _ hstmt _ hid := h.owner hm hp (did.actsUnder hm hp hstmt hid)

/-- The answer of `/getUserProgress` about what `queryProgress` finds. -/
def progressReply (found : Bool × UserProgress) : Reply :=
  if found.1 then
    .json [("completed", .bool found.2.isCompleted), ("submit_times", .int found.2.attemptCount),
      ("success", .bool true)]
  else
    .json [("completed", .bool false), ("error", .str "Failed to get user progress".toList),
      ("submit_times", .int 0), ("success", .bool false)]

theorem serve_getUserProgress {username : Str} {questionId : Int}
    (hp : req.path = .getUserProgress number) (hu : (s.sessions req.sessionId).getD [] = username)
    (hok : (userInfo w username s.db).1 = true) (hq : stoi number.val = some questionId) :
    (serve L w req s).1 = .ok (progressReply
      (ProgressCall.found w.mysql L.clock (userInfo w username s.db).2.id questionId s.db)) := by
  rw [serve, handle, hp]
  dsimp only
  rw [handleGetUserProgress, run_find_bind, run_getUserInfo_bind, hu]
  rw [userInfo] at hok
  dsimp only
  rw [if_pos hok, run_bind, run_ofOption, hq]
  dsimp only
  rw [run_sql_bind, progressReply]
  rcases he : ProgressCall.found w.mysql L.clock (userInfo w username s.db).2.id questionId s.db
    with ⟨_ | _, progress⟩
  · rw [ProgressCall.found, userInfo] at he
    rw [he]
    rfl
  · rw [ProgressCall.found, userInfo] at he
    rw [he]
    rfl

/-- The answer shows whether there is a row. -/
theorem progressReply_ne (up up' : UserProgress) :
    progressReply (true, up) ≠ progressReply (false, up') := by
  simp [progressReply, Reply.json]

theorem KeepsTo.accounted (h : KeepsTo collate L w req s) (hm : w.mysql.Meant collate)
    (hp : req.path.onProgress = some number) : Accounted collate w req number s := by
  by_contra hn
  rw [Accounted, not_or, not_forall] at hn
  obtain ⟨hnone, username, hn⟩ := hn
  simp only [Classical.not_imp, not_or] at hn
  obtain ⟨hu, hok, hq⟩ := hn
  have hok : (userInfo w username s.db).1 = true := by
    rw [userInfo, User.of_fst]
    exact Option.isSome_iff_ne_none.mpr hok
  have hacts : ActsUnder w req number s (userInfo w username s.db).2.id :=
    ⟨username, hu, hok, Option.isSome_iff_ne_none.mpr hq, rfl⟩
  have writes {c : ProgressCall} (hc : ByUser w.time req.path number c) : False := by
    obtain ⟨stmt, hstmt, hid⟩ := sent_of_actsUnder (L := L) hm hc hacts
    exact hnone ⟨_, h.writes stmt hstmt _ hid⟩
  cases hpath : req.path with
  | judge =>
    rw [hpath] at hp writes
    cases hp
    exact writes .judge
  | setCompleted =>
    rw [hpath] at hp writes
    cases hp
    exact writes .setCompleted
  | getUserProgress =>
    rw [hpath] at hp
    cases hp
    rw [asked, hpath] at hu
    obtain ⟨questionId, hq⟩ := Option.ne_none_iff_exists'.mp hq
    have answers (progress : Int → Int → Db → Option (List ProgressRow)) :=
      (serve_getUserProgress (L := L) (w := w.answering progress) hpath (Option.some.inj hu) hok
        hq).symm.trans
        (congrArg Prod.fst (h.reads progress fun id hid => absurd ⟨id, hid⟩ hnone))
    have hrow := (answers fun _ _ _ => some [⟨1, 0, 0, false, [], 0⟩]).trans (answers fun _ _ _ => none).symm
    exact progressReply_ne _ _ (Except.ok.inj hrow)
  | _ => simp [hpath, Path.onProgress] at hp

/-- A request about progress keeps to the user of its session iff that user has
an account or it comes to no progress. -/
theorem keepsTo_iff (hm : w.mysql.Meant collate) (hp : req.path.onProgress = some number) :
    KeepsTo collate L w req s ↔ Accounted collate w req number s :=
  ⟨fun h => h.accounted hm hp, fun h => h.keepsTo hm hp⟩

end

/-! ## Sessions and accounts -/

/-- There is an account with this name. -/
def Db.HasAccount (collate : Collation) (username : Str) (db : Db) : Prop :=
  ∃ r ∈ db.user, r.name collate = collate username

/-- A statement deletes no account with this name, and renames none. -/
def Stmt.LeavesName (collate : Collation) (username : Str) (db : Db) : Stmt → Prop
  | deleteUserById userid => ∀ r ∈ db.user, r.name collate = collate username →
    some r.userid ≠ idOf userid
  | updateUserById name _ _ _ userid => ∀ r ∈ db.user, r.name collate = collate username →
    r.userid = userid → collate name = collate username
  | _ => True

/-- What a request does to the accounts leaves those with a session. -/
structure LeavesSessions (collate : Collation) (L : Library) (s : ServerState) (e : Visit) : Prop where
  meant : e.1.mysql.Meant collate
  leaves : ∀ sessionId username, s.sessions sessionId = some username →
    ∀ stmt ∈ sentBy (serve L e.1 e.2 s).2.2, ∀ db', e.1.mysql.exec stmt s.db = some db' →
      stmt.LeavesName collate username s.db

/-- Every session has an account. -/
def Rooted (collate : Collation) (s : ServerState) : Prop :=
  ∀ sessionId username, s.sessions sessionId = some username → s.db.HasAccount collate username

section
variable {collate : Collation} {L : Library} {s s' : ServerState} {e : Visit} {username : Str}
  {db db' : Db} {stmt : Stmt}

theorem Db.HasAccount.insertUser {name password salt : Str} {isAdmin : Int}
    (h : db.HasAccount collate username)
    (hdb : db.insertUser collate name password salt isAdmin = some db') :
    db'.HasAccount collate username := by
  obtain ⟨-, rfl⟩ := Db.of_insertUser hdb
  obtain ⟨r, hr, hname⟩ := h
  exact ⟨r, List.mem_append_left _ hr, hname⟩

theorem Db.HasAccount.meaning (h : db.HasAccount collate username)
    (hdb : stmt.meaning collate db = some db') (hs : stmt.LeavesName collate username db) :
    db'.HasAccount collate username := by
  cases stmt with
  | addUser | insertUserByAdmin => exact h.insertUser hdb
  | updateUserById name password salt isAdmin userid =>
    obtain ⟨-, rfl⟩ := Db.of_updateUser hdb
    obtain ⟨r, hr, hname⟩ := h
    refine ⟨_, mem_update.mpr ⟨r, hr, rfl⟩, ?_⟩
    split
    · next hid => exact hs r hr hname (of_decide_eq_true hid)
    · exact hname
  | deleteUserById =>
    cases hdb
    obtain ⟨r, hr, hname⟩ := h
    exact ⟨r, List.mem_filter.mpr ⟨hr, decide_eq_true (hs r hr hname)⟩, hname⟩
  | insertQuestion | updateQuestion | deleteQuestion | updateUserProgress =>
    cases hdb
    exact h
  | addUserProgress =>
    obtain ⟨-, rfl⟩ := Db.of_insertProgress hdb
    exact h

theorem Db.HasAccount.does (h : db.HasAccount collate username) (hdb : stmt.Does collate db db')
    (hs : stmt.LeavesName collate username db) : db'.HasAccount collate username := by
  obtain ⟨db₀, hskips, hdb⟩ := hdb
  obtain ⟨r, hr, hname⟩ := h
  refine Db.HasAccount.meaning ⟨r, hskips.user ▸ hr, hname⟩ hdb ?_
  cases stmt with
  | updateUserById | deleteUserById =>
    show ∀ r ∈ db₀.user, _
    rw [hskips.user]
    exact hs
  | _ => trivial

/-- A request keeps the accounts that have a session. -/
theorem Rooted.account_of_step (h : Rooted collate s) (he : LeavesSessions collate L s e)
    (hs : s.step L e = some s') {sessionId : Str} (hid : s.sessions sessionId = some username) :
    s'.db.HasAccount collate username := by
  rcases ServerState.db_of_step he.meant hs with hdb | ⟨stmt, hstmt, hexec, hdb⟩
  · rw [hdb]
    exact h sessionId username hid
  · exact (h sessionId username hid).does hdb
      (he.leaves sessionId username hid stmt hstmt _ hexec)

/-- A new session has an account. -/
theorem Rooted.of_step (h : Rooted collate s) (he : LeavesSessions collate L s e)
    (hs : s.step L e = some s') : Rooted collate s' := by
  intro sessionId username hid
  have hkeeps (hid : s.sessions sessionId = some username) := h.account_of_step he hs hid
  obtain ⟨stmts, hd⟩ := ServerState.did_of_step hs
  cases hd with
  | nothing | admin | anyone | progress => exact hkeeps hid
  | @login r hp hr =>
    obtain ⟨rs, hr, -⟩ := hr
    by_cases e : sessionId = e.1.sessionId.val
    · dsimp only at hid
      rw [e, Function.update_self] at hid
      rw [← Option.some.inj hid]
      exact ⟨r, he.meant.of_user hr⟩
    · exact hkeeps ((Function.update_of_ne e _ _).symm.trans hid)
  | logout =>
    dsimp only at hid
    by_cases e : sessionId = e.2.sessionId
    · rw [e, Function.update_self] at hid
      cases hid
    · exact hkeeps ((Function.update_of_ne e _ _).symm.trans hid)

/-- The three functions are truthful iff there is such a user or MySQL fails; a
request about progress keeps to the user of its session iff that user has an
account or it comes to no progress; and no account is missing as long as those
with a session are left. -/
theorem whose_progress (collate : Collation) (L : Library) :
    (∀ m : MySQL, m.Meant collate → ∀ (text : Str) (u : User) (s : Db × List Stmt),
      (Truthful (s.1.named collate text) ((queryUser m text u).run s).1 ↔
        s.1.named collate text ≠ [] ∨ m.user text s.1 = none) ∧
      (Truthful (s.1.named collate text) ((getUserInfo m text u).run s).1 ↔
        s.1.named collate text ≠ [] ∨ m.user text s.1 = none) ∧
      (Truthful (s.1.numbered text) ((queryUserById m text u).run s).1 ↔
        s.1.numbered text ≠ [] ∨ m.userById text s.1 = none)) ∧
    (∀ (w : World) (req : Request) (number : Digits) (s : ServerState), w.mysql.Meant collate →
      req.path.onProgress = some number →
      (KeepsTo collate L w req s ↔ Accounted collate w req number s)) ∧
    (∀ db es s, Run (ServerState.step L) (LeavesSessions collate L) (.start db) es s →
      ∀ (w : World) (req : Request) (number : Digits), w.mysql.Meant collate →
      req.path.onProgress = some number → (s.sessions req.sessionId).isSome →
      KeepsTo collate L w req s) := by
  refine ⟨fun m hm => truthful_iff hm, fun w req number s hm hp => keepsTo_iff hm hp, ?_⟩
  intro db es s h w req number hm hp hsession
  have hrooted : Rooted collate s := by
    refine h.inv (fun s e s' hr he hs => hr.of_step he hs) ?_
    intro sessionId username hid
    cases hid
  obtain ⟨username, hid⟩ := Option.isSome_iff_exists.mp hsession
  obtain ⟨r, hr, hname⟩ := hrooted _ _ hid
  have howner : Owner collate s req r.userid := ⟨username, hid, r, hr, hname, rfl⟩
  exact (keepsTo_iff hm hp).mpr (.inl ⟨_, howner⟩)

end

/-- Two accounts, one of them an administrator's who has tried a question. -/
def Db.tried : Db :=
  { Db.two with
    questions := Db.sample.questions
    progress := [⟨1, 1, 7, false, "1970-01-01 00:00:00".toList, 3⟩]
    nextProgress := 2 }

/-- `bob` logs in, and `root` deletes the account. -/
def bereft : List Visit := [.login, .root .login, .root (.deleteUser ⟨['2'], by decide⟩)]

/-- What the new `User` of a later request has for an id. -/
def World.garbage : World := { World.k with userId := 1 }

theorem whose_progress_login : ∃ s, Run (ServerState.step .sample) (LeavesSessions id .sample)
      (.start .tried) [.login] s ∧
    KeepsTo id .sample .garbage (.bob (.setCompleted Submitted.number)) s ∧
    Truthful (s.db.named id "bob".toList)
      ((getUserInfo (.exact id) "bob".toList (.new 1)).run (s.db, [])).1 := by
  have hm : World.garbage.mysql.Meant id := MySQL.exact_meant id
  obtain ⟨s, hs, he⟩ := Option.map_eq_some_iff.mp
    (show (replay (ServerState.step .sample) Free (.start .tried) [.login]).map
      (fun s => (s.db, s.sessions World.k.sessionId.val)) = some (.tried, some "bob".toList) by
      decide +kernel)
  obtain ⟨hdb, hsession⟩ := Prod.mk.inj he
  have hrun : Run (ServerState.step .sample) (LeavesSessions id .sample) (.start .tried) [.login] s := by
    cases Run.of_replay hs with
    | cons _ hs h =>
      refine .cons ⟨MySQL.exact_meant id, ?_⟩ hs (h.mono_mem fun e he => absurd he List.not_mem_nil)
      intro sessionId username hid
      cases hid
  have hid : (Request.bob (.setCompleted Submitted.number)).sessionId = World.k.sessionId.val := by
    decide +kernel
  obtain ⟨htruthful, -, hkeeps⟩ := whose_progress id .sample
  refine ⟨s, hrun, hkeeps _ _ s hrun _ _ Submitted.number hm rfl ?_, ?_⟩
  · rw [hid, hsession]
    rfl
  · refine (htruthful _ hm "bob".toList (.new 1) (s.db, [])).2.1.mpr (.inl ?_)
    rw [hdb]
    decide +kernel

/-- The session of a deleted account completes a question for whomever the new
`User` names. -/
theorem not_whose_progress : ∃ s, Run (ServerState.step .sample) (Meant id) (.start .tried) bereft s ∧
    ((getUserInfo (.exact id) "bob".toList (.new 1)).run (s.db, [])).1 = (true, .new 1) ∧
    ¬ Truthful (s.db.named id "bob".toList)
      ((getUserInfo (.exact id) "bob".toList (.new 1)).run (s.db, [])).1 ∧
    ¬ KeepsTo id .sample .garbage (.bob (.setCompleted Submitted.number)) s ∧
    (serve .sample .garbage (.bob (.setCompleted Submitted.number)) s).2.1.db.progress =
      [⟨1, 1, 7, true, "2023-11-14 22:13:20".toList, 4⟩] := by
  obtain ⟨s, hs, he⟩ := Option.map_eq_some_iff.mp
    (show (replay (ServerState.step .sample) Free (.start .tried) bereft).map
      (fun s => (s.db.user, s.sessions World.k.sessionId.val,
        (serve .sample .garbage (.bob (.setCompleted Submitted.number)) s).2.1.db.progress,
        sentBy (serve .sample .garbage (.bob (.setCompleted Submitted.number)) s).2.2)) =
      some ([⟨1, "root".toList, "8fe4c11451281c094a6578e6ddbf5eed".toList, [], 1⟩], some "bob".toList,
        [⟨1, 1, 7, true, "2023-11-14 22:13:20".toList, 4⟩],
        [.updateUserProgress true "2023-11-14 22:13:20".toList 4 1 7]) by
      decide +kernel)
  obtain ⟨huser, he⟩ := Prod.mk.inj he
  obtain ⟨hsession, he⟩ := Prod.mk.inj he
  obtain ⟨hprogress, hsent⟩ := Prod.mk.inj he
  have hinfo : ((getUserInfo (.exact id) "bob".toList (.new 1)).run (s.db, [])).1 = (true, .new 1) := by
    rw [getUserInfo, run_queryUser, MySQL.exact]
    dsimp only
    rw [huser]
    decide +kernel
  refine ⟨s, (Run.of_replay hs).mono_mem fun e he _ _ => ?_, hinfo, fun h => ?_, fun h => ?_, hprogress⟩
  · simp only [bereft, List.mem_cons, List.not_mem_nil, or_false] at he
    rcases he with rfl | rfl | rfl <;> exact MySQL.exact_meant id
  · rw [hinfo] at h
    cases h.absent (by
      rw [Db.named, huser]
      decide +kernel)
  · obtain ⟨username, hid, r, hr, hname, -⟩ :=
      h.writes (.updateUserProgress true "2023-11-14 22:13:20".toList 4 1 7)
        (hsent ▸ List.mem_singleton_self _) 1 rfl
    have hk : (Request.bob (.setCompleted Submitted.number)).sessionId = World.k.sessionId.val := by
      decide +kernel
    rw [hk, hsession] at hid
    rw [huser] at hr
    rw [List.mem_singleton.mp hr, ← Option.some.inj hid] at hname
    exact absurd hname (by decide)

end OJ.Server
