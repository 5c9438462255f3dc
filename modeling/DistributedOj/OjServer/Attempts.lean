import DistributedOj.OjServer.Deeds

/-!
# The count of attempts

Requests to `/judge` and `/setCompleted` of one user for one question, with
MySQL without errors: the first one inserts the row with count 0 and each later
one adds 1 (`count_of_run`). So the count is the number of `/judge` requests
only if exactly one request was `/setCompleted` (`attempts_iff`).
-/

namespace OJ.Server

open OJ.Comm OJ.Framework Handling

section
variable {L : Library} {w : World} {req : Request} {s : ServerState} {number : Digits}
  {username : Str} {questionId : Int}

/-- The tables after a call for the user that a name gives. -/
def called (L : Library) (w : World) (c : ProgressCall) (username : Str) (questionId : Int) (db : Db) :
    Db :=
  ((c.run w.mysql L.clock (userInfo w username db).2.id questionId).run (db, [])).2.1

theorem run_handleSetCompleted (hs : s.sessions req.sessionId = some username)
    (hok : (userInfo w username s.db).1 = true) (hq : stoi number.val = some questionId) :
    (run (handleSetCompleted L w req number) (s, [])).2.1 =
      { s with db := called L w (.setCompleted w.time) username questionId s.db } := by
  rw [handleSetCompleted, run_find_bind, hs, run_bind, run_second]
  dsimp only
  rw [run_getUserInfo_bind]
  rw [userInfo] at hok
  rw [if_pos hok, run_bind, run_ofOption, hq]
  rfl

theorem run_handleJudge (hs : s.sessions req.sessionId = some username)
    (hok : (userInfo w username s.db).1 = true) (hq : stoi number.val = some questionId) :
    (run (handleJudge L w req number) (s, [])).2.1 =
      { s with db := called L w .addOrUpdateUserProgress username questionId s.db } := by
  rw [handleJudge, run_find_bind, hs, run_bind, run_second]
  dsimp only
  rw [run_getUserInfo_bind]
  rw [userInfo] at hok
  rw [if_pos hok, run_bind, run_ofOption, hq]
  dsimp only
  rw [run_sql_bind]
  obtain ⟨reply, es', he, -⟩ := run_judge L w req number .text _ _
  rw [he]
  rfl

end

/-- A request for a verdict, or to say that a question is completed. -/
def Path.isJudge : Path → Bool
  | judge _ => true
  | _ => false

def Path.isSetCompleted : Path → Bool
  | setCompleted _ => true
  | _ => false

/-- A request to `/judge` or `/setCompleted` with this session for this
question, that meets MySQL without errors. -/
structure Submits (collate : Collation) (sessionId : Str) (questionId : Int) (e : Visit) : Prop where
  mysql : e.1.mysql = .exact collate
  session : e.2.sessionId = sessionId
  path : ∃ number : Digits, stoi number.val = some questionId ∧
    (e.2.path = .judge number ∨ e.2.path = .setCompleted number)

/-- The session is that of the account `r`, and the question exists. -/
structure Solving (collate : Collation) (sessionId : Str) (r : UserRow) (questionId : Int)
    (s : ServerState) : Prop where
  ok : s.db.Ok collate
  user : r ∈ s.db.user
  session : ∃ username, s.sessions sessionId = some username ∧ collate username = r.name collate
  question : ∃ q ∈ s.db.questions, q.id = questionId

/-- The stored count, or 0 if there is no row. -/
def Db.attempts (userId questionId : Int) (db : Db) : Int :=
  ((db.progressOf userId questionId).head?.map ProgressRow.attemptCount).getD 0

section
variable {collate : Collation} {L : Library} {sessionId : Str} {r : UserRow} {questionId : Int}
  {s s' : ServerState} {e : Visit}

theorem ProgressRow.stored_attemptCount (clock : Clock) (c : ProgressCall) (p : ProgressRow) :
    (p.stored clock c.touch).attemptCount = (p.attemptCount + 1).bmod (2 ^ 32) := by
  cases c with
  | setCompleted => rfl
  | addOrUpdateUserProgress => rfl

/-- A request is a call for the account. -/
theorem Solving.stores (h : Solving collate sessionId r questionId s)
    (he : Submits collate sessionId questionId e) (hs : s.step L e = some s') :
    ∃ (c : ProgressCall) (ok : Bool), Stores L.clock r.userid questionId c.touch s.db ok s'.db ∧
      s'.sessions = s.sessions := by
  obtain ⟨w, req⟩ := e
  obtain ⟨username, hsession, hname⟩ := h.session
  have hm : w.mysql = .exact collate := he.mysql
  rw [← he.session] at hsession
  have hinfo : userInfo w username s.db = (true, r.read) := by
    rw [userInfo, hm, MySQL.exact]
    dsimp only
    rw [hname, h.ok.usernames.rowsWith_eq h.user]
    rfl
  have hcalled (c : ProgressCall) : ∃ ok,
      Stores L.clock r.userid questionId c.touch s.db ok (called L w c username questionId s.db) := by
    rw [called, hinfo, hm]
    exact ⟨_, c.run_spec L.clock r.userid questionId h.ok []⟩
  rw [ServerState.eq_of_step hs]
  obtain ⟨number, hq, hp | hp⟩ := he.path
  · obtain ⟨ok, hst⟩ := hcalled .addOrUpdateUserProgress
    refine ⟨.addOrUpdateUserProgress, ok, ?_⟩
    rw [serve, handle, hp]
    dsimp only
    rw [run_handleJudge hsession (congrArg Prod.fst hinfo) hq]
    exact ⟨hst, rfl⟩
  · obtain ⟨ok, hst⟩ := hcalled (.setCompleted w.time)
    refine ⟨.setCompleted w.time, ok, ?_⟩
    rw [serve, handle, hp]
    dsimp only
    rw [run_handleSetCompleted hsession (congrArg Prod.fst hinfo) hq]
    exact ⟨hst, rfl⟩

theorem Solving.of_stores (h : Solving collate sessionId r questionId s) {c : ProgressCall} {ok : Bool}
    (hst : Stores L.clock r.userid questionId c.touch s.db ok s'.db)
    (hsessions : s'.sessions = s.sessions) : Solving collate sessionId r questionId s' := by
  obtain ⟨hok, hu, hq⟩ := hst.keeps h.ok
  exact ⟨hok, hu ▸ h.user, hsessions ▸ h.session, hq ▸ h.question⟩

/-- The first request inserts the row and each later one adds 1. -/
theorem count_of_run {s₀ : ServerState} {es : List Visit}
    (h₀ : Solving collate sessionId r questionId s₀)
    (hno : s₀.db.progressOf r.userid questionId = [])
    (h : Run (ServerState.step L) (fun _ => Submits collate sessionId questionId) s₀ es s) :
    s.db.attempts r.userid questionId =
      if es.length = 0 then 0 else ((es.length : Int) - 1).bmod (2 ^ 32) := by
  let I (es : List Visit) (s : ServerState) : Prop := Solving collate sessionId r questionId s ∧
    ((es = [] ∧ s.db.progressOf r.userid questionId = []) ∨
      ∃ p, s.db.progressOf r.userid questionId = [p] ∧ es ≠ [] ∧
        p.attemptCount = ((es.length : Int) - 1).bmod (2 ^ 32))
  have hI : I es s := by
    refine h.inv_trace (I := I) ?_ ⟨h₀, .inl ⟨rfl, hno⟩⟩
    rintro es s e s' ⟨hsol, hrow⟩ he hs
    obtain ⟨c, ok, hst, hsessions⟩ := hsol.stores he hs
    refine ⟨hsol.of_stores hst hsessions, .inr ?_⟩
    rcases hst.progressOf with ⟨p, e₁, -, e₂⟩ | ⟨e₁, -, -, e₂⟩ | ⟨-, hk, -⟩
    · refine ⟨_, e₂, by simp, ?_⟩
      rcases hrow with ⟨-, e₃⟩ | ⟨p', e₃, -, hp⟩
      · rw [e₁] at e₃
        cases e₃
      · rw [e₁] at e₃
        cases e₃
        rw [ProgressRow.stored_attemptCount, hp, Int.bmod_add_bmod]
        simp
    · refine ⟨_, e₂, by simp, ?_⟩
      rcases hrow with ⟨rfl, -⟩ | ⟨p', e₃, -⟩
      · simp
      · rw [e₁] at e₃
        cases e₃
    · exact absurd ⟨⟨r, hsol.user, rfl⟩, hsol.question⟩ hk
  rcases hI.2 with ⟨rfl, e⟩ | ⟨p, e, hne, hp⟩
  · rw [Db.attempts, e]
    rfl
  · rw [Db.attempts, e, if_neg (List.length_eq_zero_iff.not.mpr hne)]
    exact hp

/-- The count of `n` requests in all, `j` of them to `/judge`. -/
theorem count_eq_iff {n j c : Nat} (h : n = j + c) :
    (if n = 0 then 0 else ((n : Int) - 1).bmod (2 ^ 32)) = j ↔
      n = 0 ∨ (c % 2 ^ 32 = 1 ∧ j < 2 ^ 31) := by
  split
  · omega
  · rw [Int.bmod_eq_iff (by decide)]
    omega

/-- The stored count is the number of `/judge` requests iff there was no
request, or one to `/setCompleted` (modulo `2 ^ 32`, as the count wraps) and
fewer than `2 ^ 31` to `/judge`. -/
theorem attempts_iff {s₀ : ServerState} {es : List Visit}
    (h₀ : Solving collate sessionId r questionId s₀)
    (hno : s₀.db.progressOf r.userid questionId = [])
    (h : Run (ServerState.step L) (fun _ => Submits collate sessionId questionId) s₀ es s) :
    s.db.attempts r.userid questionId = es.countP (·.2.path.isJudge) ↔
      es = [] ∨ (es.countP (·.2.path.isSetCompleted) % 2 ^ 32 = 1 ∧
        es.countP (·.2.path.isJudge) < 2 ^ 31) := by
  have hsum : es.length = es.countP (·.2.path.isJudge) + es.countP (·.2.path.isSetCompleted) := by
    rw [List.length_eq_countP_add_countP (·.2.path.isJudge)]
    refine congrArg _ (List.countP_congr fun e he => ?_)
    obtain ⟨number, -, hp | hp⟩ := (h.forall_mem e he).path
    · simp [hp, Path.isJudge, Path.isSetCompleted]
    · simp [hp, Path.isJudge, Path.isSetCompleted]
  rw [count_of_run h₀ hno h, ← List.length_eq_zero_iff]
  exact count_eq_iff hsum

end

/-- `ann` is logged in. -/
def Solving.start : ServerState :=
  ⟨fun id => if id = "k".toList then some "ann".toList else none, .sample⟩

theorem Solving.start_solving :
    Solving id "k".toList ⟨1, "ann".toList, [], [], 0⟩ 7 Solving.start :=
  ⟨Db.sample_ok, by decide, ⟨_, rfl, rfl⟩, by decide⟩

/-- A request of `ann`. -/
def Visit.ann (path : Path) : Visit := (.k, ⟨path, "session_id=k".toList, [], [], []⟩)

theorem Visit.ann_submits {path : Path}
    (h : path = .judge Submitted.number ∨ path = .setCompleted Submitted.number) :
    Submits id "k".toList 7 (.ann path) := by
  refine ⟨rfl, ?_, Submitted.number, by decide, h⟩
  show Request.sessionId ⟨path, "session_id=k".toList, [], [], []⟩ = "k".toList
  rfl

/-- A run of `ann`. -/
theorem run_ann (paths : List Path)
    (h : ∀ path ∈ paths, path = .judge Submitted.number ∨ path = .setCompleted Submitted.number)
    {n : Int} (hn : (replay (ServerState.step .sample) Free Solving.start
      (paths.map Visit.ann)).map (·.db.attempts 1 7) = some n) :
    ∃ s, Run (ServerState.step .sample) (fun _ => Submits id "k".toList 7) Solving.start
      (paths.map Visit.ann) s ∧ s.db.attempts 1 7 = n := by
  obtain ⟨s, hs, hcount⟩ := Option.map_eq_some_iff.mp hn
  refine ⟨s, (Run.of_replay hs).mono_mem fun e he _ _ => ?_, hcount⟩
  obtain ⟨path, hpath, rfl⟩ := List.mem_map.mp he
  exact Visit.ann_submits (h path hpath)

theorem attempts_iff_two : ∃ s, Run (ServerState.step .sample) (fun _ => Submits id "k".toList 7)
      Solving.start ([.judge Submitted.number, .setCompleted Submitted.number].map Visit.ann) s ∧
    s.db.attempts 1 7 = 1 := by
  obtain ⟨s, hs, -⟩ := run_ann (n := 1) [.judge Submitted.number, .setCompleted Submitted.number] (by decide)
    (by decide +kernel)
  exact ⟨s, hs, (attempts_iff Solving.start_solving rfl hs).mpr (.inr (by decide))⟩

/-- One submission is not counted. -/
theorem not_attempts : ∃ s, Run (ServerState.step .sample) (fun _ => Submits id "k".toList 7)
      Solving.start ([.judge Submitted.number].map Visit.ann) s ∧
    s.db.attempts 1 7 ≠ ([.judge Submitted.number].map Visit.ann).countP (·.2.path.isJudge) := by
  obtain ⟨s, hs, hcount⟩ := run_ann (n := 0) [.judge Submitted.number] (by decide) (by decide +kernel)
  refine ⟨s, hs, ?_⟩
  rw [hcount]
  decide

end OJ.Server
