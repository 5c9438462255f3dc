import DistributedOj.OjServer.Deeds

/-!
# Where completions come from

A row of `UserProgress` is completed only by a `/setCompleted` request for its
user and its question (`completed_of_marked`): the server takes the browser's
word, and no verdict of `/judge` is needed (`completed_without_judge`).
-/

namespace OJ.Server

open OJ.Comm OJ.Framework Table

section
variable {collate : Collation} {m : MySQL} {clock : Clock} {userId questionId : Int} {db db' : Db}

variable (clock userId questionId db) in
/-- A call finds the row that is stored, or its own object. -/
theorem found_cases (hm : m.Meant collate) :
    ProgressCall.found m clock userId questionId db = (false, .new userId questionId) ∨
      ∃ r ∈ db.progress, r.key = (userId, questionId) ∧
        (ProgressCall.found m clock userId questionId db).2 = r.read clock := by
  simp only [ProgressCall.found, queryProgress, queryUserProgress, Stateful.run_bind, run_query]
  rcases hm.progress userId questionId db with e | e
  · rw [e]
    exact .inl rfl
  · rw [e]
    rcases hr : rowsWith ProgressRow.key (userId, questionId) db.progress with _ | ⟨r, rs⟩
    · exact .inl rfl
    · have hmem : r ∈ rowsWith ProgressRow.key (userId, questionId) db.progress := by
        rw [hr]
        exact List.mem_cons_self
      obtain ⟨hmem, hkey⟩ := mem_rowsWith.mp hmem
      exact .inr ⟨r, hmem, hkey, rfl⟩

/-- A call completes its own row, and only if it is `setCompleted`. -/
theorem completed_of_writtenBy (hm : m.Meant collate) {c : ProgressCall}
    (hdb : (writtenBy clock c.touch (ProgressCall.found m clock userId questionId db)).Does
      collate db db') {r : ProgressRow} (hr : r ∈ db'.progress) (hc : r.isCompleted) :
    (∃ r₀ ∈ db.progress, r₀.key = r.key ∧ r₀.isCompleted) ∨
      ((∃ time, c = .setCompleted time) ∧ r.key = (userId, questionId)) := by
  obtain ⟨db₀, hskips, hdb⟩ := hdb
  generalize hf : ProgressCall.found m clock userId questionId db = found at hdb
  have hcases := found_cases clock userId questionId db hm
  rw [hf, ← hskips.progress] at hcases
  rw [← hskips.progress]
  rcases hcases with rfl | ⟨r₁, hr₁, hk₁, e⟩
  · rw [writtenBy, if_neg Bool.false_ne_true] at hdb
    obtain ⟨-, rfl⟩ := Db.of_insertProgress hdb
    rcases List.mem_append.mp hr with hr | hr
    · exact .inl ⟨r, hr, rfl, hc⟩
    · rw [List.mem_singleton.mp hr] at hc
      cases hc
  · rw [writtenBy, e] at hdb
    split at hdb
    · cases hdb
      obtain ⟨x, hx, rfl⟩ := mem_update.mp hr
      split at hc
      · next hkey =>
        -- The row of the call: `x` is completed as `c.touch` says.
        have hx : x.key = (userId, questionId) := by
          rw [of_decide_eq_true hkey, c.touch_userId, c.touch_questionId]
          exact hk₁
        rw [if_pos hkey]
        cases c with
        | setCompleted time => exact .inr ⟨⟨time, rfl⟩, hx⟩
        | addOrUpdateUserProgress => exact .inl ⟨r₁, hr₁, hk₁.trans hx.symm, hc⟩
      · next hkey =>
        rw [if_neg hkey]
        exact .inl ⟨x, hx, rfl, hc⟩
    · exact absurd rfl ((Db.of_insertProgress hdb).1 r₁ hr₁)

/-- A statement of an administrator, or one that anyone may send, adds no
progress and changes none. -/
theorem ByAdmin.progress {path : Path} {stmt : Stmt} (h : ByAdmin path stmt)
    (hdb : stmt.Does collate db db') : db'.progress.Sublist db.progress := by
  obtain ⟨db₀, hskips, hdb⟩ := hdb
  rw [← hskips.progress]
  cases h with
  | editUser =>
    obtain ⟨-, rfl⟩ := Db.of_updateUser hdb
    exact .refl _
  | addUser =>
    obtain ⟨-, rfl⟩ := Db.of_insertUser hdb
    exact .refl _
  | deleteUser | deleteQuestion =>
    cases hdb
    exact List.filter_sublist

theorem ByAnyone.progress {path : Path} {stmt : Stmt} (h : ByAnyone path stmt)
    (hdb : stmt.Does collate db db') : db'.progress = db.progress := by
  obtain ⟨db₀, hskips, hdb⟩ := hdb
  rw [← hskips.progress]
  cases h with
  | register =>
    obtain ⟨-, rfl⟩ := Db.of_insertUser hdb
    rfl
  | updateQuestion | addQuestion =>
    cases hdb
    rfl

end

/-- A request for a question, handled for a user: `GetUserInfo` leaves that
user's id for the name of its session, or for what is read behind
`sessions.end()` (or, if no account has that name, what was in `User.id`). -/
def HandledFor (s : ServerState) (e : Visit) (number : Digits) (userId questionId : Int) : Prop :=
  ∃ username, (s.sessions e.2.sessionId).or e.1.stray = some username ∧
    (userInfo e.1 username s.db).1 = true ∧ (userInfo e.1 username s.db).2.id = userId ∧
    stoi number.val = some questionId

/-- A `/setCompleted` request for a user and a question. -/
def Marks (s : ServerState) (e : Visit) (userId questionId : Int) : Prop :=
  ∃ number, e.2.path = .setCompleted number ∧ HandledFor s e number userId questionId

/-- A `/judge` request for a user and a question, answered with status 0. -/
def Passes (L : Library) (s : ServerState) (e : Visit) (userId questionId : Int) : Prop :=
  ∃ number text v status, e.2.path = .judge number ∧ HandledFor s e number userId questionId ∧
    (serve L e.1 e.2 s).1 = .ok (.text text) ∧ L.reader.parse text = .ok (true, v) ∧
    L.reader.index v "status".toList = .ok status ∧ L.reader.asInt status = .ok 0

section
variable {collate : Collation} {L : Library} {w : World} {req : Request} {s s' : ServerState}
  {stmts : List Stmt}

/-- A request completes a row only if it is `/setCompleted` for it. -/
theorem Did.completed (h : Did L w req s stmts s') (hm : w.mysql.Meant collate) {r : ProgressRow}
    (hr : r ∈ s'.db.progress) (hc : r.isCompleted) :
    (∃ r₀ ∈ s.db.progress, r₀.key = r.key ∧ r₀.isCompleted) ∨
      Marks s (w, req) r.userId r.questionId := by
  have old (h : r ∈ s.db.progress) : (∃ r₀ ∈ s.db.progress, r₀.key = r.key ∧ r₀.isCompleted) ∨
      Marks s (w, req) r.userId r.questionId := .inl ⟨r, h, rfl, hc⟩
  cases h with
  | nothing | login | logout => exact old hr
  | @admin _ stmt _ _ hp =>
    rcases hm.exec_cases stmt s.db with e | e
    · exact old (congrArg Db.progress e ▸ hr)
    · exact old ((hp.progress e).subset hr)
  | @anyone stmt hp =>
    rcases hm.exec_cases stmt s.db with e | e
    · exact old (congrArg Db.progress e ▸ hr)
    · exact old (hp.progress e ▸ hr)
  | @progress username number c questionId x hp hu hok hq hx =>
    rw [ProgressCall.run_stmt] at hx
    subst hx
    rcases hm.exec_cases _ s.db with e | e
    · exact old (congrArg Db.progress e ▸ hr)
    · refine (completed_of_writtenBy hm e hr hc).imp_right ?_
      rintro ⟨⟨time, rfl⟩, hkey⟩
      obtain ⟨hid, hq'⟩ := Prod.mk.inj hkey
      rw [hid, hq']
      generalize hpath : req.path = path at hp
      cases hp
      exact ⟨number, hpath, username, hu, hok, rfl, hq⟩

/-- In a run of any requests, a completed row was completed at the start or
some earlier request was `/setCompleted` for its user and its question. -/
theorem completed_of_marked {db : Db} {es : List Visit}
    (h : Run (ServerState.step L) (Meant collate) (.start db) es s) {r : ProgressRow}
    (hr : r ∈ s.db.progress) (hc : r.isCompleted) :
    (∃ r₀ ∈ db.progress, r₀.key = r.key ∧ r₀.isCompleted) ∨
      Happened (ServerState.step L) (Meant collate) (.start db) es fun s e =>
        Marks s e r.userId r.questionId := by
  let I (es : List Visit) (s : ServerState) : Prop :=
    Run (ServerState.step L) (Meant collate) (.start db) es s ∧
      ∀ r ∈ s.db.progress, r.isCompleted → (∃ r₀ ∈ db.progress, r₀.key = r.key ∧ r₀.isCompleted) ∨
        Happened (ServerState.step L) (Meant collate) (.start db) es fun s e =>
          Marks s e r.userId r.questionId
  have hI : I es s := by
    refine h.inv_trace (I := I) ?_ ⟨.nil _, fun r hr hc => .inl ⟨r, hr, rfl, hc⟩⟩
    rintro es s e s' ⟨hrun, hold⟩ hm hs
    refine ⟨hrun.append (.single hm hs), fun r hr hc => ?_⟩
    obtain ⟨stmts, hd⟩ := ServerState.did_of_step hs
    rcases hd.completed hm hr hc with ⟨r₀, hr₀, hkey, hc₀⟩ | hmark
    · obtain ⟨hu, hq⟩ := Prod.mk.inj hkey
      rcases hold r₀ hr₀ hc₀ with ⟨r₁, hr₁, hkey₁, hc₁⟩ | hmark
      · exact .inl ⟨r₁, hr₁, hkey₁.trans hkey, hc₁⟩
      · rw [hu, hq] at hmark
        exact .inr (hmark.concat e)
    · exact .inr (hrun.happened hmark)
  exact hI.2 r hr hc

end

/-- `bob` registers, logs in and says twice that question 7 is completed. -/
def unjudged : List Visit :=
  [.register, .login, .setCompleted Submitted.number, .setCompleted Submitted.number].map fun path =>
    (.k, .bob path)

theorem run_unjudged : ∃ s, Run (ServerState.step .sample) (Meant id) (.start .sample) unjudged s ∧
    s.db.progress = [⟨1, 2, 7, true, "2023-11-14 22:13:20".toList, 1⟩] := by
  have hrun : (replay (ServerState.step .sample) Free (.start .sample) unjudged).map (·.db.progress) =
      some [⟨1, 2, 7, true, "2023-11-14 22:13:20".toList, 1⟩] := by
    decide +kernel
  obtain ⟨s, hs, hp⟩ := Option.map_eq_some_iff.mp hrun
  refine ⟨s, (Run.of_replay hs).mono_mem fun e he _ _ => ?_, hp⟩
  obtain ⟨path, -, rfl⟩ := List.mem_map.mp he
  exact MySQL.exact_meant id

theorem completed_of_marked_two : ∃ s,
    Run (ServerState.step .sample) (Meant id) (.start .sample) unjudged s ∧
    s.db.progress = [⟨1, 2, 7, true, "2023-11-14 22:13:20".toList, 1⟩] ∧
    Happened (ServerState.step .sample) (Meant id) (.start .sample) unjudged fun s e => Marks s e 2 7 := by
  obtain ⟨s, h, hp⟩ := run_unjudged
  refine ⟨s, h, hp, (completed_of_marked h (hp ▸ List.mem_singleton_self _) rfl).resolve_left ?_⟩
  rintro ⟨r, hr, -⟩
  cases hr

/-- A question is completed without any `/judge` request. -/
theorem completed_without_judge : ∃ es s,
    Run (ServerState.step .sample) (Meant id) (.start .sample) es s ∧
      (∃ r ∈ s.db.progress, r.userId = 2 ∧ r.questionId = 7 ∧ r.isCompleted) ∧
      ¬ Happened (ServerState.step .sample) (Meant id) (.start .sample) es fun s e =>
        Passes .sample s e 2 7 := by
  obtain ⟨s, h, hp⟩ := run_unjudged
  refine ⟨_, s, h, ⟨_, hp ▸ List.mem_singleton_self _, rfl, rfl, rfl⟩, ?_⟩
  rintro ⟨es₁, e, es₂, s₁, hes, -, number, text, v, status, hpath, -⟩
  have he : e ∈ unjudged := hes ▸ List.mem_append_right _ List.mem_cons_self
  simp only [unjudged, List.map_cons, List.map_nil, List.mem_cons, List.not_mem_nil, or_false] at he
  rcases he with rfl | rfl | rfl | rfl
  · cases hpath
  · cases hpath
  · cases hpath
  · cases hpath

end OJ.Server
