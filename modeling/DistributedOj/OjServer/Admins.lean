import DistributedOj.OjServer.Deeds

/-!
# Administrators

What a request does to the accounts and the questions (`Guarded.of_did`), and what
follows for a run of any requests: accounts change by a registration or by an
administrator's request, questions are deleted by one, no session has the empty
id, and without an administrator's session no administrator is made
(`guarded`).
-/

namespace OJ.Server

open OJ.Comm OJ.Framework Table

/-- The session of a request is bound to a name whose account is an
administrator's. -/
def AdminSession (collate : Collation) (s : ServerState) (req : Request) : Prop :=
  ∃ username, s.sessions req.sessionId = some username ∧
    ∃ r ∈ s.db.user, r.name collate = collate username ∧ r.isAdmin ≠ 0

/-- The handlers that change accounts for an administrator. -/
def Path.EditsUsers : Path → Prop
  | editUser | addUser | deleteUser _ => True
  | _ => False

/-- A question of `db` is not in `db'`. -/
def Lost (db db' : Db) : Prop := ∃ q ∈ db.questions, ∀ q' ∈ db'.questions, q'.id ≠ q.id

section
variable {collate : Collation} {m : MySQL} {db db' : Db} {stmt : Stmt}

theorem not_lost_of_eq (h : db'.questions = db.questions) : ¬ Lost db db' := by
  rintro ⟨q, hq, hn⟩
  exact hn q (h ▸ hq) rfl

theorem Lost.skips {db₀ : Db} (h : Lost db db') (hs : db.Skips db₀) : Lost db₀ db' := by
  obtain ⟨q, hq, hn⟩ := h
  exact ⟨q, hs.questions ▸ hq, hn⟩

theorem AdminIn.exists_row {username : Str} (hm : m.Meant collate) (h : AdminIn m username db) :
    ∃ r ∈ db.user, r.name collate = collate username ∧ r.isAdmin ≠ 0 := by
  obtain ⟨r, rs, hr, ha⟩ := h
  obtain ⟨hmem, hname⟩ := hm.of_user hr
  exact ⟨r, hmem, hname, ha⟩

/-- A registration adds an account without rights. -/
theorem user_of_addUser {username password salt : Str}
    (h : (Stmt.addUser username password salt).meaning collate db = some db') :
    ∃ r : UserRow, r.isAdmin = 0 ∧ db'.user = db.user ++ [r] := by
  obtain ⟨-, rfl⟩ := Db.of_insertUser h
  exact ⟨_, rfl, rfl⟩

/-- What a statement that is no administrator's leaves alone. -/
theorem ByAnyone.frame {path : Path} (h : ByAnyone path stmt)
    (hdb : stmt.meaning collate db = some db') :
    (db'.user = db.user ∨
      (path = .register ∧ ∃ r : UserRow, r.isAdmin = 0 ∧ db'.user = db.user ++ [r])) ∧
    ¬ Lost db db' := by
  cases h with
  | register =>
    refine ⟨.inr ⟨rfl, user_of_addUser hdb⟩, ?_⟩
    obtain ⟨-, rfl⟩ := Db.of_insertUser hdb
    exact not_lost_of_eq rfl
  | updateQuestion =>
    cases hdb
    refine ⟨.inl rfl, ?_⟩
    rintro ⟨q, hq, hn⟩
    refine hn _ (mem_update.mpr ⟨q, hq, rfl⟩) ?_
    split
    · rfl
    · rfl
  | addQuestion =>
    cases hdb
    refine ⟨.inl rfl, ?_⟩
    rintro ⟨q, hq, hn⟩
    exact hn q (List.mem_append_left _ hq) rfl

/-- What an administrator's statement leaves alone. -/
theorem ByAdmin.frame {path : Path} (h : ByAdmin path stmt)
    (hdb : stmt.meaning collate db = some db') :
    (db'.user = db.user ∨ path.EditsUsers) ∧ (¬ Lost db db' ∨ ∃ number, path = .deleteQuestion number) := by
  cases h with
  | editUser =>
    refine ⟨.inr trivial, .inl ?_⟩
    obtain ⟨-, rfl⟩ := Db.of_updateUser hdb
    exact not_lost_of_eq rfl
  | deleteUser =>
    cases hdb
    exact ⟨.inr trivial, .inl (not_lost_of_eq rfl)⟩
  | addUser =>
    refine ⟨.inr trivial, .inl ?_⟩
    obtain ⟨-, rfl⟩ := Db.of_insertUser hdb
    exact not_lost_of_eq rfl
  | @deleteQuestion number =>
    cases hdb
    exact ⟨.inl rfl, .inr ⟨number, rfl⟩⟩

/-- `UserProgressControl` writes to no other table. -/
theorem writtenBy_frame {clock : Clock} {touch : UserProgress → UserProgress}
    {found : Bool × UserProgress} (hdb : (writtenBy clock touch found).meaning collate db = some db') :
    db'.user = db.user ∧ db'.questions = db.questions := by
  rw [writtenBy] at hdb
  split at hdb
  · cases hdb
    exact ⟨rfl, rfl⟩
  · obtain ⟨-, rfl⟩ := Db.of_insertProgress hdb
    exact ⟨rfl, rfl⟩

end

/-- A request that takes the server from `s` to `s'` changes accounts as a
registration or as an administrator's, and deletes questions as one. -/
structure Guarded (collate : Collation) (req : Request) (s s' : ServerState) : Prop where
  user : s'.db.user = s.db.user ∨
    (req.path = .register ∧ ∃ r : UserRow, r.isAdmin = 0 ∧ s'.db.user = s.db.user ++ [r]) ∨
    (req.path.EditsUsers ∧ AdminSession collate s req)
  questions : Lost s.db s'.db →
    (∃ number, req.path = .deleteQuestion number) ∧ AdminSession collate s req

section
variable {collate : Collation} {L : Library} {w : World} {req : Request} {s s' : ServerState}
  {stmts : List Stmt}

theorem Guarded.of_eq (hu : s'.db.user = s.db.user) (hq : s'.db.questions = s.db.questions) :
    Guarded collate req s s' :=
  ⟨.inl hu, fun h => absurd h (not_lost_of_eq hq)⟩

theorem Guarded.of_did (h : Did L w req s stmts s') (hm : w.mysql.Meant collate) :
    Guarded collate req s s' := by
  cases h with
  | nothing | login | logout => exact .of_eq rfl rfl
  | @admin username stmt hs ha hp =>
    rcases hm.exec_cases stmt s.db with e | e
    · exact .of_eq (congrArg Db.user e) (congrArg Db.questions e)
    · have hadmin : AdminSession collate s req := ⟨username, hs, ha.exists_row hm⟩
      obtain ⟨db₀, hskips, hdb⟩ := e
      obtain ⟨hu, hq⟩ := hp.frame hdb
      rw [hskips.user] at hu
      exact ⟨hu.imp_right fun hp => .inr ⟨hp, hadmin⟩,
        fun hl => ⟨hq.resolve_left (not_not_intro (hl.skips hskips)), hadmin⟩⟩
  | @anyone stmt hp =>
    rcases hm.exec_cases stmt s.db with e | e
    · exact .of_eq (congrArg Db.user e) (congrArg Db.questions e)
    · obtain ⟨db₀, hskips, hdb⟩ := e
      obtain ⟨hu, hq⟩ := hp.frame hdb
      rw [hskips.user] at hu
      exact ⟨hu.imp_right .inl, fun hl => absurd (hl.skips hskips) hq⟩
  | progress hp _ _ _ hx =>
    rw [ProgressCall.run_stmt] at hx
    subst hx
    rcases hm.exec_cases _ s.db with e | e
    · exact .of_eq (congrArg Db.user e) (congrArg Db.questions e)
    · obtain ⟨db₀, hskips, hdb⟩ := e
      obtain ⟨hu, hq⟩ := writtenBy_frame hdb
      exact .of_eq (hu.trans hskips.user) (hq.trans hskips.questions)

/-- No session gets the empty id. -/
theorem Did.sessions_nil (h : Did L w req s stmts s') (hs : s.sessions [] = none) :
    s'.sessions [] = none := by
  cases h with
  | nothing | admin | anyone | progress => exact hs
  | login => exact (Function.update_of_ne (Ne.symm w.sessionId.ne_nil) _ _).trans hs
  | logout =>
    show Function.update s.sessions req.sessionId none [] = none
    by_cases e : [] = req.sessionId
    · rw [← e, Function.update_self]
    · rw [Function.update_of_ne e, hs]

/-- Without an administrator's session no administrator is made. -/
theorem Guarded.admins (h : Guarded collate req s s') (hn : ¬ AdminSession collate s req)
    {r : UserRow} (hr : r ∈ s'.db.user) (ha : r.isAdmin ≠ 0) : r ∈ s.db.user := by
  rcases h.user with e | ⟨-, r', ha', e⟩ | ⟨-, hadmin⟩
  · rwa [e] at hr
  · rw [e] at hr
    rcases List.mem_append.mp hr with hr | hr
    · exact hr
    · rw [List.mem_singleton.mp hr] at ha
      exact absurd ha' ha
  · exact absurd hadmin hn

/-- In every run of requests, with MySQL doing what is meant: the empty id is
no key of `sessions`, and whatever request comes next is guarded. In a run in
which no request has an administrator's session, the administrators are those
there were. -/
theorem guarded (L : Library) (collate : Collation) (db : Db) :
    (∀ es s, Run (ServerState.step L) (Meant collate) (.start db) es s →
      s.sessions [] = none ∧
        ∀ w req, w.mysql.Meant collate → Guarded collate req s (serve L w req s).2.1) ∧
    ∀ es s, Run (ServerState.step L)
        (fun s e => Meant collate s e ∧ ¬ AdminSession collate s e.2) (.start db) es s →
      ∀ r ∈ s.db.user, r.isAdmin ≠ 0 → r ∈ db.user := by
  constructor
  · intro es s h
    refine ⟨h.inv (I := fun s => s.sessions [] = none) ?_ rfl, fun w req hm => .of_did did hm⟩
    intro s e s' hs _ hstep
    obtain ⟨stmts, hd⟩ := ServerState.did_of_step hstep
    exact hd.sessions_nil hs
  · intro es s h
    refine h.inv (I := fun s => ∀ r ∈ s.db.user, r.isAdmin ≠ 0 → r ∈ db.user) ?_ fun _ hr _ => hr
    rintro s e s' hs ⟨hm, hn⟩ hstep r hr ha
    obtain ⟨stmts, hd⟩ := ServerState.did_of_step hstep
    exact hs r ((Guarded.of_did hd hm).admins hn hr ha) ha

end

end OJ.Server
