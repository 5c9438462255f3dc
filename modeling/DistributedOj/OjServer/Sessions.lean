import DistributedOj.OjServer.Deeds

/-!
# Sessions

A login binds a session id to a name, not to an account. The id stays bound to
that name until its logout or another login that draws it, and acts as the
account that logged in as long as no account is created under that name or
renamed to or from it (`resolves`). Otherwise it may come to act as another
account (`not_resolves`).
-/

namespace OJ.Server

open OJ.Comm OJ.Framework Table Handling

/-! ## Names -/

/-- A statement creates no account under a name, and renames none to or from
it. -/
def Stmt.Spares (collate : Collation) (username : Str) (db : Db) : Stmt → Prop
  | addUser name _ _ | insertUserByAdmin name _ _ _ => collate name ≠ collate username
  | updateUserById name _ _ _ userid => ∀ r ∈ db.user, r.userid = userid →
    (r.name collate = collate username ↔ collate name = collate username)
  | _ => True

/-- The account with that name is `userid`, if that account exists, and there
is no other one. -/
structure Names (collate : Collation) (username : Str) (userid : Int) (db : Db) : Prop where
  iff : ∀ r ∈ db.user, r.name collate = collate username ↔ r.userid = userid
  lt : userid < db.nextUser

section
variable {collate : Collation} {username : Str} {userid : Int} {db db' : Db}

theorem Names.of_mem (h : db.Ok collate) {r : UserRow} (hr : r ∈ db.user)
    (hname : r.name collate = collate username) : Names collate username r.userid db := by
  refine ⟨fun x hx => ⟨fun e => ?_, fun e => ?_⟩, h.userid_lt r hr⟩
  · rw [h.usernames.inj hx hr (e.trans hname.symm)]
  · rw [h.userids.inj hx hr e]
    exact hname

theorem Names.insertUser {name password salt : Str} {isAdmin : Int}
    (h : Names collate username userid db)
    (hdb : db.insertUser collate name password salt isAdmin = some db')
    (hne : collate name ≠ collate username) : Names collate username userid db' := by
  obtain ⟨-, rfl⟩ := Db.of_insertUser hdb
  refine ⟨fun r hr => ?_, h.lt.trans (Int.lt_succ _)⟩
  rcases List.mem_append.mp hr with hr | hr
  · exact h.iff r hr
  · rw [List.mem_singleton.mp hr]
    exact iff_of_false hne h.lt.ne'

theorem Names.updateUser {name password salt : Str} {isAdmin id : Int}
    (h : Names collate username userid db)
    (hdb : db.updateUser collate name password salt isAdmin id = some db')
    (hname : ∀ r ∈ db.user, r.userid = id →
      (r.name collate = collate username ↔ collate name = collate username)) :
    Names collate username userid db' := by
  obtain ⟨-, rfl⟩ := Db.of_updateUser hdb
  refine ⟨fun r hr => ?_, h.lt⟩
  obtain ⟨x, hx, rfl⟩ := mem_update.mp hr
  split
  · next hid => exact (hname x hx (of_decide_eq_true hid)).symm.trans (h.iff x hx)
  · exact h.iff x hx

/-- What a statement that spares the name keeps. -/
theorem Names.meaning {stmt : Stmt} (h : Names collate username userid db)
    (hdb : stmt.meaning collate db = some db') (hs : stmt.Spares collate username db) :
    Names collate username userid db' := by
  cases stmt with
  | addUser | insertUserByAdmin => exact h.insertUser hdb hs
  | updateUserById => exact h.updateUser hdb hs
  | deleteUserById =>
    cases hdb
    exact ⟨fun r hr => h.iff r (List.mem_filter.mp hr).1, h.lt⟩
  | insertQuestion | updateQuestion | deleteQuestion | updateUserProgress =>
    cases hdb
    exact ⟨h.iff, h.lt⟩
  | addUserProgress =>
    obtain ⟨-, rfl⟩ := Db.of_insertProgress hdb
    exact ⟨h.iff, h.lt⟩

theorem Names.does {stmt : Stmt} (h : Names collate username userid db) (hdb : stmt.Does collate db db')
    (hs : stmt.Spares collate username db) : Names collate username userid db' := by
  obtain ⟨db₀, hskips, hdb⟩ := hdb
  refine Names.meaning ⟨fun r hr => h.iff r (hskips.user ▸ hr), h.lt.trans_le hskips.nextUser⟩ hdb ?_
  cases stmt with
  | updateUserById =>
    show ∀ r ∈ db₀.user, _
    rw [hskips.user]
    exact hs
  | _ => exact hs

end

/-! ## Sessions -/

/-- The row that the handlers read for a session: the first one of the `SELECT`
of its name. -/
def ActsAs (m : MySQL) (s : ServerState) (sessionId : Str) (r : UserRow) : Prop :=
  ∃ username rs, s.sessions sessionId = some username ∧ m.user username s.db = some (r :: rs)

/-- A session acts as no other account, and as this one if it exists and MySQL
makes no error. -/
structure Resolves (collate : Collation) (s : ServerState) (sessionId : Str) (userid : Int) : Prop where
  only : ∀ m : MySQL, m.Meant collate → ∀ r, ActsAs m s sessionId r → r ∈ s.db.user ∧ r.userid = userid
  own : ∀ r ∈ s.db.user, r.userid = userid → ActsAs (.exact collate) s sessionId r

/-- A login as the account in a row, whose answer sets the cookie to a session
id. -/
structure Issues (L : Library) (sessionId : Str) (r : UserRow) (s : ServerState) (e : Visit) : Prop where
  path : e.2.path = .login
  account : LoggedIn e.1.mysql L.md5 (e.2.paramOrFile "username".toList)
    (e.2.paramOrFile "password".toList) s.db r
  cookie : ∃ reply, (serve L e.1 e.2 s).1 = .ok reply ∧
    reply.setCookie = some ("session_id=".toList ++ sessionId)

/-- A request that leaves a session id to the login that issued it. -/
structure Kept (collate : Collation) (L : Library) (sessionId : Str) (s : ServerState) (e : Visit) :
    Prop where
  meant : e.1.mysql.Meant collate
  logout : e.2.path = .logout → e.2.sessionId ≠ sessionId
  login : ∀ r, ¬ Issues L sessionId r s e

/-- The statements of a request that succeed spare a name. -/
def Spared (collate : Collation) (L : Library) (username : Str) (s : ServerState) (e : Visit) : Prop :=
  ∀ stmt ∈ sentBy (serve L e.1 e.2 s).2.2, ∀ db', e.1.mysql.exec stmt s.db = some db' →
    stmt.Spares collate username s.db

section
variable {collate : Collation} {L : Library} {sessionId username : Str} {r : UserRow}
  {s s' : ServerState} {e : Visit}

theorem Resolves.of_names {userid : Int} (hs : s.sessions sessionId = some username)
    (h : s.db.Ok collate) (hn : Names collate username userid s.db) :
    Resolves collate s sessionId userid := by
  constructor
  · rintro m hm r ⟨username', rs, hs', hr⟩
    cases Option.some.inj (hs.symm.trans hs')
    obtain ⟨hmem, hname⟩ := hm.of_user hr
    exact ⟨hmem, (hn.iff r hmem).mp hname⟩
  · intro r hr hid
    refine ⟨username, [], hs, ?_⟩
    rw [MySQL.exact]
    dsimp only
    rw [← (hn.iff r hr).mpr hid, h.usernames.rowsWith_eq hr]

/-- What a login that succeeds does. -/
theorem serve_login (hp : e.2.path = .login)
    (h : LoggedIn e.1.mysql L.md5 (e.2.paramOrFile "username".toList)
      (e.2.paramOrFile "password".toList) s.db r) :
    ∃ reply, serve L e.1 e.2 s = (.ok reply,
      ⟨Function.update s.sessions e.1.sessionId.val (some (e.2.paramOrFile "username".toList)), s.db⟩,
      []) ∧
      reply.setCookie = some ("session_id=".toList ++ e.1.sessionId.val) := by
  rw [serve, handle, hp]
  dsimp only
  rw [handleLogin, run_sql_bind, run_loginUser]
  dsimp only
  rw [if_pos (loggedIn_iff.mpr ⟨r, h⟩)]
  exact ⟨_, rfl, rfl⟩

theorem Issues.of_loggedIn (hp : e.2.path = .login)
    (h : LoggedIn e.1.mysql L.md5 (e.2.paramOrFile "username".toList)
      (e.2.paramOrFile "password".toList) s.db r) : Issues L e.1.sessionId.val r s e := by
  obtain ⟨reply, hserve, hcookie⟩ := serve_login hp h
  exact ⟨hp, h, reply, congrArg Prod.fst hserve, hcookie⟩

/-- The session id is the one that was drawn. -/
theorem Issues.eq_drawn (h : Issues L sessionId r s e) : sessionId = e.1.sessionId.val := by
  obtain ⟨reply, hreply, hcookie⟩ := h.cookie
  obtain ⟨reply', hserve, hcookie'⟩ := serve_login h.path h.account
  rw [hserve] at hreply
  cases hreply
  exact List.append_cancel_left (Option.some.inj (hcookie.symm.trans hcookie'))

/-- The session is bound to the name of the account. -/
theorem Issues.bound (h : Issues L sessionId r s e) (hs : s.step L e = some s') :
    s'.sessions sessionId = some (e.2.paramOrFile "username".toList) ∧ s'.db = s.db := by
  obtain ⟨reply, hserve, -⟩ := serve_login h.path h.account
  rw [ServerState.eq_of_step hs, hserve, h.eq_drawn]
  exact ⟨Function.update_self .., rfl⟩

theorem Issues.names (h : Issues L sessionId r s e) (hm : e.1.mysql.Meant collate)
    (hok : s.db.Ok collate) : Names collate (e.2.paramOrFile "username".toList) r.userid s.db := by
  obtain ⟨rs, hr, -⟩ := h.account
  obtain ⟨hmem, hname⟩ := hm.of_user hr
  exact .of_mem hok hmem hname

/-- A session id keeps its name. -/
theorem Kept.sessions (h : Kept collate L sessionId s e) (hs : s.step L e = some s') :
    s'.sessions sessionId = s.sessions sessionId := by
  have hd : Did L e.1 e.2 s (sentBy (serve L e.1 e.2 s).2.2) s' := ServerState.eq_of_step hs ▸ did
  generalize sentBy (serve L e.1 e.2 s).2.2 = stmts at hd
  cases hd with
  | nothing | admin | anyone | progress => rfl
  | @login r hp hr =>
    refine Function.update_of_ne (fun hid => h.login r ?_) _ _
    rw [hid]
    exact .of_loggedIn hp hr
  | logout hp => exact Function.update_of_ne (h.logout hp).symm _ _

theorem Kept.of_path (hm : e.1.mysql.Meant collate) (hlogin : e.2.path ≠ .login)
    (hlogout : e.2.path ≠ .logout) : Kept collate L sessionId s e :=
  ⟨hm, fun hp => absurd hp hlogout, fun _ h => absurd h.path hlogin⟩

theorem Names.of_step {userid : Int} (h : Names collate username userid s.db)
    (hm : e.1.mysql.Meant collate) (hsp : Spared collate L username s e) (hs : s.step L e = some s') :
    Names collate username userid s'.db := by
  rcases ServerState.db_of_step hm hs with hdb | ⟨stmt, hstmt, hexec, hdb⟩
  · rw [hdb]
    exact h
  · exact h.does hdb (hsp stmt hstmt _ hexec)

/-- In a run of any requests, the session id of a login stays bound to the name
that logged in, and to the account if the name is spared. -/
theorem resolves {db : Db} (h₀ : db.Ok collate) {es es' : List Visit} {s₁ s₂ : ServerState}
    (h : Run (ServerState.step L) (Meant collate) (.start db) es s₁)
    (hm : Meant collate s₁ e) (he : Issues L sessionId r s₁ e) (hs : s₁.step L e = some s₂)
    (h' : Run (ServerState.step L) (Kept collate L sessionId) s₂ es' s) :
    s.sessions sessionId = some (e.2.paramOrFile "username".toList) ∧
      (Run (ServerState.step L) (Spared collate L (e.2.paramOrFile "username".toList)) s₂ es' s →
        Resolves collate s sessionId r.userid) := by
  have hok₁ : s₁.db.Ok collate :=
    h.inv (I := fun s => s.db.Ok collate) (fun s e s' hok hm hs => ServerState.ok_of_step hok hm hs) h₀
  obtain ⟨hbound₂, hdb⟩ := he.bound hs
  have hnames₂ : Names collate (e.2.paramOrFile "username".toList) r.userid s₂.db := by
    rw [hdb]
    exact he.names hm hok₁
  have hbound : s.sessions sessionId = some (e.2.paramOrFile "username".toList) :=
    h'.inv (I := fun s => s.sessions sessionId = some (e.2.paramOrFile "username".toList))
      (fun s e s' hb hk hs => (hk.sessions hs).trans hb) hbound₂
  refine ⟨hbound, fun hsp => ?_⟩
  obtain ⟨hok, hnames⟩ : s.db.Ok collate ∧
      Names collate (e.2.paramOrFile "username".toList) r.userid s.db := by
    refine (h'.and hsp).inv (I := fun s => s.db.Ok collate ∧
      Names collate (e.2.paramOrFile "username".toList) r.userid s.db) ?_ ⟨hdb ▸ hok₁, hnames₂⟩
    rintro s e s' ⟨hok, hnames⟩ ⟨hk, hsp⟩ hs
    exact ⟨ServerState.ok_of_step hok hk.meant hs, hnames.of_step hk.meant hsp hs⟩
  exact .of_names hbound hok hnames

end

/-- Two accounts with the password `pw`, the first one an administrator's. -/
def Db.two : Db where
  user := [⟨1, "root".toList, "8fe4c11451281c094a6578e6ddbf5eed".toList, [], 1⟩,
    ⟨2, "bob".toList, "8fe4c11451281c094a6578e6ddbf5eed".toList, [], 0⟩]
  questions := []
  progress := []
  nextUser := 3
  nextQuestion := 1
  nextProgress := 1

theorem Db.two_ok : Db.two.Ok id := ⟨by decide, by decide, by decide, by decide, by decide, by decide⟩

/-- A request of `root`, whose sessions have another letter. -/
def Visit.root (path : Path) : Visit :=
  (.sample ⟨'r', by decide⟩,
    ⟨path, "session_id=rrrrrrrrrrrrrrrrrrrrrrrrrrrrrrrr".toList,
      [("username".toList, "root".toList), ("password".toList, "pw".toList)], [], []⟩)

/-- A login of `bob`. -/
def Visit.login : Visit := (.k, .bob .login)

theorem issues_login :
    Issues .sample World.k.sessionId.val
      ⟨2, "bob".toList, "8fe4c11451281c094a6578e6ddbf5eed".toList, [], 0⟩ (.start .two) .login :=
  .of_loggedIn (e := .login) rfl ⟨[], by decide +kernel, rfl⟩

/-- A run after the login. -/
theorem run_login (rows : List UserRow) {es : List Visit}
    (hk : ∀ e ∈ es, ∀ s, Kept id .sample World.k.sessionId.val s e)
    (h : (replay (ServerState.step .sample) Free (.start .two) (.login :: es)).map
      (fun s => (s.db.user, s.sessions World.k.sessionId.val)) = some (rows, some "bob".toList)) :
    ∃ s₂ s, (ServerState.start .two).step .sample .login = some s₂ ∧
      Run (ServerState.step .sample) (Kept id .sample World.k.sessionId.val) s₂ es s ∧
      s.db.user = rows ∧ s.sessions World.k.sessionId.val = some "bob".toList := by
  obtain ⟨s, hs, he⟩ := Option.map_eq_some_iff.mp h
  obtain ⟨hrows, hbound⟩ := Prod.mk.inj he
  cases Run.of_replay hs with
  | cons _ hs h => exact ⟨_, s, hs, h.mono_mem fun e he s _ => hk e he s, hrows, hbound⟩

theorem resolves_two : ∃ s₂ s, (ServerState.start .two).step .sample .login = some s₂ ∧
    Run (ServerState.step .sample) (Kept id .sample World.k.sessionId.val) s₂ [(.k, .bob .check_login)] s ∧
    Resolves id s World.k.sessionId.val 2 := by
  have hk : ∀ e ∈ [((.k, .bob .check_login) : Visit)], ∀ s,
      Kept id .sample World.k.sessionId.val s e := by
    intro e he s
    rw [List.mem_singleton.mp he]
    exact .of_path (MySQL.exact_meant id) (by decide) (by decide)
  obtain ⟨s₂, s, hs, h, -⟩ := run_login Db.two.user hk (by decide +kernel)
  refine ⟨s₂, s, hs, h,
    (resolves (e := .login) Db.two_ok (.nil _) (MySQL.exact_meant id) issues_login hs h).2
      (h.mono_mem fun e he s _ => ?_)⟩
  intro stmt hstmt
  have hsent : sentBy (serve .sample .k (.bob .check_login) s).2.2 = [] := by
    rw [serve, handle, Request.bob]
    dsimp only
    rw [handleCheckLogin, run_find_bind]
    cases s.sessions _ with
    | none => rfl
    | some => rfl
  rw [List.mem_singleton.mp he, hsent] at hstmt
  cases hstmt

/-- `root` deletes the account of `bob`, who registers again. -/
def reregistered : List Visit :=
  [.root .login, .root (.deleteUser ⟨"2".toList, by decide⟩), (.k, .bob .register)]

/-- The session of the deleted account acts as the new one. -/
theorem not_resolves : ∃ s₂ s r, Issues .sample World.k.sessionId.val r (.start .two) .login ∧
    (ServerState.start .two).step .sample .login = some s₂ ∧
    Run (ServerState.step .sample) (Kept id .sample World.k.sessionId.val) s₂ reregistered s ∧
    ¬ Resolves id s World.k.sessionId.val r.userid := by
  have hk : ∀ e ∈ reregistered, ∀ s, Kept id .sample World.k.sessionId.val s e := by
    intro e he s
    simp only [reregistered, List.mem_cons, List.not_mem_nil, or_false] at he
    rcases he with rfl | rfl | rfl
    · refine ⟨MySQL.exact_meant id, fun hp => ?_, fun r h => absurd h.eq_drawn (by decide)⟩
      cases hp
    · exact .of_path (MySQL.exact_meant id) (by decide) (by decide)
    · exact .of_path (MySQL.exact_meant id) (by decide) (by decide)
  obtain ⟨s₂, s, hs, h, hrows, hbound⟩ := run_login
    [⟨1, "root".toList, "8fe4c11451281c094a6578e6ddbf5eed".toList, [], 1⟩,
      ⟨3, "bob".toList, "8fe4c11451281c094a6578e6ddbf5eed".toList, [], 0⟩] hk (by decide +kernel)
  refine ⟨s₂, s, _, issues_login, hs, h, fun hr => ?_⟩
  have hacts : ActsAs (.exact id) s World.k.sessionId.val
      ⟨3, "bob".toList, "8fe4c11451281c094a6578e6ddbf5eed".toList, [], 0⟩ := by
    refine ⟨_, [], hbound, ?_⟩
    rw [MySQL.exact]
    dsimp only
    rw [hrows]
    decide +kernel
  cases (hr.only _ (MySQL.exact_meant id) _ hacts).2

end OJ.Server
