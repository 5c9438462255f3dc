import DistributedOj.Comm.Hex
import DistributedOj.OjServer.Deeds

/-!
# Passwords

What the owners of the accounts know, their names and passwords, is a book that
each successful request about an account changes (`AccountOp.book`, `recorded`); the
number of a new account is the one that the table has given it.
The table of users tracks it row by row, with a salted digest for each password
(`Tracks`), whatever is requested (`Tracks.serve`). So a login succeeds iff the
book has an account with that name and password (`login_iff`).
-/

namespace OJ.Server

open OJ.Comm OJ.Framework Table Handling

/-! ## The book -/

/-- An account with its password. -/
structure Account where
  userid : Int
  name : Str
  password : Str
  deriving DecidableEq

/-- The accounts. -/
abbrev Book := List Account

/-- What a request asks of the accounts. -/
inductive AccountOp where
  | add (name password : Str)
  | edit (userid : Int) (name password : Str)
  | delete (userid : Option Int)

/-- A new account under this number, a new name and password for one, and one
account less. -/
def AccountOp.book (userid : Int) : AccountOp → Book → Book
  | add name password, b => b ++ [⟨userid, name, password⟩]
  | edit userid name password, b =>
    update (fun a => a.userid = userid) (fun a => ⟨a.userid, name, password⟩) b
  | delete userid, b => b.filter fun a => some a.userid ≠ userid

/-- A field of the JSON body of a request. -/
def Request.field (L : Library) (req : Request) (key : String) : Option Str := do
  let (_, v) ← (L.reader.parse req.body).toOption
  (textAt L v key).toOption

theorem Request.field_eq {L : Library} {req : Request} {key : String} {ok : Bool} {v : Json} {text : Str}
    (hv : L.reader.parse req.body = .ok (ok, v)) (ht : textAt L v key = .ok text) :
    req.field L key = some text := by
  rw [field, hv]
  show (textAt L v key).toOption = _
  rw [ht]
  rfl

/-- What a request asks of the accounts. -/
def Request.op (L : Library) (req : Request) : Option AccountOp :=
  match req.path with
  | .register => some (.add (req.paramOrFile "username".toList) (req.paramOrFile "password".toList))
  | .addUser => do return .add (← req.field L "username") (← req.field L "password")
  | .editUser => do
    return .edit (atoi (← req.field L "number")) (← req.field L "username") (← req.field L "password")
  | .deleteUser userId => some (.delete (idOf userId.val))
  | _ => none

/-- An answer whose `success` is true. -/
def Reply.succeeded (reply : Reply) : Bool :=
  match reply.content with
  | .json (.obj fields) => match fields.lookup "success".toList with
    | some (.bool success) => success
    | _ => false
  | _ => false

theorem succeeded_answer (success : Bool) : (answer success).succeeded = success := by
  simp [answer, Reply.json, Reply.succeeded]

theorem succeeded_failure (error : Str) : (failure error).succeeded = false := by
  simp [failure, Reply.json, Reply.succeeded, List.lookup_cons]

/-- The book after a request that was answered so, and the table after it. -/
def recorded (L : Library) (req : Request) (result : Except Stop Reply) (db : Db) (b : Book) : Book :=
  match result with
  | .ok reply => if reply.succeeded then (req.op L).elim b (·.book (db.nextUser - 1) b) else b
  | .error _ => b

/-! ## Rows and accounts -/

/-- The row of an account. -/
structure Matches (md5 : Str → Digest) (r : UserRow) (a : Account) : Prop where
  userid : r.userid = a.userid
  name : r.username = a.name
  password : r.password = generateSaltedMD5 md5 a.password r.salt

/-- The users are the accounts of the book. -/
def Tracks (md5 : Str → Digest) (db : Db) (b : Book) : Prop := List.Forall₂ (Matches md5) db.user b

section
variable {md5 : Str → Digest} {db db' : Db} {b : Book}

theorem Tracks.congr (h : Tracks md5 db b) (hu : db'.user = db.user) : Tracks md5 db' b := by
  rw [Tracks, hu]
  exact h

theorem Tracks.add (h : Tracks md5 db b) {name password salt : Str} {isAdmin : Int}
    (hdb : db.insertUser id name (generateSaltedMD5 md5 password salt) salt isAdmin = some db') :
    Tracks md5 db' ((AccountOp.add name password).book (db'.nextUser - 1) b) := by
  obtain ⟨-, rfl⟩ := Db.of_insertUser hdb
  exact forall₂_append h ⟨(add_sub_cancel_right db.nextUser 1).symm, rfl, rfl⟩

theorem Tracks.edit (h : Tracks md5 db b) {name password salt : Str} {isAdmin userid : Int}
    (hdb : db.updateUser id name (generateSaltedMD5 md5 password salt) salt isAdmin userid = some db') :
    Tracks md5 db' ((AccountOp.edit userid name password).book (db'.nextUser - 1) b) := by
  obtain ⟨-, rfl⟩ := Db.of_updateUser hdb
  refine forall₂_update h (fun r a hr => ?_) (fun r a hr => ⟨hr.userid, rfl, rfl⟩)
  rw [hr.userid]

theorem Tracks.delete (h : Tracks md5 db b) (userid : Option Int) : Tracks md5 (db.deleteUser userid)
    ((AccountOp.delete userid).book ((db.deleteUser userid).nextUser - 1) b) := by
  refine forall₂_filter h fun r a hr => ?_
  rw [hr.userid]

end

/-! ## Requests -/

section
variable {L : Library} {w : World} {req : Request} {s : ServerState} {b : Book}

/-- What a handler has come to is tracked by the book after it. -/
def Records (L : Library) (req : Request) (b : Book) (x : Except Stop Reply × ServerState × List Effect) :
    Prop := Tracks L.md5 x.2.1.db (recorded L req x.1 x.2.1.db b)

theorem records_failure (h : Tracks L.md5 s.db b) {error : Str} {es : List Effect} :
    Records L req b (.ok (failure error), s, es) := by
  rw [Records, recorded, succeeded_failure]
  exact h

theorem records_threw (h : Tracks L.md5 s.db b) {es : List Effect} :
    Records L req b (.error .threw, s, es) := h

/-- A statement, answered with whether it succeeded. -/
theorem records_updateMysql (h : Tracks L.md5 s.db b) (hm : w.mysql.Meant id) {op : AccountOp}
    (hop : req.op L = some op) {stmt : Stmt}
    (hstep : ∀ db₀ db', Tracks L.md5 db₀ b → stmt.meaning id db₀ = some db' →
      Tracks L.md5 db' (op.book (db'.nextUser - 1) b)) (es : List Effect) :
    Records L req b (run (sql (updateMysql w.mysql stmt) >>= fun ok => pure (answer ok)) (s, es)) := by
  rw [run_updateMysql_bind stmt fun _ => rfl, Records, ServerState.exec, recorded, succeeded_answer]
  cases he : w.mysql.exec stmt s.db with
  | none => exact h
  | some db' =>
    obtain ⟨db₀, hskips, hdb⟩ := hm.of_exec he
    rw [hop]
    exact hstep db₀ db' (h.congr hskips.user) hdb

theorem records_register (h : Tracks L.md5 s.db b) (hm : w.mysql.Meant id) (hp : req.path = .register) :
    Records L req b (run (handleRegister L w req) (s, [])) := by
  have hop : req.op L = some (.add (req.paramOrFile "username".toList) (req.paramOrFile "password".toList)) := by
    rw [Request.op, hp]
  refine records_updateMysql h hm hop (fun db₀ db' h hdb => ?_) []
  exact h.add hdb

theorem records_addUser (h : Tracks L.md5 s.db b) (hm : w.mysql.Meant id) (hp : req.path = .addUser) :
    Records L req b (run (handleAddUser L w req) (s, [])) := by
  rw [handleAddUser]
  refine of_ofExcept (fun parsed hv => ?_) (records_threw h)
  rcases parsed with ⟨_ | _, req_data⟩
  · exact records_failure h
  refine of_stringAt (fun username hu => ?_) fun _ _ => records_threw h
  refine of_stringAt (fun password hpw => ?_) fun _ _ => records_threw h
  refine of_stringAt (fun role _ => ?_) fun _ _ => records_threw h
  rw [run_find_bind]
  rcases s.sessions req.sessionId with _ | username2
  · exact records_failure h
  dsimp only
  rw [run_isAdmin_bind]
  split
  · have hop : req.op L = some (.add username password) := by
      simp only [Request.op, hp, Request.field_eq hv hu, Request.field_eq hv hpw]
      rfl
    refine records_updateMysql h hm hop (fun db₀ db' h hdb => ?_) []
    exact h.add hdb
  · exact records_failure h

theorem records_editUser (h : Tracks L.md5 s.db b) (hm : w.mysql.Meant id) (hp : req.path = .editUser) :
    Records L req b (run (handleEditUser L w req) (s, [])) := by
  rw [handleEditUser]
  refine of_ofExcept (fun parsed hv => ?_) (records_threw h)
  rcases parsed with ⟨_ | _, json_data⟩
  · exact records_failure h
  refine of_stringAt (fun number hn => ?_) fun _ _ => records_threw h
  refine of_stringAt (fun username hu => ?_) fun _ _ => records_threw h
  refine of_stringAt (fun password hpw => ?_) fun _ _ => records_threw h
  refine of_stringAt (fun role _ => ?_) fun _ _ => records_threw h
  rw [run_find_bind]
  rcases s.sessions req.sessionId with _ | username2
  · exact records_failure h
  dsimp only
  rw [run_isAdmin_bind]
  split
  · have hop : req.op L = some (.edit (atoi number) username password) := by
      simp only [Request.op, hp, Request.field_eq hv hn, Request.field_eq hv hu, Request.field_eq hv hpw]
      rfl
    refine records_updateMysql h hm hop (fun db₀ db' h hdb => ?_) []
    exact h.edit hdb
  · exact records_failure h

theorem records_deleteUser (h : Tracks L.md5 s.db b) (hm : w.mysql.Meant id) {userId : Digits}
    (hp : req.path = .deleteUser userId) :
    Records L req b (run (handleDeleteUser w req userId) (s, [])) := by
  rw [handleDeleteUser, run_find_bind]
  rcases s.sessions req.sessionId with _ | username
  · exact records_failure h
  dsimp only
  rw [run_isAdmin_bind]
  split
  · have hop : req.op L = some (.delete (idOf userId.val)) := by
      rw [Request.op, hp]
    refine records_updateMysql h hm hop (fun db₀ db' h hdb => ?_) []
    cases hdb
    exact h.delete _
  · exact records_failure h

/-- The handlers that ask nothing of the accounts. -/
def Path.OffAccounts : Path → Prop
  | register | addUser | editUser | deleteUser _ => False
  | _ => True

theorem op_of_off (hp : req.path.OffAccounts) : req.op L = none := by
  rw [Request.op]
  split
  all_goals first | rfl | (next he => rw [he] at hp; cases hp)

/-- They leave the users alone. -/
theorem Did.user_of_off {stmts : List Stmt} {s' : ServerState} (h : Did L w req s stmts s')
    (hm : w.mysql.Meant id) (hp : req.path.OffAccounts) : s'.db.user = s.db.user := by
  have of_meaning {stmt : Stmt} (hs : ∀ db₀ db', stmt.meaning id db₀ = some db' → db'.user = db₀.user) :
      (s.exec w.mysql stmt).db.user = s.db.user := by
    rw [ServerState.exec]
    rcases hm.exec_cases stmt s.db with e | ⟨db₀, hskips, hdb⟩
    · rw [e]
    · exact (hs _ _ hdb).trans hskips.user
  cases h with
  | nothing | login | logout => rfl
  | admin _ _ hs =>
    generalize req.path = path at hp hs
    cases hs with
    | editUser | deleteUser | addUser => cases hp
    | deleteQuestion =>
      refine of_meaning fun db₀ db' hdb => ?_
      cases hdb
      rfl
  | anyone hs =>
    generalize req.path = path at hp hs
    cases hs with
    | register => cases hp
    | updateQuestion | addQuestion =>
      refine of_meaning fun db₀ db' hdb => ?_
      cases hdb
      rfl
  | progress _ _ _ _ hx =>
    rw [ProgressCall.run_stmt] at hx
    subst hx
    refine of_meaning fun db₀ db' hdb => ?_
    rw [writtenBy] at hdb
    split at hdb
    · cases hdb
      rfl
    · obtain ⟨-, rfl⟩ := Db.of_insertProgress hdb
      rfl

/-- Whatever is requested, the users stay the accounts of the book. -/
theorem Tracks.serve (h : Tracks L.md5 s.db b) (hm : w.mysql.Meant id) :
    Records L req b (Server.serve L w req s) := by
  by_cases hp : req.path.OffAccounts
  · have hrec (result : Except Stop Reply) (db : Db) : recorded L req result db b = b := by
      cases result with
      | error => rfl
      | ok reply =>
        rw [recorded, op_of_off hp]
        exact ite_self b
    rw [Records, hrec]
    have hd : Did L w req s (sentBy (Server.serve L w req s).2.2) (Server.serve L w req s).2.1 := did
    exact h.congr (hd.user_of_off hm hp)
  · rw [Server.serve, handle]
    cases hpath : req.path with
    | register => exact records_register h hm hpath
    | addUser => exact records_addUser h hm hpath
    | editUser => exact records_editUser h hm hpath
    | deleteUser userId => exact records_deleteUser h hm hpath
    | _ => exact absurd (hpath ▸ trivial) hp

end

/-! ## Logins -/

section
variable {L : Library} {raw : Str → List UInt8} {db : Db} {b : Book}

/-- A step of the server, with the book. -/
def ledger (L : Library) (x : ServerState × Book) (e : Visit) : Option (ServerState × Book) :=
  (x.1.step L e).map fun s => (s, recorded L e.2 (serve L e.1 e.2 x.1).1 s.db x.2)

/-- The texts whose digests a login with this password compares. -/
def compared (db : Db) (b : Book) (password : Str) : Set Str :=
  {text | ∃ r ∈ db.user, text = password ++ r.salt ∨ ∃ a ∈ b, text = a.password ++ r.salt}

/-- Texts with the same digest are the same, and so are passwords with the same
salt. -/
theorem salted_inj (hmd5 : ∀ text, (L.md5 text).val = hexText (raw text)) {S : Set Str} (hinj : S.InjOn raw)
    {p q salt : Str} (hp : p ++ salt ∈ S) (hq : q ++ salt ∈ S)
    (h : generateSaltedMD5 L.md5 p salt = generateSaltedMD5 L.md5 q salt) : p = q := by
  rw [generateSaltedMD5, generateSaltedMD5, hmd5, hmd5] at h
  exact List.append_cancel_right (hinj hp hq (hexText_inj h))

theorem loggedIn_iff_account (hmd5 : ∀ text, (L.md5 text).val = hexText (raw text)) (hok : db.Ok id)
    (ht : Tracks L.md5 db b) {name password : Str} (hinj : (compared db b password).InjOn raw) :
    (∃ r, LoggedIn (.exact id) L.md5 name password db r) ↔
      ∃ a ∈ b, a.name = name ∧ a.password = password := by
  obtain ⟨hrows, haccounts⟩ := exists_of_forall₂ ht
  constructor
  · rintro ⟨r, rs, hr, hpw⟩
    obtain ⟨hmem, hname⟩ := (MySQL.exact_meant id).of_user hr
    obtain ⟨a, ha, hra⟩ := hrows r hmem
    refine ⟨a, ha, hra.name.symm.trans hname, ?_⟩
    exact salted_inj hmd5 hinj ⟨r, hmem, .inr ⟨a, ha, rfl⟩⟩ ⟨r, hmem, .inl rfl⟩ (hra.password.symm.trans hpw)
  · rintro ⟨a, ha, rfl, rfl⟩
    obtain ⟨r, hmem, hra⟩ := haccounts a ha
    refine ⟨r, [], ?_, hra.password⟩
    show some (rowsWith (UserRow.name id) a.name db.user) = some [r]
    rw [← hra.name]
    exact congrArg some (hok.usernames.rowsWith_eq hmem)

/-- After any requests `LoginUser` succeeds iff the book has an account with that
name and password, if MD5 has no collision among the texts it compares. -/
theorem login_iff (hmd5 : ∀ text, (L.md5 text).val = hexText (raw text)) (hok : db.Ok id)
    (ht : Tracks L.md5 db b) {es : List Visit} {s : ServerState} {b' : Book}
    (h : Run (ledger L) (fun _ e => e.1.mysql.Meant id) (.start db, b) es (s, b')) (name password : Str)
    (hinj : (compared s.db b' password).InjOn raw) (userId : Int) (stmts : List Stmt) :
    ((loginUser (.exact id) L.md5 userId name password).run (s.db, stmts)).1 = true ↔
      ∃ a ∈ b', a.name = name ∧ a.password = password := by
  have hinv : s.db.Ok id ∧ Tracks L.md5 s.db b' := by
    refine h.inv (I := fun x => x.1.db.Ok id ∧ Tracks L.md5 x.1.db x.2) ?_ ⟨hok, ht⟩
    rintro ⟨s, b⟩ e ⟨s', b'⟩ ⟨hok, ht⟩ hm hs
    obtain ⟨_, hstep, e'⟩ := Option.map_eq_some_iff.mp hs
    obtain ⟨rfl, rfl⟩ := Prod.mk.inj e'
    refine ⟨ServerState.ok_of_step hok hm hstep, ?_⟩
    rw [ServerState.eq_of_step hstep]
    exact ht.serve hm
  rw [run_loginUser, loggedIn_iff]
  exact loggedIn_iff_account hmd5 hinv.1 hinv.2 hinj

end

/-- The digests of `pw` and of `wp`. -/
def rawSample (text : Str) : List UInt8 :=
  if text = "pw".toList then
    [0x8f, 0xe4, 0xc1, 0x14, 0x51, 0x28, 0x1c, 0x09, 0x4a, 0x65, 0x78, 0xe6, 0xdd, 0xbf, 0x5e, 0xed]
  else [0xb6, 0xdd, 0xd8, 0x4a, 0x9c, 0xc6, 0x36, 0x25, 0x72, 0x58, 0x70, 0x1c, 0xa9, 0x34, 0xe7, 0x63]

def Library.hashing : Library :=
  { Library.sample with
    md5 := fun text => ⟨hexText (rawSample text), by rw [rawSample]; split <;> rfl⟩ }

/-- Where `pw` is the one password, it and `wp` are told apart by their digests. -/
theorem injOn_compared {db : Db} {b : Book} {userid : Int} {name password : Str}
    (hu : db.user = [⟨userid, name, hexText (rawSample "pw".toList), [], 0⟩])
    (hb : b = [⟨userid, name, "pw".toList⟩])
    (hp : password = "pw".toList ∨ password = "wp".toList) :
    (compared db b password).InjOn rawSample := by
  have hsub : compared db b password ⊆ {password, "pw".toList} := by
    rintro text ⟨r, hr, ht⟩
    rw [hu] at hr
    rw [hb] at ht
    rw [List.mem_singleton.mp hr] at ht
    simp only [List.append_nil, List.mem_singleton, exists_eq_left] at ht
    exact ht
  refine Set.InjOn.mono hsub ?_
  rcases hp with rfl | rfl
  · simp
  · intro x hx y hy
    rcases hx with rfl | rfl
    · rcases hy with rfl | rfl
      · exact fun _ => rfl
      · decide
    · rcases hy with rfl | rfl
      · decide
      · exact fun _ => rfl

/-- `bob` registers; then his password is the one that lets him in. -/
theorem login_iff_bob : ∃ s b, Run (ledger .hashing) (fun _ e => e.1.mysql.Meant id)
      (.start ⟨[], [], [], 1, 1, 1⟩, []) [(.k, .bob .register)] (s, b) ∧
    ((loginUser (.exact id) Library.hashing.md5 0 "bob".toList "pw".toList).run (s.db, [])).1 = true ∧
    ((loginUser (.exact id) Library.hashing.md5 0 "bob".toList "wp".toList).run (s.db, [])).1 ≠ true := by
  have hrun : (replay (ledger .hashing) Free (.start ⟨[], [], [], 1, 1, 1⟩, [])
      [(.k, .bob .register)]).map (fun x => (x.1.db.user, x.2)) =
      some ([⟨1, "bob".toList, hexText (rawSample "pw".toList), [], 0⟩],
        [⟨1, "bob".toList, "pw".toList⟩]) := by decide +kernel
  obtain ⟨⟨s, b⟩, hs, he⟩ := Option.map_eq_some_iff.mp hrun
  obtain ⟨hu, hb⟩ := Prod.mk.inj he
  dsimp only at hu hb
  have h : Run (ledger .hashing) (fun _ e => e.1.mysql.Meant id)
      (.start ⟨[], [], [], 1, 1, 1⟩, []) [(.k, .bob .register)] (s, b) := by
    refine (Run.of_replay hs).mono_mem fun e he _ _ => ?_
    rw [List.mem_singleton.mp he]
    exact MySQL.exact_meant id
  have hok : Db.Ok id ⟨[], [], [], 1, 1, 1⟩ :=
    ⟨by decide, by decide, by decide, by decide, by decide, by decide⟩
  have htracks : Tracks Library.hashing.md5 ⟨[], [], [], 1, 1, 1⟩ [] := .nil
  have hall (password : Str) (hp : password = "pw".toList ∨ password = "wp".toList) :=
    login_iff (show ∀ text, (Library.hashing.md5 text).val = hexText (rawSample text) from fun _ => rfl) hok
      htracks h "bob".toList password (injOn_compared hu hb hp) 0 []
  refine ⟨s, b, h, (hall _ (.inl rfl)).mpr ?_, fun hlogin => ?_⟩
  · rw [hb]
    exact ⟨_, List.mem_singleton_self _, rfl, rfl⟩
  · obtain ⟨a, ha, -, hpw⟩ := (hall _ (.inr rfl)).mp hlogin
    rw [hb] at ha
    rw [List.mem_singleton.mp ha] at hpw
    exact absurd hpw (by decide)

end OJ.Server
