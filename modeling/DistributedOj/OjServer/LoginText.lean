import DistributedOj.OjServer.SqlText
import DistributedOj.OjServer.Users

/-!
# Names in texts

The texts about an account are read with exactly its name, hash and salt, and a
login takes a row of that name, iff the three are plain (`quoted_iff`): nothing
escapes them. A name may close its literal and name the row of another
(`not_quoted`).
-/

namespace OJ.Server

open OJ.Comm OJ.Framework Lexer Table

/-- A text that is read as the `SELECT` of a user selects the rows with that name,
or fails. -/
def Mysqld.SelectsUsers (collate : Collation) (d : Mysqld) : Prop :=
  ∀ text username db, lex text = some (userTokens username) →
    OrError (d.users text db) (some (rowsWith (UserRow.name collate) (collate username) db.user))

/-- A statement's text is read as the statement, with exactly its values. -/
def Stmt.ReadBack (stmt : Stmt) : Prop := lex stmt.sql = some stmt.tokens

/-- Each text with a name, a hash and a salt is read with exactly these values, and
who logs in by the name has a row with it. -/
structure Quoted (username password salt : Str) : Prop where
  queryUser : lex (Select.user username).sql = some (userTokens username)
  addUser : (Stmt.addUser username password salt).ReadBack
  insertUserByAdmin : ∀ isAdmin, (Stmt.insertUserByAdmin username password salt isAdmin).ReadBack
  updateUserById : ∀ isAdmin userid,
    (Stmt.updateUserById username password salt isAdmin userid).ReadBack
  loginUser : ∀ (collate : Collation) (d : Mysqld), d.SelectsUsers collate →
    ∀ (md5 : Str → Digest) (id : Int) (given : Str) (s : Db × List Stmt),
      ((loginUser d.mysql md5 id username given).run s).1 = true →
        ∃ r ∈ s.1.user, r.name collate = collate username ∧
          r.password = generateSaltedMD5 md5 given r.salt

section
variable {username password salt : Str}

/-- A login by a name that is read as itself. -/
theorem exists_row_of_loginUser {collate : Collation} {d : Mysqld} (hd : d.SelectsUsers collate)
    (hname : Plain username) {md5 : Str → Digest} {id : Int} {given : Str} {s : Db × List Stmt}
    (h : ((loginUser d.mysql md5 id username given).run s).1 = true) :
    ∃ r ∈ s.1.user, r.name collate = collate username ∧
      r.password = generateSaltedMD5 md5 given r.salt := by
  rw [run_loginUser, loggedIn_iff] at h
  obtain ⟨r, rs, hr, hpw⟩ := h
  have hrow : r ∈ rowsWith (UserRow.name collate) (collate username) s.1.user := by
    rcases hd _ username s.1 (lex_user_iff.mpr hname) with e | e
    · cases hr.symm.trans e
    · rw [← Option.some.inj (hr.symm.trans e)]
      exact List.mem_cons_self
  obtain ⟨hmem, hn⟩ := mem_rowsWith.mp hrow
  exact ⟨r, hmem, hn, hpw⟩

/-- The texts are read as meant iff nothing in the values needs an escape. -/
theorem quoted_iff (username password salt : Str) :
    Quoted username password salt ↔ Plain username ∧ Plain password ∧ Plain salt := by
  have hadd : (Stmt.addUser username password salt).ReadBack ↔
      Plain username ∧ Plain password ∧ Plain salt := by
    rw [Stmt.ReadBack, Stmt.lex_sql_iff]
    simp [Stmt.items, Item.Plain]
  constructor
  · exact fun h => hadd.mp h.addUser
  · intro h
    refine ⟨lex_user_iff.mpr h.1, hadd.mpr h, fun isAdmin => ?_, fun isAdmin userid => ?_,
      fun _ _ hd _ _ _ _ hlogin => exists_row_of_loginUser hd h.1 hlogin⟩
    · rw [Stmt.ReadBack, Stmt.lex_sql_iff]
      simpa [Stmt.items, Item.Plain, number] using h
    · rw [Stmt.ReadBack, Stmt.lex_sql_iff]
      simpa [Stmt.items, Item.Plain, number, plain_toStringI] using h

end

/-! ## A name that names another -/

/-- The text of a column. -/
def UserRow.column (r : UserRow) (name : Str) : Str :=
  if name = "userid".toList then toStringI r.userid
  else if name = "username".toList then r.username
  else if name = "password".toList then r.password
  else if name = "salt".toList then r.salt
  else toStringI r.isAdmin

/-- A condition on columns, of which one must hold. -/
def UserRow.holds (r : UserRow) : List Token → Bool
  | [.word column, .char '=', .literal value] => r.column column = value
  | .word column :: .char '=' :: .literal value :: .word or :: rest =>
    or = "OR".toList && (r.column column = value || r.holds rest)
  | _ => false

/-- MySQL that selects users by what follows `SELECT * FROM user WHERE`. -/
def Mysqld.reading : Mysqld where
  exec _ _ := none
  users text db := (lex text).map fun toks => db.user.filter fun r => r.holds (toks.drop 5)
  questions _ _ := none
  progress _ _ := none

theorem reading_selectsUsers : Mysqld.reading.SelectsUsers id := by
  intro text username db h
  have hconst : tokensOf "SELECT * FROM user WHERE username = ".toList =
      [.word "SELECT".toList, .char '*', .word "FROM".toList, .word "user".toList, .word "WHERE".toList,
        .word "username".toList, .char '='] := by
    simp only [String.reduceToList]
    decide +kernel
  right
  show (lex text).map _ = _
  rw [h, Option.map_some, userTokens, hconst]
  rfl

/-- The administrator's row. -/
def Db.rooted : Db := ⟨[⟨1, "root".toList, List.replicate 32 'a', "5eed".toList, 1⟩], [], [], 2, 1, 1⟩

/-- Who gives this name logs in as the first user, whatever that one is called. -/
theorem not_quoted : ¬ Quoted "x' OR userid='1".toList (List.replicate 32 'a') "5eed".toList := by
  intro h
  have hlogin : ((loginUser Mysqld.reading.mysql (fun _ => ⟨List.replicate 32 'a', by decide⟩) 0
      "x' OR userid='1".toList "guess".toList).run (Db.rooted, [])).1 = true := by
    rw [run_loginUser, loggedIn_iff]
    exact ⟨⟨1, "root".toList, List.replicate 32 'a', "5eed".toList, 1⟩, [], by decide +kernel, rfl⟩
  obtain ⟨r, hr, hn, -⟩ := h.loginUser id .reading reading_selectsUsers _ 0 _ _ hlogin
  rw [List.mem_singleton.mp hr] at hn
  exact absurd hn (by decide)

end OJ.Server
