import DistributedOj.OjServer.Database

/-!
# Accounts

`UserModel` and `UserControl`. A `SELECT` of a user that finds no row is a
success that leaves `*u` as it was (`User.of`); so the checks rest on a new
`User` being no administrator and having no password, which is the digest of
none (`loggedIn_iff`, `admin_iff`).
-/

namespace OJ.Server

open OJ.Comm OJ.Framework Table

/-- `User`. -/
structure User where
  id : Int
  name : Str
  password : Str
  salt : Str
  isAdmin : Int
  deriving DecidableEq, Repr

/-- `User()`, in which nothing sets `id`. -/
def User.new (id : Int) : User := ⟨id, [], [], [], 0⟩

/-- A row as `QueryMysql` reads it. -/
def UserRow.read (r : UserRow) : User := ⟨r.userid, r.username, r.password, r.salt, r.isAdmin⟩

/-- What `QueryMysql` makes of an answer: whether it succeeds, and `*u`. -/
def User.of (u : User) : Option (List UserRow) → Bool × User
  | some (r :: _) => (true, r.read)
  | some [] => (true, u)
  | none => (false, u)

/-- What `generateMD5` makes: 32 hexadecimal digits. -/
abbrev Digest := {text : Str // text.length = 32}

section
variable (m : MySQL)

def queryUser (username : Str) (u : User) : Sql (Bool × User) := return u.of (← query (m.user username))

def queryUserById (userId : Str) (u : User) : Sql (Bool × User) :=
  return u.of (← query (m.userById userId))

/-- `GetAllUsers`, the last one created first. -/
def getAllUsers : Sql (Option (List User)) := return (← query m.allUsers).map (·.map UserRow.read)

def addUser (u : User) : Sql Bool := updateMysql m (.addUser u.name u.password u.salt)

def insertUserByAdmin (u : User) : Sql Bool :=
  updateMysql m (.insertUserByAdmin u.name u.password u.salt u.isAdmin)

def updateUserById (u : User) : Sql Bool :=
  updateMysql m (.updateUserById u.name u.password u.salt u.isAdmin u.id)

def deleteUserById (userId : Str) : Sql Bool := updateMysql m (.deleteUserById userId)

variable (md5 : Str → Digest)

def generateSaltedMD5 (password salt : Str) : Str := (md5 (password ++ salt)).val

/-- `isAdmin == "true"`. -/
def roleOf (isAdmin : Str) : Int := if isAdmin = "true".toList then 1 else 0

def editUser (salt number username password isAdmin : Str) : Sql Bool :=
  updateUserById m ⟨atoi number, username, generateSaltedMD5 md5 password salt, salt, roleOf isAdmin⟩

def getUserInfo (username : Str) (user : User) : Sql (Bool × User) := queryUser m username user

/-- `IsAdmin`, with `id` in its new `User`. -/
def isAdmin (id : Int) (username : Str) : Sql Bool := do
  let (ok, user) ← getUserInfo m username (.new id)
  return ok && user.isAdmin != 0

def loginUser (id : Int) (name password : Str) : Sql Bool := do
  let (isExisted, user) ← queryUser m name (.new id)
  return isExisted && user.password == generateSaltedMD5 md5 password user.salt

end

section
variable {m : MySQL} {md5 : Str → Digest}

theorem run_queryUser (username : Str) (u : User) (s : Db × List Stmt) :
    (queryUser m username u).run s = (u.of (m.user username s.1), s) := (rfl)

theorem run_queryUserById (userId : Str) (u : User) (s : Db × List Stmt) :
    (queryUserById m userId u).run s = (u.of (m.userById userId s.1), s) := (rfl)

theorem run_getAllUsers (s : Db × List Stmt) :
    (getAllUsers m).run s = ((m.allUsers s.1).map (·.map UserRow.read), s) := (rfl)

/-- The user of that name, in the first row of the answer, is an administrator. -/
def AdminIn (m : MySQL) (username : Str) (db : Db) : Prop :=
  ∃ r rs, m.user username db = some (r :: rs) ∧ r.isAdmin ≠ 0

/-- The first row of the answer has the password. -/
def LoggedIn (m : MySQL) (md5 : Str → Digest) (name password : Str) (db : Db) (r : UserRow) : Prop :=
  ∃ rs, m.user name db = some (r :: rs) ∧ r.password = generateSaltedMD5 md5 password r.salt

theorem run_isAdmin (id : Int) (username : Str) (s : Db × List Stmt) :
    (isAdmin m id username).run s =
      (((User.new id).of (m.user username s.1)).1 &&
        ((User.new id).of (m.user username s.1)).2.isAdmin != 0, s) := (rfl)

/-- An answer without rows makes no administrator. -/
theorem admin_iff {id : Int} {username : Str} {db : Db} :
    (((User.new id).of (m.user username db)).1 &&
      ((User.new id).of (m.user username db)).2.isAdmin != 0) = true ↔ AdminIn m username db := by
  rcases h : m.user username db with _ | _ | ⟨r, rs⟩
  · simp [User.of, AdminIn, h]
  · simp [User.of, User.new, AdminIn, h]
  · simp [User.of, UserRow.read, AdminIn, h]

theorem run_loginUser (id : Int) (name password : Str) (s : Db × List Stmt) :
    (loginUser m md5 id name password).run s =
      (((User.new id).of (m.user name s.1)).1 &&
        ((User.new id).of (m.user name s.1)).2.password ==
          generateSaltedMD5 md5 password ((User.new id).of (m.user name s.1)).2.salt, s) := (rfl)

/-- An answer without rows lets no one log in: no digest is empty. -/
theorem loggedIn_iff {id : Int} {name password : Str} {db : Db} :
    (((User.new id).of (m.user name db)).1 &&
      ((User.new id).of (m.user name db)).2.password ==
        generateSaltedMD5 md5 password ((User.new id).of (m.user name db)).2.salt) = true ↔
      ∃ r, LoggedIn m md5 name password db r := by
  rcases h : m.user name db with _ | _ | ⟨r, rs⟩
  · simp [User.of, LoggedIn, h]
  · have hne : generateSaltedMD5 md5 password [] ≠ [] := fun e => by
      have := (md5 (password ++ [])).property
      rw [show (md5 (password ++ [])).val = [] from e] at this
      cases this
    simpa [User.of, User.new, LoggedIn, h] using hne.symm
  · simp [User.of, UserRow.read, LoggedIn, h]

end

end OJ.Server
