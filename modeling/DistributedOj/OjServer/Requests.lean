import DistributedOj.OjServer.Payload

/-!
# Requests

What the handlers of `oj_server.cc` read of an HTTP request: which handler it
is for, with what `(\d+)` matches in its path, its `Cookie` header, its
parameters and its body. `SessionUtil` reads a session id off the header and
makes new ones of 32 letters and digits, which are never empty.
-/

namespace OJ.Server

open OJ.Comm

/-- The handlers, with what is matched in the path. -/
inductive Path where
  | editUser
  | deleteUser (userId : Digits)
  | addUser
  | getUserInfo
  | register
  | login
  | check_login
  | logout
  | updateQuestion
  | addQuestion
  | deleteQuestion (number : Digits)
  | setCompleted (number : Digits)
  | getUserProgress (number : Digits)
  | all_users
  | all_questions
  | user (id : Digits)
  | question (number : Digits)
  | judge (number : Digits)
  deriving DecidableEq

/-- `httplib::Request`, as far as the handlers read it: an absent header is
empty, and of a parameter or a file only the first of its name is read. -/
structure Request where
  path : Path
  cookie : Str
  params : List (Str × Str)
  files : List (Str × Str)
  body : Str

namespace Request

/-- The parameter, or the uploaded file, of a name. -/
def paramOrFile (req : Request) (name : Str) : Str :=
  (req.params.lookup name).getD ((req.files.lookup name).getD [])

/-- The parameter of a name. -/
def param (req : Request) (name : Str) : Str := (req.params.lookup name).getD []

/-- The value of one part of a `Cookie` header, if it has that name. -/
def cookiePart (cookieName : Str) (cookie : Str) : Option Str :=
  let cookie := cookie.dropWhile (· == ' ')
  if '=' ∈ cookie ∧ cookie.takeWhile (· != '=') = cookieName then
    some (cookie.dropWhile (· != '=')).tail
  else none

/-- `SessionUtil::get_cookie_value`. -/
def getCookieValue (req : Request) (cookieName : Str) : Str :=
  ((getlineDelim ';' req.cookie).findSome? (cookiePart cookieName)).getD []

def sessionId (req : Request) : Str := req.getCookieValue "session_id".toList

end Request

/-- What `generate_alpha_numeric_session_id(32)` makes. -/
abbrev SessionId := {text : Str // text.length = 32 ∧ text.all Char.isAlphanum}

theorem SessionId.ne_nil (id : SessionId) : id.val ≠ [] := fun e => by
  have := id.property.1
  rw [e] at this
  cases this

/-- A text in which the cookie is not named is no session id. -/
example : (⟨.logout, "a=b; session_id=k7".toList, [], [], []⟩ : Request).sessionId = "k7".toList := by
  decide

end OJ.Server
