import DistributedOj.Framework.Dispatch
import DistributedOj.OjServer.Requests

/-!
# Routes

`main` registers a handler for a method and a pattern: a text, or a text with
`(\d+)` after it. httplib gives a request that it can read to the first handler
whose pattern matches its path, after a `GET` has been looked for among the files of
`./wwwroot` and the content of a `POST` or a `DELETE` has been read. No two patterns
match the same path, so a handler gets such a request iff the path is its own, with
these very digits (`processRequest_iff`).
-/

namespace OJ.Server

open OJ.Comm OJ.Framework

/-! ## What is registered -/

/-- A pattern and the handler that it is registered for. -/
inductive Handler where
  | plain (text : String) (path : Path)
  | numbered (text : String) (path : Digits → Path)

/-- The text that a path has to begin with. -/
def Handler.stem : Handler → Str
  | plain text _ => text.toList
  | numbered text _ => text.toList

/-- `std::regex_match`, with what is matched. -/
def Handler.regexMatch : Handler → Str → Option Path
  | plain text path, url => if url = text.toList then some path else none
  | numbered text path, url =>
    let digits := url.drop text.toList.length
    if h : text.toList <+: url ∧ digits ≠ [] ∧ digits.all Char.isDigit then some (path ⟨digits, h.2⟩) else none

/-- The handler takes the path, for this. -/
def Handler.Takes : Handler → Str → Path → Prop
  | plain text p, url, path => url = text.toList ∧ p = path
  | numbered text p, url, path => ∃ digits : Digits, url = text.toList ++ digits.val ∧ p digits = path

def getHandlers : List Handler := [
  .plain "/getUserInfo" .getUserInfo,
  .plain "/check_login" .check_login,
  .numbered "/getUserProgress/" .getUserProgress,
  .plain "/all_users" .all_users,
  .plain "/all_questions" .all_questions,
  .numbered "/user/" .user,
  .numbered "/question/" .question]

def postHandlers : List Handler := [
  .plain "/editUser" .editUser,
  .plain "/addUser" .addUser,
  .plain "/register" .register,
  .plain "/login" .login,
  .plain "/logout" .logout,
  .plain "/updateQuestion" .updateQuestion,
  .plain "/addQuestion" .addQuestion,
  .numbered "/setCompleted/" .setCompleted,
  .numbered "/judge/" .judge]

def deleteHandlers : List Handler := [
  .numbered "/deleteUser/" .deleteUser,
  .numbered "/deleteQuestion/" .deleteQuestion]

/-! ## Routing -/

inductive Method where
  | get
  | head
  | post
  | put
  | delete
  | options
  | patch
  | pri
  | other
  deriving DecidableEq

def Method.handlers : Method → List Handler
  | get | head => getHandlers
  | post => postHandlers
  | delete => deleteHandlers
  | put | options | patch | pri | other => []

/-- `expect_content`. -/
def Method.expectContent : Method → Bool
  | post | put | patch | pri | delete => true
  | get | head | options | other => false

/-- The method whose handlers a request is given to. -/
def Method.listed : Method → Method
  | head => get
  | m => m

/-- A request that comes in: its descriptor and the size of its first line; whether
that line and the headers, and a range in these, can be parsed; and the status for
content that cannot be read. -/
structure Incoming where
  socket : Nat
  line : Nat
  parsed : Bool
  ranges : Bool
  method : Method
  url : Str
  content : Option Nat

/-- What answers a request. -/
inductive Routed where
  | file
  | handler (path : Path)
  | status (status : Nat)
  deriving DecidableEq

section
variable (handlers : Method → List Handler) (isFile : Str → Bool) (req : Incoming)

/-- `dispatch_request`, and status 404 if no pattern matches. -/
def dispatchRequest : Routed :=
  match dispatch Handler.regexMatch (handlers req.method) req.url with
  | some path => .handler path
  | none => .status (if req.method = .pri ∨ req.method = .other then 400 else 404)

/-- `Server::routing`, with the handlers of each method and what is a file below
`./wwwroot`. -/
def routing : Routed :=
  if (req.method = .get ∨ req.method = .head) ∧ isFile req.url then .file
  else if req.method.expectContent then
    match req.content with
    | some status => .status status
    | none => dispatchRequest handlers req
  else dispatchRequest handlers req

/-- `FD_SETSIZE`. -/
def FD_SETSIZE : Nat := 1024

/-- `CPPHTTPLIB_REQUEST_URI_MAX_LENGTH`. -/
def REQUEST_URI_MAX_LENGTH : Nat := 8192

/-- `Server::process_request`, up to the answer. -/
def processRequest : Routed :=
  if FD_SETSIZE ≤ req.socket then .status 500
  else if REQUEST_URI_MAX_LENGTH < req.line then .status 414
  else if !req.parsed then .status 400
  else if !req.ranges then .status 416
  else routing handlers isFile req

end

/-- httplib can read the request. -/
structure Incoming.Readable (req : Incoming) : Prop where
  socket : req.socket < FD_SETSIZE
  line : req.line ≤ REQUEST_URI_MAX_LENGTH
  parsed : req.parsed = true
  ranges : req.ranges = true
  content : req.method.expectContent = true → req.content = none

/-- The path of a request to a handler, and its method. -/
def Path.target : Path → Method × Str
  | editUser => (.post, "/editUser".toList)
  | deleteUser userId => (.delete, "/deleteUser/".toList ++ userId.val)
  | addUser => (.post, "/addUser".toList)
  | getUserInfo => (.get, "/getUserInfo".toList)
  | register => (.post, "/register".toList)
  | login => (.post, "/login".toList)
  | check_login => (.get, "/check_login".toList)
  | logout => (.post, "/logout".toList)
  | updateQuestion => (.post, "/updateQuestion".toList)
  | addQuestion => (.post, "/addQuestion".toList)
  | deleteQuestion number => (.delete, "/deleteQuestion/".toList ++ number.val)
  | setCompleted number => (.post, "/setCompleted/".toList ++ number.val)
  | getUserProgress number => (.get, "/getUserProgress/".toList ++ number.val)
  | all_users => (.get, "/all_users".toList)
  | all_questions => (.get, "/all_questions".toList)
  | user id => (.get, "/user/".toList ++ id.val)
  | question number => (.get, "/question/".toList ++ number.val)
  | judge number => (.post, "/judge/".toList ++ number.val)

/-! ## No two patterns match the same -/

section
variable {h h' : Handler} {url : Str} {path : Path}

theorem Handler.regexMatch_eq_some : h.regexMatch url = some path ↔ h.Takes url path := by
  cases h with
  | plain text p => simp [regexMatch, Takes]
  | numbered text p =>
    simp only [regexMatch, Takes, Option.dite_none_right_eq_some, Option.some_inj]
    constructor
    · rintro ⟨⟨hpre, hdigits⟩, hp⟩
      exact ⟨_, List.prefix_iff_eq_append.mp hpre |>.symm, hp⟩
    · rintro ⟨digits, rfl, hp⟩
      have hdrop : (text.toList ++ digits.val).drop text.toList.length = digits.val := List.drop_left
      refine ⟨⟨List.prefix_append _ _, by rw [hdrop]; exact digits.property⟩, ?_⟩
      rw [← hp]
      exact congrArg p (Subtype.ext hdrop)

/-- A path that is matched begins with the stem. -/
theorem Handler.stem_of_match (hm : h.regexMatch url = some path) : h.stem <+: url := by
  rw [regexMatch_eq_some] at hm
  cases h with
  | plain text p => exact hm.1 ▸ List.prefix_rfl
  | numbered text p =>
    obtain ⟨digits, rfl, -⟩ := hm
    exact List.prefix_append _ _

/-- Neither stem begins with the other. -/
def Handler.Fork (h h' : Handler) : Prop := ¬ h.stem <+: h'.stem ∧ ¬ h'.stem <+: h.stem

instance (h h' : Handler) : Decidable (h.Fork h') := inferInstanceAs (Decidable (_ ∧ _))

theorem Handler.Fork.apart (hf : h.Fork h') : Apart Handler.regexMatch h h' := fun url => by
  by_contra hne
  obtain ⟨h₁, h₂⟩ := not_or.mp hne
  obtain ⟨path, h₁⟩ := Option.ne_none_iff_exists'.mp h₁
  obtain ⟨path', h₂⟩ := Option.ne_none_iff_exists'.mp h₂
  rcases List.prefix_or_prefix_of_prefix (stem_of_match h₁) (stem_of_match h₂) with hp | hp
  · exact hf.1 hp
  · exact hf.2 hp

end

theorem Method.apart (m : Method) : m.handlers.Pairwise (Apart Handler.regexMatch) := by
  have hfork : m.handlers.Pairwise Handler.Fork := by cases m <;> decide +kernel
  exact hfork.imp fun h => h.apart

/-- What the handler takes are the paths of its own requests. -/
def Handler.Owns (m : Method) : Handler → Prop
  | plain text path => path.target = (m, text.toList)
  | numbered text path => ∀ digits, (path digits).target = (m, text.toList ++ digits.val)

theorem Method.owns : ∀ (m : Method), ∀ h ∈ m.handlers, h.Owns m.listed
  | get | head => by
    simp only [handlers, getHandlers, List.forall_mem_cons, List.not_mem_nil]
    exact ⟨rfl, rfl, fun _ => rfl, rfl, rfl, fun _ => rfl, fun _ => rfl, fun _ h => h.elim⟩
  | post => by
    simp only [handlers, postHandlers, List.forall_mem_cons, List.not_mem_nil]
    exact ⟨rfl, rfl, rfl, rfl, rfl, rfl, rfl, fun _ => rfl, fun _ => rfl, fun _ h => h.elim⟩
  | delete => by
    simp only [handlers, deleteHandlers, List.forall_mem_cons, List.not_mem_nil]
    exact ⟨fun _ => rfl, fun _ => rfl, fun _ h => h.elim⟩
  | put | options | patch | pri | other => fun _ h => by cases h

theorem target_of_takes {m : Method} {h : Handler} {url : Str} {path : Path} (hh : h ∈ m.handlers)
    (ht : h.Takes url path) : path.target = (m.listed, url) := by
  have howns := m.owns h hh
  cases h with
  | plain text p =>
    obtain ⟨rfl, rfl⟩ := ht
    exact howns
  | numbered text p =>
    obtain ⟨digits, rfl, rfl⟩ := ht
    exact howns digits

/-- Each path is taken by a handler of its method. -/
theorem exists_takes (path : Path) : ∃ h ∈ path.target.1.handlers, h.Takes path.target.2 path := by
  have plain {text : String} {l : List Handler} (hmem : .plain text path ∈ l) :
      ∃ h ∈ l, h.Takes text.toList path := ⟨.plain text path, hmem, rfl, rfl⟩
  have numbered {text : String} {p : Digits → Path} {l : List Handler} (hmem : .numbered text p ∈ l)
      (digits : Digits) : ∃ h ∈ l, h.Takes (text.toList ++ digits.val) (p digits) :=
    ⟨.numbered text p, hmem, digits, rfl, rfl⟩
  cases path with
  | editUser | addUser | register | login | logout | updateQuestion | addQuestion =>
    exact plain (l := postHandlers) (by simp [postHandlers])
  | getUserInfo | check_login | all_users | all_questions =>
    exact plain (l := getHandlers) (by simp [getHandlers])
  | setCompleted digits | judge digits =>
    exact numbered (l := postHandlers) (by simp [postHandlers]) digits
  | getUserProgress digits | user digits | question digits =>
    exact numbered (l := getHandlers) (by simp [getHandlers]) digits
  | deleteUser digits | deleteQuestion digits =>
    exact numbered (l := deleteHandlers) (by simp [deleteHandlers]) digits

/-- The handlers of a method, in any order. -/
theorem dispatch_iff {handlers : Method → List Handler} (hperm : ∀ m : Method, m.handlers.Perm (handlers m))
    (method : Method) (url : Str) (path : Path) :
    dispatch Handler.regexMatch (handlers method) url = some path ↔ path.target = (method.listed, url) := by
  rw [dispatch_perm method.apart (hperm method), dispatch_eq_some_iff method.apart]
  constructor
  · rintro ⟨h, hh, hm⟩
    exact target_of_takes hh (Handler.regexMatch_eq_some.mp hm)
  · intro htarget
    obtain ⟨h, hh, ht⟩ := exists_takes path
    rw [htarget] at hh ht
    refine ⟨h, ?_, Handler.regexMatch_eq_some.mpr ht⟩
    cases method with
    | _ => exact hh

section
variable {handlers : Method → List Handler} {isFile : Str → Bool} {req : Incoming} {path : Path}

theorem dispatchRequest_eq_handler : dispatchRequest handlers req = .handler path ↔
    dispatch Handler.regexMatch (handlers req.method) req.url = some path := by
  rw [dispatchRequest]
  cases dispatch Handler.regexMatch (handlers req.method) req.url with
  | some path' => simp
  | none => simp

theorem routing_eq_handler : routing handlers isFile req = .handler path ↔
    dispatch Handler.regexMatch (handlers req.method) req.url = some path ∧
      ¬ ((req.method = .get ∨ req.method = .head) ∧ isFile req.url = true) ∧
      (req.method.expectContent = true → req.content = none) := by
  rw [routing, ← dispatchRequest_eq_handler]
  split
  · next hfile => simp [hfile]
  · next hfile =>
    split
    · next hexpect =>
      cases hcontent : req.content with
      | some status => simp [hexpect]
      | none => simp [hfile]
    · next hexpect => simp [hfile, hexpect]

theorem processRequest_eq_handler : processRequest handlers isFile req = .handler path ↔
    (req.socket < FD_SETSIZE ∧ req.line ≤ REQUEST_URI_MAX_LENGTH ∧ req.parsed = true ∧ req.ranges = true) ∧
      routing handlers isFile req = .handler path := by
  rw [processRequest]
  split
  · next h => simp [Nat.not_lt.mpr h]
  · next hsocket =>
    split
    · next h => simp [Nat.not_le.mpr h]
    · next hline =>
      cases hparsed : req.parsed with
      | false => simp
      | true =>
        cases hranges : req.ranges with
        | false => simp
        | true => simp [Nat.lt_of_not_le hsocket, Nat.le_of_not_lt hline]

end

/-- A handler gets a request that can be read iff its path is the handler's own,
with these very digits, and it is no `GET` of a file, whatever order the handlers
were registered in; and it gets no other. -/
theorem processRequest_iff {handlers : Method → List Handler}
    (hperm : ∀ m : Method, m.handlers.Perm (handlers m)) (isFile : Str → Bool) (req : Incoming) (path : Path) :
    processRequest handlers isFile req = .handler path ↔
      path.target = (req.method.listed, req.url) ∧
        ¬ ((req.method = .get ∨ req.method = .head) ∧ isFile req.url = true) ∧ req.Readable := by
  rw [processRequest_eq_handler, routing_eq_handler, dispatch_iff hperm]
  constructor
  · rintro ⟨⟨hsocket, hline, hparsed, hranges⟩, htarget, hfile, hcontent⟩
    exact ⟨htarget, hfile, hsocket, hline, hparsed, hranges, hcontent⟩
  · rintro ⟨htarget, hfile, hread⟩
    exact ⟨⟨hread.socket, hread.line, hread.parsed, hread.ranges⟩, htarget, hfile, hread.content⟩

/-- With the handlers the other way round: a `HEAD` goes where the `GET` would, and
a `POST` whose content cannot be read goes nowhere. -/
theorem processRequest_iff_reversed :
    processRequest (fun m => m.handlers.reverse) (fun _ => false)
        ⟨5, 27, true, true, .head, "/question/7".toList, none⟩ = .handler (.question Submitted.number) ∧
      processRequest (fun m => m.handlers.reverse) (fun _ => false)
        ⟨5, 24, true, true, .post, "/judge/7".toList, some 413⟩ ≠ .handler (.judge Submitted.number) := by
  have hiff := @processRequest_iff (fun m => m.handlers.reverse) fun m => (List.reverse_perm _).symm
  refine ⟨(hiff _ _ _).mpr ⟨rfl, by simp, by decide, by decide, rfl, rfl, nofun⟩, fun h => ?_⟩
  obtain ⟨-, -, hread⟩ := (hiff _ _ _).mp h
  cases hread.content rfl

end OJ.Server
