import DistributedOj.Comm.Json
import DistributedOj.OjServer.Database
import DistributedOj.OjServer.Judge
import DistributedOj.OjServer.BadStatus

/-!
# What `Judge` posts

`Control::Judge` up to its loop: the question from the database and the code
from the request make the text that every POST of the call carries
(`compileString`, `posts_iff`). Whether the question could be read is not
looked at.
-/

namespace OJ.Server

open OJ.Comm OJ.Framework Table

/-- `Question`. -/
structure Question where
  number : Str
  title : Str
  star : Str
  cpuLimit : Int
  memLimit : Int
  desc : Str
  header : Str
  tail : Str
  deriving DecidableEq, Repr

/-- `Question()`. -/
def Question.new : Question := ⟨[], [], [], 0, 0, [], [], []⟩

/-- A row as `QueryMysql` reads it. -/
def QuestionRow.read (r : QuestionRow) : Question :=
  ⟨toStringI r.id, r.title, r.star, r.timeLimit, r.memLimit, r.questionDesc, r.header, r.tail⟩

/-- What matches `(\d+)` in a path. -/
abbrev Digits := {text : Str // text ≠ [] ∧ text.all Char.isDigit}

section
variable (J : JsonReader) (write : Json → Str) (m : MySQL) (db : Db)

/-- `GetOneQuestion`: whether it succeeds, and `*q`. -/
def getOneQuestion (number : Str) (q : Question) : Bool × Question :=
  match m.question number db with
  | some [row] => (true, row.read)
  | _ => (false, q)

/-- The code and the input of a request. -/
def requestTexts (inJson : Str) : Except JsonException (Str × Str) := do
  let (_, in_value) ← J.parse inJson
  let code ← J.asString (← J.index in_value "code".toList)
  let input ← J.asString (← J.index in_value "input".toList)
  return (code, input)

/-- `compile_value`, its members in the order of their names. -/
def compileValue (q : Question) (code input : Str) : Json :=
  .obj [("code".toList, .str (code ++ "\n".toList ++ q.tail)), ("cpu_limit".toList, .int q.cpuLimit),
    ("input".toList, .str input), ("mem_limit".toList, .int q.memLimit)]

/-- `Judge` up to its loop: `compile_string`, or the exception that leaves it. -/
def compileString (number inJson : Str) : Except JsonException Str := do
  let q := (getOneQuestion m db number .new).2
  let (code, input) ← requestTexts J inJson
  return write (compileValue q code input)

end

/-! ## The POSTs of a call -/

/-- In some run, among any other calls, a call of `Judge` that gets to its loop
with this text posts `body`. -/
def Posts (compileString : Except JsonException Str) (body : Str) : Prop :=
  ∃ text lb reqs t es s m res, compileString = .ok text ∧ reqs[t]? = some text ∧
    Run Sys.step Free (.start lb reqs) es s ∧ .call t (.post m body res) ∈ es

theorem CallStep.compileString {t : Nat} {lb lb' : LoadBalance} {c c' : Call} {a : Act}
    (h : CallStep t lb c a lb' c') : c'.compileString = c.compileString ∧
      ∀ m body res, a = .post m body res → body = c.compileString := by
  cases h with
  | postOk | postBad | postLost =>
    refine ⟨rfl, fun m body res e => ?_⟩
    cases e
    rfl
  | _ => exact ⟨rfl, fun m body res e => by cases e⟩

/-- A call posts its own text. -/
theorem Sys.post_eq {lb : LoadBalance} {reqs : List Str} {es : List Event} {s : Sys}
    (h : Run Sys.step Free (.start lb reqs) es s) {t m : Nat} {body : Str} {res : Option Response}
    (hp : .call t (.post m body res) ∈ es) : reqs[t]? = some body := by
  let I (es : List Event) (s : Sys) : Prop := s.calls.map Call.compileString = reqs ∧
    ∀ t m body res, .call t (.post m body res) ∈ es → reqs[t]? = some body
  have hI : I es s := by
    refine h.inv_trace (I := I) ?_ ⟨by simp [Sys.start, Function.comp_def], by simp⟩
    rintro es s e s' ⟨hc, hes⟩ - hs
    rcases Sys.step_cases hs with ⟨u, a, c, lb', c', rfl, hcu, hstep, rfl⟩ | ⟨u, rfl, -, rfl⟩
    · obtain ⟨hkeep, hbody⟩ := hstep.compileString
      refine ⟨(map_set_of_eq hcu hkeep).trans hc, fun t m body res hp => ?_⟩
      rcases List.mem_append.mp hp with hp | hp
      · exact hes t m body res hp
      · cases List.mem_singleton.mp hp
        rw [hbody m body res rfl, ← hc, List.getElem?_map, hcu]
        rfl
    · refine ⟨hc, fun t m body res hp => ?_⟩
      rcases List.mem_append.mp hp with hp | hp
      · exact hes t m body res hp
      · cases List.mem_singleton.mp hp
  exact hI.2 t m body res hp

/-- A call with a machine online can post. -/
theorem Sys.exists_post (text : Str) : ∃ es s m body res,
    Run Sys.step Free (.start LoadBalance.oneMachine [text]) es s ∧
      Event.call 0 (.post m body res) ∈ es := by
  have ready : (Sys.start LoadBalance.oneMachine [text]).Ready 0 0 :=
    ⟨LoadBalance.listed_new.loadConf _, rfl, show (0 : Int) ∈ LoadBalance.oneMachine.online by decide,
      _, rfl, rfl⟩
  obtain ⟨es, s, h, hp, -⟩ := Ready.again (o := fun _ => .badStatus) ready rfl
  have hmem : 0 ∈ posts 0 es := by rw [hp]; exact List.mem_singleton_self 0
  obtain ⟨e, he, ht⟩ := List.mem_filterMap.mp hmem
  unfold Event.target at ht
  split at ht
  case h_1 u k body res =>
    split at ht
    · next hu =>
      subst hu
      exact ⟨es, s, k, body, res, h.mono fun _ _ _ => trivial, he⟩
    · cases ht
  case h_2 => cases ht

/-- Every POST of a call carries its text, and one is made in some run. -/
theorem posts_iff {compileString : Except JsonException Str} {body : Str} :
    Posts compileString body ↔ compileString = .ok body := by
  constructor
  · rintro ⟨text, lb, reqs, t, es, s, m, res, rfl, ht, h, hp⟩
    rw [Sys.post_eq h hp] at ht
    rw [Option.some.inj ht]
  · rintro rfl
    obtain ⟨es, s, m, text, res, h, hp⟩ := Sys.exists_post body
    obtain rfl : body = text := Option.some.inj (Sys.post_eq h hp)
    exact ⟨body, _, _, 0, es, s, m, res, rfl, rfl, h, hp⟩

/-! ## What is posted -/

/-- A text carries the code with a tail after it, and the limits of a question. -/
def Carries (J : JsonReader) (body code : Str) (q : QuestionRow) : Prop :=
  ∃ v, J.parse body = .ok (true, v) ∧
    v.index "code".toList = .ok (.str (code ++ "\n".toList ++ q.tail)) ∧
    v.index "cpu_limit".toList = .ok (.int q.timeLimit) ∧
    v.index "mem_limit".toList = .ok (.int q.memLimit)

theorem carries_compileValue {J : JsonReader} {write : Json → Str} {code input : Str} (q : QuestionRow)
    (hrt : J.parse (write (compileValue q.read code input)) = .ok (true, compileValue q.read code input)) :
    Carries J (write (compileValue q.read code input)) code q :=
  ⟨_, hrt, rfl, rfl, rfl⟩

section
variable (J : JsonReader) (write : Json → Str) (m : MySQL) (db : Db) (number : Digits) (inJson : Str)

/-- Whatever a call posts carries the user's code and the question with that
number, which could be read. -/
def Faithful : Prop := ∀ body, Posts (compileString J write m db number inJson) body →
  ∃ code input q, requestTexts J inJson = .ok (code, input) ∧ m.question number db = some [q] ∧
    q ∈ db.questions ∧ some q.id = idOf number ∧ Carries J body code q

variable {J write m db number inJson}

theorem getOneQuestion_of_read {q : QuestionRow} (h : m.question number db = some [q]) :
    getOneQuestion m db number .new = (true, q.read) := by
  rw [getOneQuestion, h]

end

/-! A question with number 7, a request with a code, and the texts that
jsoncpp makes and reads of them. -/

def Submitted.number : Digits := ⟨"7".toList, by decide⟩

def Submitted.question : QuestionRow :=
  ⟨7, "sum".toList, "easy".toList, "add".toList, [], "int main()\x7b\x7d".toList, 1, 50000⟩

def Submitted.inJson : Str := "\x7b\"code\":\"f\",\"input\":\"\"\x7d".toList

def Submitted.write (_ : Json) : Str :=
  ("\x7b\"code\":\"f\\nint main()\x7b\x7d\",\"cpu_limit\":1,\"input\":\"\"," ++
    "\"mem_limit\":50000\x7d\n").toList

def Submitted.reader : JsonReader :=
  .documented (fun text => if text = inJson
      then .ok (true, .obj [("code".toList, .str "f".toList), ("input".toList, .str [])])
      else .ok (true, compileValue question.read "f".toList [])) fun _ => []

/-- What is written if there is no question. -/
def Submitted.emptyText : Str :=
  ("\x7b\"code\":\"f\\n\",\"cpu_limit\":0,\"input\":\"\",\"mem_limit\":0\x7d\n").toList

/-- The tables with these questions. -/
def Submitted.store (questions : List QuestionRow) : Db := ⟨[], questions, [], 1, 8, 1⟩

end OJ.Server
