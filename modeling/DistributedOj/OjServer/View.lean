import DistributedOj.OjServer.Handlers

/-!
# Pages

`View` fills in a dictionary for ctemplate: the values and the sections of a
page, each under its name. What a client sees of a reply (`Reply.shown`) is a
JSON value, a text, or what ctemplate makes of such a dictionary, which is
outside the repository.
-/

namespace OJ.Server

open OJ.Comm OJ.Framework

/-- `ctemplate::TemplateDictionary`, with its sections in the order in which they
were added. -/
structure Dictionary where
  name : Str
  values : List (Str × Str)
  sections : List (Str × List (Str × Str))
  deriving DecidableEq

/-- A template file, and the dictionary to expand it with. -/
structure Html where
  srcHtml : Str
  root : Dictionary
  deriving DecidableEq

def templatePath : Str := "./template_html/".toList

/-- Calls of `SetValue`. -/
def setValues (values : List (String × Str)) : List (Str × Str) := values.map fun x => (x.1.toList, x.2)

def expandAllHtml (questions : List Question) : Html :=
  ⟨templatePath ++ "all_questions.html".toList, "all_questions".toList, [], questions.map fun q =>
    ("question_list".toList, setValues [("number", q.number), ("title", q.title), ("star", q.star)])⟩

/-- What the page has of a question. -/
def Question.listed (q : Question) : Str × Str × Str := (q.number, q.title, q.star)

theorem expandAllHtml_eq (questions : List Question) :
    expandAllHtml questions =
      ⟨templatePath ++ "all_questions.html".toList, "all_questions".toList, [],
        (questions.map Question.listed).map fun q => ("question_list".toList,
          setValues [("number", q.1), ("title", q.2.1), ("star", q.2.2)])⟩ := by
  rw [expandAllHtml, List.map_map]
  rfl

def oneExpandHtml (q : Question) : Html :=
  ⟨templatePath ++ "one_question.html".toList, "one_question".toList,
    setValues [("number", q.number), ("title", q.title), ("star", q.star), ("desc", q.desc),
      ("pre_code", q.header)], []⟩

def roleName (isAdmin : Int) : Str := if isAdmin ≠ 0 then "管理员".toList else "普通用户".toList

def userAllHtml (users : List User) : Html :=
  ⟨templatePath ++ "all_users.html".toList, "all_users".toList, [], users.map fun u =>
    ("user_list".toList, setValues [("number", toStringI u.id), ("username", u.name),
      ("isAdmin", roleName u.isAdmin)])⟩

/-- `timeToStringForFrontEnd` writes what `timeToString` does, without the
quotes. -/
def generateUserDetailPage (clock : Clock) (user : User) (userProgresses : List UserProgress) : Html :=
  ⟨templatePath ++ "one_user.html".toList, "one_user".toList,
    setValues [("username", user.name), ("isAdmin", roleName user.isAdmin)], userProgresses.map fun up =>
      ("user_progress_list".toList, setValues [("question_number", toStringI up.questionId),
        ("isCompleted", if up.isCompleted then "已完成".toList else "未完成".toList),
        ("completedTime", clock.timeToString up.completedTime),
        ("attemptCount", toStringI up.attemptCount)])⟩

def Page.html (clock : Clock) : Page → Html
  | allQuestions questions => expandAllHtml questions
  | oneQuestion q => oneExpandHtml q
  | allUsers users => userAllHtml users
  | userDetail user progress => generateUserDetailPage clock user progress

/-- What the body of a reply is made of. -/
inductive Shown where
  | json (v : Json)
  | text (s : Str)
  | html (page : Html)

def Content.shown (clock : Clock) : Content → Shown
  | json v => .json v
  | text s => .text s
  | page p => .html (p.html clock)

/-- The body and the cookie of a reply. -/
def Reply.shown (clock : Clock) (r : Reply) : Shown × Option Str := (r.content.shown clock, r.setCookie)

end OJ.Server
