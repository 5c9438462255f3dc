import DistributedOj.Framework.Lexer
import DistributedOj.OjServer.Database

/-!
# The texts of the statements

What the server sends to MySQL is a text (`Stmt.sql`, `Select.sql`) that has the
values between its constant parts, each between single quotes but otherwise as
it is. A text is read as its statement iff its values are plain
(`Stmt.lex_sql_iff`, `lex_user_iff`), and no two statements are read alike
(`Stmt.tokens_inj`).
-/

namespace OJ.Server

open OJ.Comm OJ.Framework Lexer

/-! ## Texts -/

/-- The text of a statement. -/
def Stmt.sql : Stmt → Str
  | addUser username password salt =>
    "INSERT INTO user (username, password, salt) VALUES ('".toList ++ username ++ "', '".toList ++
      password ++ "', '".toList ++ salt ++ "')".toList
  | insertUserByAdmin username password salt isAdmin =>
    "INSERT INTO user (username, password, salt, isAdmin) VALUES ('".toList ++ username ++
      "', '".toList ++ password ++ "', '".toList ++ salt ++ "', ".toList ++ toStringI isAdmin ++
      ")".toList
  | updateUserById username password salt isAdmin userid =>
    "UPDATE user SET username='".toList ++ username ++ "', password='".toList ++ password ++
      "', salt='".toList ++ salt ++ "', isAdmin=".toList ++ toStringI isAdmin ++
      " WHERE userid='".toList ++ toStringI userid ++ "'".toList
  | deleteUserById userid => "DELETE FROM user WHERE userid = '".toList ++ userid ++ "'".toList
  | insertQuestion title star questionDesc header tail timeLimit memLimit =>
    "INSERT INTO questions".toList ++
      " (title, star, question_desc, header, tail, time_limit, mem_limit) VALUES ('".toList ++
      title ++ "', '".toList ++ star ++ "', '".toList ++ questionDesc ++ "', '".toList ++ header ++
      "', '".toList ++ tail ++ "', ".toList ++ toStringI timeLimit ++ ", ".toList ++
      toStringI memLimit ++ ")".toList
  | updateQuestion title star questionDesc header tail timeLimit memLimit id =>
    "UPDATE questions SET ".toList ++ "title='".toList ++ title ++ "', star='".toList ++ star ++
      "', question_desc='".toList ++ questionDesc ++ "', header='".toList ++ header ++
      "', tail='".toList ++ tail ++ "', time_limit=".toList ++ toStringI timeLimit ++
      ", mem_limit=".toList ++ toStringI memLimit ++ " WHERE id='".toList ++ id ++ "'".toList
  | deleteQuestion id => "DELETE FROM questions WHERE id ='".toList ++ id ++ "'".toList
  | addUserProgress userId questionId isCompleted completedTime attemptCount =>
    "INSERT INTO UserProgress (user_id, question_id, is_completed, completed_time, attempt_count) VALUES (".toList ++
      toStringI userId ++ ", ".toList ++ toStringI questionId ++ ", ".toList ++
      toStringI (if isCompleted then 1 else 0) ++ ", ".toList ++
      ("'".toList ++ completedTime ++ "'".toList) ++ ", ".toList ++ toStringI attemptCount ++
      ")".toList
  | updateUserProgress isCompleted completedTime attemptCount userId questionId =>
    "UPDATE UserProgress SET is_completed = ".toList ++ toStringI (if isCompleted then 1 else 0) ++
      ", completed_time = ".toList ++ ("'".toList ++ completedTime ++ "'".toList) ++
      ", attempt_count=".toList ++ toStringI attemptCount ++ " WHERE user_id=".toList ++
      toStringI userId ++ " AND question_id=".toList ++ toStringI questionId

/-- The statements that change nothing. -/
inductive Select where
  | user (username : Str)
  | userById (userId : Str)
  | allUsers
  | question (number : Str)
  | allQuestions
  | progress (userId questionId : Int)
  | completed (userId : Int)

def Select.sql : Select → Str
  | user username =>
    "SELECT * FROM ".toList ++ "user".toList ++ " WHERE username = '".toList ++ username ++ "'".toList
  | userById userId =>
    "SELECT * FROM ".toList ++ "user".toList ++ " WHERE userid = '".toList ++ userId ++ "'".toList
  | allUsers => "SELECT * FROM user ORDER BY CreationTime DESC".toList
  | question number => "SELECT * FROM ".toList ++ "questions".toList ++ " WHERE id=".toList ++ number
  | allQuestions => "SELECT * FROM ".toList ++ "questions".toList
  | progress userId questionId =>
    "SELECT * FROM ".toList ++ "UserProgress".toList ++ " WHERE user_id = ".toList ++
      toStringI userId ++ " AND question_id = ".toList ++ toStringI questionId
  | completed userId =>
    "SELECT * FROM ".toList ++ "UserProgress".toList ++ " WHERE user_id = ".toList ++
      toStringI userId ++ " and is_completed = 1".toList ++ " ORDER BY completed_time DESC".toList

/-- MySQL as `mysql_query` reaches it: the tables after a text, and the rows that
it selects. -/
structure Mysqld where
  exec : Str → Db → Option Db
  users : Str → Db → Option (List UserRow)
  questions : Str → Db → Option (List QuestionRow)
  progress : Str → Db → Option (List ProgressRow)

/-- What the server makes of it. -/
def Mysqld.mysql (d : Mysqld) : MySQL where
  exec stmt := d.exec stmt.sql
  user username := d.users (Select.user username).sql
  userById userId := d.users (Select.userById userId).sql
  allUsers := d.users Select.allUsers.sql
  question number := d.questions (Select.question number).sql
  allQuestions := d.questions Select.allQuestions.sql
  progress userId questionId := d.progress (Select.progress userId questionId).sql
  completed userId := d.progress (Select.completed userId).sql

/-! ## Constant parts and values -/

/-- A statement without its values. -/
inductive Form where
  | addUser
  | insertUserByAdmin
  | updateUserById
  | deleteUserById
  | insertQuestion
  | updateQuestion
  | deleteQuestion
  | addUserProgress
  | updateUserProgress
  deriving DecidableEq

/-- What stands before the first value. -/
def Form.first : Form → Str
  | addUser => "INSERT INTO user (username, password, salt) VALUES (".toList
  | insertUserByAdmin => "INSERT INTO user (username, password, salt, isAdmin) VALUES (".toList
  | updateUserById => "UPDATE user SET username=".toList
  | deleteUserById => "DELETE FROM user WHERE userid = ".toList
  | insertQuestion =>
    "INSERT INTO questions (title, star, question_desc, header, tail, time_limit, mem_limit) VALUES (".toList
  | updateQuestion => "UPDATE questions SET title=".toList
  | deleteQuestion => "DELETE FROM questions WHERE id =".toList
  | addUserProgress =>
    "INSERT INTO UserProgress (user_id, question_id, is_completed, completed_time, attempt_count) VALUES (".toList
  | updateUserProgress => "UPDATE UserProgress SET is_completed = ".toList

/-- What stands after each value. -/
def Form.seps : Form → List Str
  | addUser => [", ".toList, ", ".toList, ")".toList]
  | insertUserByAdmin => [", ".toList, ", ".toList, ", ".toList, ")".toList]
  | updateUserById =>
    [", password=".toList, ", salt=".toList, ", isAdmin=".toList, " WHERE userid=".toList, []]
  | deleteUserById | deleteQuestion => [[]]
  | insertQuestion =>
    [", ".toList, ", ".toList, ", ".toList, ", ".toList, ", ".toList, ", ".toList, ")".toList]
  | updateQuestion =>
    [", star=".toList, ", question_desc=".toList, ", header=".toList, ", tail=".toList,
      ", time_limit=".toList, ", mem_limit=".toList, " WHERE id=".toList, []]
  | addUserProgress => [", ".toList, ", ".toList, ", ".toList, ", ".toList, ")".toList]
  | updateUserProgress =>
    [", completed_time = ".toList, ", attempt_count=".toList, " WHERE user_id=".toList,
      " AND question_id=".toList, []]

def number (n : Int) : Item := .bare (toStringI n)

namespace Stmt

def form : Stmt → Form
  | addUser .. => .addUser
  | insertUserByAdmin .. => .insertUserByAdmin
  | updateUserById .. => .updateUserById
  | deleteUserById .. => .deleteUserById
  | insertQuestion .. => .insertQuestion
  | updateQuestion .. => .updateQuestion
  | deleteQuestion .. => .deleteQuestion
  | addUserProgress .. => .addUserProgress
  | updateUserProgress .. => .updateUserProgress

def items : Stmt → List Item
  | addUser username password salt => [.literal username, .literal password, .literal salt]
  | insertUserByAdmin username password salt isAdmin =>
    [.literal username, .literal password, .literal salt, number isAdmin]
  | updateUserById username password salt isAdmin userid =>
    [.literal username, .literal password, .literal salt, number isAdmin, .literal (toStringI userid)]
  | deleteUserById id | deleteQuestion id => [.literal id]
  | insertQuestion title star questionDesc header tail timeLimit memLimit =>
    [.literal title, .literal star, .literal questionDesc, .literal header, .literal tail,
      number timeLimit, number memLimit]
  | updateQuestion title star questionDesc header tail timeLimit memLimit id =>
    [.literal title, .literal star, .literal questionDesc, .literal header, .literal tail,
      number timeLimit, number memLimit, .literal id]
  | addUserProgress userId questionId isCompleted completedTime attemptCount =>
    [number userId, number questionId, number (if isCompleted then 1 else 0),
      .literal completedTime, number attemptCount]
  | updateUserProgress isCompleted completedTime attemptCount userId questionId =>
    [number (if isCompleted then 1 else 0), .literal completedTime, number attemptCount,
      number userId, number questionId]

/-- What a statement is to be read as. -/
def tokens (stmt : Stmt) : List Token := tokensOf stmt.form.first ++ shape stmt.items stmt.form.seps

theorem sql_eq (stmt : Stmt) : stmt.sql = stmt.form.first ++ render stmt.items stmt.form.seps := by
  cases stmt <;> delta sql form items Form.first Form.seps number <;>
    simp only [render, Item.text, List.append_assoc, List.cons_append, List.nil_append, List.append_nil,
      quote, String.reduceToList]

end Stmt

/-! ## Numbers -/

section
variable {c : Char} {text : Str}

theorem isWord_of_isDigit (h : c.isDigit = true) : isWord c = true := by
  simp [isWord, Char.isAlphanum, h]

theorem isWord_of_mem_toStringU {n : Nat} (h : c ∈ toStringU n) : isWord c = true :=
  isWord_of_isDigit (isDigit_of_mem_toStringU h)

/-- A text of letters and digits stands for itself between quotes. -/
theorem plain_of_isWord (h : ∀ c ∈ text, isWord c = true) : Plain text := by
  refine ⟨null_notMem_of_isWord h, ?_⟩
  induction text with
  | nil => exact .nil
  | cons c text ih =>
    obtain ⟨hc, h⟩ := List.forall_mem_cons.mp h
    exact .char (fun e => absurd (e ▸ hc) (by decide)) (fun e => absurd (e ▸ hc) (by decide)) (ih h)

theorem plain_toStringI (n : Int) : Plain (toStringI n) := by
  cases n with
  | ofNat n => exact plain_of_isWord fun c hc => isWord_of_mem_toStringU hc
  | negSucc n =>
    obtain ⟨hnull, hv⟩ :=
      plain_of_isWord fun c (hc : c ∈ toStringU (n + 1)) => isWord_of_mem_toStringU hc
    refine ⟨fun h => ?_, .char (by decide) (by decide) hv⟩
    rcases List.mem_cons.mp h with h | h
    · exact absurd h (by decide)
    · exact hnull h

/-- A number is a word, after its sign. -/
def numberTokens : Int → List Token
  | .ofNat n => [.word (toStringU n)]
  | .negSucc n => [.char '-', .word (toStringU (n + 1))]

theorem lex_number (n : Int) : Bare (toStringI n) ∧ (number n).tokens = numberTokens n := by
  cases n with
  | ofNat n =>
    have hw : ∀ c ∈ toStringU n, isWord c = true := fun c hc => isWord_of_mem_toStringU hc
    have hf := (foldl_of_isWord (toStringU_ne_nil n) hw).1
    have hnull := null_notMem_of_isWord hw
    refine ⟨⟨hnull, _, _, hf⟩, ?_⟩
    show (lex (toStringU n)).getD [] = _
    rw [lex_of_foldl hnull hf]
    rfl
  | negSucc n =>
    have hw : ∀ c ∈ toStringU (n + 1), isWord c = true := fun c hc => isWord_of_mem_toStringU hc
    have hf := (foldl_of_isWord (toStringU_ne_nil (n + 1)) hw).2
    have hnull := (plain_toStringI (.negSucc n)).1
    refine ⟨⟨hnull, _, _, hf⟩, ?_⟩
    show (lex (toStringI (.negSucc n))).getD [] = _
    rw [lex_of_foldl hnull hf]
    rfl

/-- Two numbers are told apart by their tokens. -/
theorem apart_number (m n : Int) : (number m).Apart (number n) := by
  intro ts ts' h
  rw [(lex_number m).2, (lex_number n).2] at h
  cases m with
  | ofNat m =>
    cases n with
    | ofNat n =>
      obtain ⟨h, hts⟩ := List.cons.inj h
      rw [toStringU_inj.mp (Token.word.inj h)]
      exact ⟨rfl, hts⟩
    | negSucc n => cases (List.cons.inj h).1
  | negSucc m =>
    cases n with
    | ofNat n => cases (List.cons.inj h).1
    | negSucc n =>
      obtain ⟨h, hts⟩ := List.cons.inj (List.cons.inj h).2
      rw [Nat.succ.inj (toStringU_inj.mp (Token.word.inj h))]
      exact ⟨rfl, hts⟩

end

/-! ## What is read -/

theorem Form.template (form : Form) : Template form.first := by
  cases form <;> delta Form.first <;> simp only [String.reduceToList] <;> decide +kernel

theorem Form.separators (form : Form) : Separators form.seps := by
  cases form <;> delta Form.seps <;> simp only [String.reduceToList] <;> decide +kernel

namespace Stmt
variable {stmt stmt' : Stmt}

theorem length_items (stmt : Stmt) : stmt.items.length = stmt.form.seps.length := by
  cases stmt <;> rfl

theorem items_ok (stmt : Stmt) : ∀ item ∈ stmt.items, item.Ok := by
  have hnumber (n : Int) : (number n).Ok := (lex_number n).1
  have hliteral (value : Str) : (Item.literal value).Ok := trivial
  cases stmt <;> simp [items, hnumber, hliteral]

/-- The text of a statement is read as the statement iff its values are plain. -/
theorem lex_sql_iff : lex stmt.sql = some stmt.tokens ↔ ∀ item ∈ stmt.items, item.Plain := by
  rw [sql_eq, tokens]
  exact lex_render_iff stmt.form.template stmt.items_ok stmt.form.separators stmt.length_items

end Stmt

/-! ## No two statements are read alike -/

/-- The first tokens of a form. -/
def Form.head : Form → List Token
  | addUser =>
    [.word "INSERT".toList, .word "INTO".toList, .word "user".toList, .char '(',
      .word "username".toList, .char ',', .word "password".toList, .char ',', .word "salt".toList,
      .char ')']
  | insertUserByAdmin =>
    [.word "INSERT".toList, .word "INTO".toList, .word "user".toList, .char '(',
      .word "username".toList, .char ',', .word "password".toList, .char ',', .word "salt".toList,
      .char ',']
  | updateUserById => [.word "UPDATE".toList, .word "user".toList]
  | deleteUserById => [.word "DELETE".toList, .word "FROM".toList, .word "user".toList]
  | insertQuestion => [.word "INSERT".toList, .word "INTO".toList, .word "questions".toList]
  | updateQuestion => [.word "UPDATE".toList, .word "questions".toList]
  | deleteQuestion => [.word "DELETE".toList, .word "FROM".toList, .word "questions".toList]
  | addUserProgress => [.word "INSERT".toList, .word "INTO".toList, .word "UserProgress".toList]
  | updateUserProgress => [.word "UPDATE".toList, .word "UserProgress".toList]

theorem Form.head_prefix (form : Form) : form.head <+: tokensOf form.first := by
  cases form <;> delta Form.first Form.head <;> simp only [String.reduceToList] <;> decide +kernel

theorem Form.eq_of_head_prefix {form form' : Form} (h : form.head <+: form'.head) : form = form' := by
  revert h
  cases form <;> cases form' <;> delta Form.head <;> simp only [String.reduceToList] <;>
    decide +kernel

namespace Stmt
variable {stmt stmt' : Stmt}

theorem head_prefix (stmt : Stmt) : stmt.form.head <+: stmt.tokens :=
  stmt.form.head_prefix.trans (List.prefix_append _ _)

theorem form_eq (h : stmt.tokens = stmt'.tokens) : stmt.form = stmt'.form := by
  have hp := stmt.head_prefix
  rw [h] at hp
  rcases List.prefix_or_prefix_of_prefix hp stmt'.head_prefix with hp | hp
  · exact Form.eq_of_head_prefix hp
  · exact (Form.eq_of_head_prefix hp).symm

theorem items_apart (h : stmt.form = stmt'.form) :
    List.Forall₂ Item.Apart stmt.items stmt'.items := by
  cases stmt <;> cases stmt' <;> cases h <;>
    simp only [items, List.forall₂_cons, List.forall₂_nil_left_iff, Item.apart_literal, apart_number,
      and_self]

theorem flag_inj {b b' : Bool} : ((if b then 1 else 0 : Int) = if b' then 1 else 0) ↔ b = b' := by
  cases b <;> cases b' <;> decide

theorem items_inj (hform : stmt.form = stmt'.form) (h : stmt.items = stmt'.items) : stmt = stmt' := by
  cases stmt <;> cases stmt' <;> cases hform <;>
    simpa [items, number, toStringI_inj, flag_inj] using h

/-- A statement is told by its tokens. -/
theorem tokens_inj (h : stmt.tokens = stmt'.tokens) : stmt = stmt' := by
  have hform := form_eq h
  have hshape : shape stmt.items stmt.form.seps = shape stmt'.items stmt.form.seps := by
    rw [tokens, tokens, ← hform] at h
    exact List.append_cancel_left h
  exact items_inj hform (shape_inj (items_apart hform) stmt.length_items hshape)

end Stmt

/-! ## What is selected -/

/-- What the `SELECT` of a user is to be read as. -/
def userTokens (username : Str) : List Token :=
  tokensOf "SELECT * FROM user WHERE username = ".toList ++ [.literal username]

/-- What the `SELECT` of a question is to be read as. -/
def questionTokens (number : Str) : List Token :=
  tokensOf "SELECT * FROM questions WHERE id=".toList ++ [.word number]

theorem lex_append_item_iff {text : Str} {item : Item} (htext : Template text) (hitem : item.Ok) :
    lex (text ++ item.text) = some (tokensOf text ++ item.tokens) ↔ item.Plain := by
  have h : lex (text ++ render [item] [[]]) = some (tokensOf text ++ shape [item] [[]]) ↔
      ∀ item' ∈ [item], item'.Plain :=
    lex_render_iff htext (by simpa using hitem) (by decide) rfl
  have hr : render [item] [[]] = item.text := by simp [render]
  have hs : shape [item] [[]] = item.tokens := by simp [shape, tokensOf]
  rw [hr, hs, List.forall_mem_singleton] at h
  exact h

theorem lex_user_iff {username : Str} :
    lex (Select.user username).sql = some (userTokens username) ↔ Plain username := by
  have htext : Template "SELECT * FROM user WHERE username = ".toList := by
    simp only [String.reduceToList]
    decide +kernel
  have hsql : (Select.user username).sql =
      "SELECT * FROM user WHERE username = ".toList ++ (Item.literal username).text := by
    delta Select.sql
    simp only [Item.text, List.cons_append, List.nil_append, quote, String.reduceToList]
  rw [hsql]
  exact lex_append_item_iff htext trivial

theorem lex_question {number : Str} (h : isValidNumber number = true) :
    lex (Select.question number).sql = some (questionTokens number) := by
  have htext : Template "SELECT * FROM questions WHERE id=".toList := by
    simp only [String.reduceToList]
    decide +kernel
  have hsql : (Select.question number).sql =
      "SELECT * FROM questions WHERE id=".toList ++ (Item.bare number).text := by
    delta Select.sql
    simp only [Item.text, List.cons_append, List.nil_append, String.reduceToList]
  simp only [isValidNumber, Bool.and_eq_true, decide_eq_true_eq, List.all_eq_true] at h
  have hw : ∀ c ∈ number, isWord c = true := fun c hc => isWord_of_isDigit (h.2 c hc)
  have hnull := null_notMem_of_isWord hw
  have hf := (foldl_of_isWord h.1 hw).1
  have htokens : (Item.bare number).tokens = [.word number] := by
    rw [Item.tokens, lex_of_foldl hnull hf]
    rfl
  have hbare : (Item.bare number).Ok := show Bare number from ⟨hnull, _, _, hf⟩
  rw [hsql, questionTokens, ← htokens]
  exact (lex_append_item_iff htext hbare).mpr trivial

end OJ.Server
