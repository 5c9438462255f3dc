import DistributedOj.Comm.Digits
import DistributedOj.OjServer.Payload
import DistributedOj.OjServer.SqlText

/-!
# Questions in texts

`InsertQuestion` and `UpdateQuestion` put five texts into a statement as they are,
and `QueryMysql` reads the columns of a row by position. What is read back is what
was stored, and no other row changes, iff the columns hold the texts and each of
them stands for itself between quotes (`roundTrip_iff`). A tail with a backslash
is stored as another one (`not_roundTrip`).
-/

namespace OJ.Server

open OJ.Comm OJ.Framework Lexer Table

/-! ## Storing and reading -/

/-- The columns that are read, as `mysql_fetch_row` has them. -/
def QuestionRow.cells (r : QuestionRow) : List Str :=
  [toStringI r.id, r.title, r.star, r.questionDesc, r.header, r.tail, toStringI r.timeLimit,
    toStringI r.memLimit]

/-- What `QueryMysql` makes of a row. -/
def Question.ofCells : List Str → Question
  | number :: title :: star :: desc :: header :: tail :: cpuLimit :: memLimit :: _ =>
    { number := cString number
      title := cString title
      star := cString star
      desc := cString desc
      header := cString header
      tail := cString tail
      cpuLimit := atoi (cString cpuLimit)
      memLimit := atoi (cString memLimit) }
  | _ => .new

section
variable (d : Mysqld) (q : Question)

/-- `GetOneQuestion`. -/
def Mysqld.getOneQuestion (number : Str) (db : Db) : Bool × Question :=
  match (d.questions (Select.question number).sql db).map (·.map fun r => .ofCells r.cells) with
  | some [q'] => (true, q')
  | _ => (false, q)

/-- What `InsertQuestion` sends. -/
def Question.inserted : Stmt :=
  .insertQuestion q.title q.star q.desc q.header q.tail q.cpuLimit q.memLimit

/-- What `UpdateQuestion` sends. -/
def Question.updated : Stmt :=
  .updateQuestion q.title q.star q.desc q.header q.tail q.cpuLimit q.memLimit q.number

def insertQuestion : Sql Bool := updateMysql d.mysql q.inserted

def updateQuestion : Sql Bool := updateMysql d.mysql q.updated

def Question.texts : List Str := [q.title, q.star, q.desc, q.header, q.tail]

/-- The columns hold the values: `VARCHAR(64)`, `VARCHAR(8)` and `TEXT` in `utf8`, of
which no more is read than a C string, and two `int`s. -/
structure Question.Storable : Prop where
  title : q.title.length ≤ 64
  star : q.star.length ≤ 8
  sizes : ∀ text ∈ [q.desc, q.header, q.tail], (text.map Char.utf8Size).sum < 2 ^ 16
  chars : ∀ text ∈ q.texts, ∀ c ∈ text, c ≠ null ∧ c.toNat < 2 ^ 16
  limits : ∀ n ∈ [q.cpuLimit, q.memLimit], -2 ^ 31 ≤ n ∧ n < 2 ^ 31

/-- The row of a question. -/
def Question.row (id : Int) : QuestionRow :=
  ⟨id, q.title, q.star, q.desc, q.header, q.tail, q.cpuLimit, q.memLimit⟩

end

/-- MySQL does what a text is read as, if the columns hold the values and the id of
a new row. -/
structure Mysqld.Stores (collate : Collation) (d : Mysqld) : Prop where
  insertQuestion : ∀ (q : Question) text db, q.Storable → db.nextQuestion < 2 ^ 31 →
    lex text = some q.inserted.tokens → d.exec text db = q.inserted.meaning collate db
  updateQuestion : ∀ (q : Question) text db, q.Storable → isValidNumber q.number = true →
    lex text = some q.updated.tokens → d.exec text db = q.updated.meaning collate db
  question : ∀ text number db, isValidNumber number = true → lex text = some (questionTokens number) →
    d.questions text db = some (rowsWith (fun r => some r.id) (idOf number) db.questions)

/-- The ids of the questions are their key, and `AUTO_INCREMENT` has a further
`int`. -/
structure Db.Numbered (db : Db) : Prop where
  ids : Keyed QuestionRow.id db.questions
  lt : ∀ r ∈ db.questions, r.id < db.nextQuestion
  next_pos : 0 < db.nextQuestion
  next_lt : db.nextQuestion < 2 ^ 31

/-- A question that is stored is read back, and the other rows stay. -/
structure RoundTrip (q : Question) : Prop where
  insert : ∀ (collate : Collation) (d : Mysqld), d.Stores collate →
    ∀ (db : Db) (log : List Stmt) (q₀ : Question), db.Numbered →
      ∃ row, ((insertQuestion d q).run (db, log)).1 = true ∧
        ((insertQuestion d q).run (db, log)).2.1.questions = db.questions ++ [row] ∧
        d.getOneQuestion q₀ (toStringI row.id) ((insertQuestion d q).run (db, log)).2.1 =
          (true, { q with number := toStringI row.id })
  update : ∀ (collate : Collation) (d : Mysqld), d.Stores collate →
    ∀ (db : Db) (log : List Stmt) (q₀ : Question), db.Numbered →
    ∀ r ∈ db.questions, isValidNumber q.number = true → idOf q.number = some r.id →
      ∃ row, ((updateQuestion d q).run (db, log)).1 = true ∧
        ((updateQuestion d q).run (db, log)).2.1.questions =
          db.questions.map (fun r' => if r'.id = r.id then row else r') ∧
        d.getOneQuestion q₀ q.number ((updateQuestion d q).run (db, log)).2.1 =
          (true, { q with number := toStringI r.id })

/-! ## Plain texts -/

section
variable {collate : Collation} {d : Mysqld} {q : Question} {db : Db}

theorem Question.Storable.atoi_limits (h : q.Storable) :
    atoi (cString (toStringI q.cpuLimit)) = q.cpuLimit ∧
      atoi (cString (toStringI q.memLimit)) = q.memLimit := by
  have hread (n : Int) (hn : n ∈ [q.cpuLimit, q.memLimit]) : atoi (cString (toStringI n)) = n := by
    rw [cString_eq (plain_toStringI n).1]
    exact atoi_toStringI (h.limits n hn).1 (h.limits n hn).2
  exact ⟨hread _ (by simp), hread _ (by simp)⟩

/-- The row of a question is read as the question. -/
theorem ofCells_row (h : q.Storable) (id : Int) :
    Question.ofCells (q.row id).cells = { q with number := toStringI id } := by
  have htext (text : Str) (ht : text ∈ q.texts) : cString text = text :=
    cString_eq fun hn => (h.chars text ht null hn).1 rfl
  have hnumber : cString (toStringI id) = toStringI id := cString_eq (plain_toStringI id).1
  obtain ⟨hcpu, hmem⟩ := h.atoi_limits
  simp only [QuestionRow.cells, Question.row, Question.ofCells, hnumber, hcpu, hmem]
  rw [htext q.title (by simp [Question.texts]), htext q.star (by simp [Question.texts]),
    htext q.desc (by simp [Question.texts]), htext q.header (by simp [Question.texts]),
    htext q.tail (by simp [Question.texts])]

/-- Of rows that the columns hold, the cells are read as the rows. -/
theorem getOneQuestion_mysql {number : Str}
    (h : ∀ rs, d.questions (Select.question number).sql db = some rs → ∀ r ∈ rs, r.read.Storable) :
    d.getOneQuestion q number db = getOneQuestion d.mysql db number q := by
  have hread (rs : List QuestionRow) (hrs : ∀ r ∈ rs, r.read.Storable) :
      rs.map (fun r => Question.ofCells r.cells) = rs.map QuestionRow.read :=
    List.map_congr_left fun r hr => ofCells_row (hrs r hr) r.id
  have hsent : d.mysql.question number db = d.questions (Select.question number).sql db := rfl
  rw [Mysqld.getOneQuestion, getOneQuestion, hsent]
  rcases hrows : d.questions (Select.question number).sql db with _ | _ | ⟨r, _ | ⟨r', rs⟩⟩
  · rfl
  · rfl
  · rw [Option.map_some, hread _ (h _ hrows)]
    rfl
  · rfl

theorem getOneQuestion_row (hd : d.Stores collate) (hq : q.Storable) {number : Str} {id : Int}
    (hn : isValidNumber number = true)
    (hrows : rowsWith (fun r => some r.id) (idOf number) db.questions = [q.row id]) (q₀ : Question) :
    d.getOneQuestion q₀ number db = (true, { q with number := toStringI id }) := by
  rw [Mysqld.getOneQuestion, hd.question _ _ _ hn (lex_question hn), hrows]
  simp only [Option.map_some, List.map_cons, List.map_nil, ofCells_row hq]

theorem idOf_of_valid {number : Str} (h : isValidNumber number = true) :
    idOf number = some (digitsVal 0 number : Int) := by
  rw [isValidNumber, Bool.and_eq_true] at h
  exact idOf_of_digits (by simpa using h.1) h.2

theorem number_toStringI {n : Int} (h : 0 < n) :
    isValidNumber (toStringI n) = true ∧ idOf (toStringI n) = some n := by
  obtain ⟨k, rfl⟩ := Int.eq_ofNat_of_zero_le h.le
  have hv := isValidNumber_toStringU k
  refine ⟨hv, ?_⟩
  have hid := idOf_of_valid hv
  rw [digitsVal_toStringU] at hid
  exact hid

theorem lex_inserted_iff :
    lex q.inserted.sql = some q.inserted.tokens ↔ ∀ text ∈ q.texts, Plain text := by
  rw [Stmt.lex_sql_iff]
  simp [Question.inserted, Stmt.items, Item.Plain, number, Question.texts]

theorem lex_updated (h : ∀ text ∈ q.texts, Plain text) (hn : isValidNumber q.number = true) :
    lex q.updated.sql = some q.updated.tokens := by
  have hnumber : Plain q.number := by
    simp only [isValidNumber, Bool.and_eq_true, decide_eq_true_eq, List.all_eq_true] at hn
    exact plain_of_isWord fun c hc => isWord_of_isDigit (hn.2 c hc)
  rw [Stmt.lex_sql_iff]
  simpa [Question.updated, Stmt.items, Item.Plain, number, Question.texts, hnumber] using h

theorem insertQuestion_of_plain (hd : d.Stores collate) (hq : q.Storable)
    (h : ∀ text ∈ q.texts, Plain text) (hnext : db.nextQuestion < 2 ^ 31) (log : List Stmt) :
    (insertQuestion d q).run (db, log) =
      (true, { db with
        questions := db.questions ++ [q.row db.nextQuestion]
        nextQuestion := db.nextQuestion + 1 }, log ++ [q.inserted]) := by
  have hexec : d.mysql.exec q.inserted db = _ :=
    hd.insertQuestion q _ db hq hnext (lex_inserted_iff.mpr h)
  rw [insertQuestion, run_updateMysql, hexec]
  rfl

theorem updateQuestion_of_plain (hd : d.Stores collate) (hq : q.Storable)
    (h : ∀ text ∈ q.texts, Plain text) (hn : isValidNumber q.number = true) {id : Int}
    (hid : idOf q.number = some id) (log : List Stmt) : (updateQuestion d q).run (db, log) =
      (true, { db with questions := db.questions.map fun r => if r.id = id then q.row id else r },
        log ++ [q.updated]) := by
  have hexec : d.mysql.exec q.updated db = _ := hd.updateQuestion q _ db hq hn (lex_updated h hn)
  have hmeaning : q.updated.meaning collate db =
      some { db with questions := db.questions.map fun r => if r.id = id then q.row id else r } := by
    show some (db.updateQuestion _ _ _ _ _ _ _ (idOf q.number)) = _
    rw [hid, Db.updateQuestion, Table.update]
    congr 2
    refine List.map_congr_left fun r _ => ?_
    by_cases hr : r.id = id
    · simp [hr, Question.row]
    · simp [hr]
  rw [updateQuestion, run_updateMysql, hexec, hmeaning]
  rfl

theorem roundTrip_of_plain (hq : q.Storable) (h : ∀ text ∈ q.texts, Plain text) : RoundTrip q := by
  constructor
  · intro collate d hd db log q₀ hdb
    obtain ⟨hv, hid⟩ := number_toStringI hdb.next_pos
    refine ⟨q.row db.nextQuestion, ?_⟩
    rw [insertQuestion_of_plain hd hq h hdb.next_lt]
    refine ⟨rfl, rfl, getOneQuestion_row hd hq hv ?_ q₀⟩
    show rowsWith _ (idOf (toStringI db.nextQuestion)) (db.questions ++ [q.row db.nextQuestion]) = _
    have hold : rowsWith (fun r : QuestionRow => some r.id) (some db.nextQuestion) db.questions = [] :=
      rowsWith_eq_nil.mpr fun r hr e => absurd (Option.some.inj e) (hdb.lt r hr).ne
    rw [hid, rowsWith_append, hold, List.nil_append]
    simp [rowsWith, Question.row]
  · intro collate d hd db log q₀ hdb r hr hn hid
    refine ⟨q.row r.id, ?_⟩
    rw [updateQuestion_of_plain hd hq h hn hid]
    refine ⟨rfl, rfl, getOneQuestion_row hd hq hn ?_ q₀⟩
    have hsome (l : List QuestionRow) :
        rowsWith (fun r : QuestionRow => some r.id) (some r.id) l = rowsWith QuestionRow.id r.id l := by
      simp [rowsWith]
    have hmap : db.questions.map (fun r' => if r'.id = r.id then q.row r.id else r') =
        Table.update (fun r' => r'.id = r.id) (fun r' => q.row r'.id) db.questions := by
      refine List.map_congr_left fun r' _ => ?_
      by_cases hr' : r'.id = r.id
      · simp [hr']
      · simp [hr']
    have hrows : rowsWith QuestionRow.id r.id
        (Table.update (fun r' => r'.id = r.id) (fun r' => q.row r'.id) db.questions) =
          (rowsWith QuestionRow.id r.id db.questions).map fun r' => q.row r'.id :=
      rowsWith_update (fun _ => decide_eq_true_iff) fun _ => rfl
    show rowsWith _ (idOf q.number) (db.questions.map _) = _
    rw [hid, hsome, hmap, hrows, hdb.ids.rowsWith_eq hr]
    rfl

end

/-! ## MySQL that reads nothing else -/

/-- A statement of a question that the columns hold. -/
def Sent (stmt : Stmt) : Prop :=
  ∃ q : Question, q.Storable ∧ (stmt = q.inserted ∨ stmt = q.updated ∧ isValidNumber q.number = true)

open Classical in
/-- MySQL that takes only texts that are read as such statements. -/
noncomputable def Mysqld.strict : Mysqld where
  exec text db :=
    if h : ∃ stmt : Stmt, Sent stmt ∧ lex text = some stmt.tokens then h.choose.meaning id db
    else none
  users _ _ := none
  questions text db :=
    if h : ∃ number : Str, lex text = some (questionTokens number) then
      some (rowsWith (fun r => some r.id) (idOf h.choose) db.questions)
    else none
  progress _ _ := none

section
variable {stmt : Stmt} {text number : Str} {db db' : Db} {q : Question}

theorem strict_exec (hs : Sent stmt) (hl : lex text = some stmt.tokens) :
    Mysqld.strict.exec text db = stmt.meaning id db := by
  have h : ∃ stmt : Stmt, Sent stmt ∧ lex text = some stmt.tokens := ⟨stmt, hs, hl⟩
  have he : h.choose = stmt := Stmt.tokens_inj (Option.some.inj (h.choose_spec.2.symm.trans hl))
  have hpos : Mysqld.strict.exec text db = h.choose.meaning id db := dif_pos h
  rw [hpos, he]

theorem of_strict_exec (h : Mysqld.strict.exec text db = some db') :
    ∃ stmt, Sent stmt ∧ lex text = some stmt.tokens ∧ stmt.meaning id db = some db' := by
  by_cases hs : ∃ stmt : Stmt, Sent stmt ∧ lex text = some stmt.tokens
  · have hpos : Mysqld.strict.exec text db = hs.choose.meaning id db := dif_pos hs
    exact ⟨_, hs.choose_spec.1, hs.choose_spec.2, hpos.symm.trans h⟩
  · have hneg : Mysqld.strict.exec text db = none := dif_neg hs
    cases hneg.symm.trans h

theorem strict_stores : Mysqld.strict.Stores id where
  insertQuestion q _ _ hq _ hl := strict_exec ⟨q, hq, .inl rfl⟩ hl
  updateQuestion q _ _ hq hn hl := strict_exec ⟨q, hq, .inr ⟨rfl, hn⟩⟩ hl
  question text number db _ hl := by
    have h : ∃ number : Str, lex text = some (questionTokens number) := ⟨number, hl⟩
    have he : h.choose = number := by
      have ht := List.append_cancel_left (Option.some.inj (h.choose_spec.symm.trans hl))
      exact Token.word.inj (List.cons.inj ht).1
    have hpos : Mysqld.strict.questions text db =
        some (rowsWith (fun r => some r.id) (idOf h.choose) db.questions) := dif_pos h
    rw [hpos, he]

theorem numbered_empty : Db.Numbered ⟨[], [], [], 1, 1, 1⟩ :=
  ⟨List.nodup_nil, by simp, by decide, by decide⟩

theorem Question.Storable.setNumber (h : q.Storable) (number : Str) : { q with number }.Storable :=
  ⟨h.title, h.star, h.sizes, h.chars, h.limits⟩

/-- What is read back was stored by a text that is read as the statement. -/
theorem plain_of_roundTrip (h : RoundTrip q) : q.Storable ∧ ∀ text ∈ q.texts, Plain text := by
  obtain ⟨row, hok, hrows, hread⟩ := h.insert id .strict strict_stores _ [] .new numbered_empty
  rw [insertQuestion, run_updateMysql] at hok hrows hread
  obtain ⟨db', hexec⟩ := Option.isSome_iff_exists.mp hok
  rw [hexec, Option.getD_some] at hrows hread
  obtain ⟨stmt, ⟨q', hq', hstmt⟩, hlex, hmeaning⟩ := of_strict_exec hexec
  rcases hstmt with rfl | ⟨rfl, -⟩
  · have hdb' : db'.questions = [q'.row 1] := by
      rw [← Option.some.inj hmeaning]
      rfl
    have hrow : row = q'.row 1 := by
      have he := hrows.symm.trans hdb'
      exact (List.cons.inj he).1
    obtain ⟨hv, hid⟩ := number_toStringI (show (0 : Int) < 1 by decide)
    have hback := getOneQuestion_row strict_stores hq' hv (by rw [hid, hdb']; rfl) .new
    rw [hrow] at hread
    have heq : { q' with number := toStringI 1 } = { q with number := toStringI 1 } :=
      (Prod.mk.inj (hback.symm.trans hread)).2
    have hinserted : q'.inserted = q.inserted := by
      have := congrArg Question.inserted heq
      exact this
    rw [hinserted] at hlex
    have hstorable := (heq ▸ hq'.setNumber (toStringI 1)).setNumber q.number
    exact ⟨hstorable, lex_inserted_iff.mp hlex⟩
  · have hdb' : db'.questions = [] := by
      rw [← Option.some.inj hmeaning]
      rfl
    cases hrows.symm.trans hdb'

/-- A question is read back as it was stored iff the columns hold it and none of its
texts needs an escape. -/
theorem roundTrip_iff (q : Question) :
    RoundTrip q ↔ q.Storable ∧ ∀ text ∈ q.texts, Plain text :=
  ⟨plain_of_roundTrip, fun h => roundTrip_of_plain h.1 h.2⟩

end

/-! ## A tail with a backslash -/

/-- A question whose tests print a line. -/
def Question.printing : Question :=
  { Question.new with
    title := "sum".toList
    star := "easy".toList
    cpuLimit := 1
    memLimit := 50000
    tail := "printf(\"a\\n\");".toList }

/-- The line is broken in what is stored. -/
def Question.broken : Question := { Question.printing with tail := "printf(\"a\n\");".toList }

theorem lex_printing : lex Question.printing.inserted.sql = some Question.broken.inserted.tokens := by
  decide +kernel

theorem broken_storable : Question.broken.Storable := by
  have hchars : ∀ text ∈ Question.broken.texts,
      text.all (fun c => c ≠ null ∧ c.toNat < 2 ^ 16) = true := by decide
  exact ⟨by decide, by decide, by decide,
    fun text ht c hc => of_decide_eq_true (List.all_eq_true.mp (hchars text ht) c hc), by decide⟩

theorem insertQuestion_printing {collate : Collation} {d : Mysqld} (hd : d.Stores collate) {db : Db}
    (hdb : db.Numbered) (log : List Stmt) :
    ((insertQuestion d Question.printing).run (db, log)).2.1.questions =
      db.questions ++ [Question.broken.row db.nextQuestion] := by
  have hexec : d.mysql.exec Question.printing.inserted db = _ :=
    hd.insertQuestion Question.broken _ db broken_storable hdb.next_lt lex_printing
  rw [insertQuestion, run_updateMysql, hexec]
  rfl

/-- Whatever MySQL stores it, the tail is not the one that was given: a `\n` in a
program becomes the end of its line. -/
theorem not_roundTrip : ¬ RoundTrip Question.printing ∧
    ∀ (collate : Collation) (d : Mysqld), d.Stores collate →
      ∀ (db : Db) (log : List Stmt), db.Numbered →
        ((insertQuestion d Question.printing).run (db, log)).2.1.questions =
          db.questions ++ [Question.broken.row db.nextQuestion] := by
  refine ⟨fun h => ?_, fun _ _ hd _ log hdb => insertQuestion_printing hd hdb log⟩
  obtain ⟨row, -, hrows, hread⟩ := h.insert id .strict strict_stores _ [] .new numbered_empty
  have hrow : Question.broken.row 1 = row :=
    (List.cons.inj ((insertQuestion_printing strict_stores numbered_empty []).symm.trans hrows)).1
  rw [← hrow] at hrows hread
  have hback := getOneQuestion_row strict_stores broken_storable
    (show isValidNumber (toStringI 1) = true by decide) (by rw [hrows]; rfl) .new
  exact absurd (congrArg (fun x => x.2.tail) (hback.symm.trans hread)) (by decide)

end OJ.Server
