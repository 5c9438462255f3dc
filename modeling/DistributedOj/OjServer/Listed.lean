import DistributedOj.OjServer.Kept
import DistributedOj.OjServer.QuestionText
import DistributedOj.OjServer.View

/-!
# What the pages list

The page of all questions lists each stored question once, by its number, and
the page of all users each account; the number that is listed leads to the page
of that question or account, and whoever reads it takes it for the same id
(`ServerState.listed`). This rests on numbers that are positive and, as MySQL's
`INT` has it, below 2^31.
-/

namespace OJ.Server

open OJ.Comm OJ.Framework Table

/-! ## Numbers that MySQL gives out -/

/-- `AUTO_INCREMENT` starts from 1. -/
structure Db.Positive (db : Db) : Prop where
  user : ∀ r ∈ db.user, 0 < r.userid
  questions : ∀ r ∈ db.questions, 0 < r.id
  nextUser : 0 < db.nextUser
  nextQuestion : 0 < db.nextQuestion

section
variable {collate : Collation} {db db' : Db} {stmt : Stmt}

theorem Db.Positive.insertUser {username password salt : Str} {isAdmin : Int} (h : db.Positive)
    (hdb : db.insertUser collate username password salt isAdmin = some db') : db'.Positive := by
  obtain ⟨-, rfl⟩ := Db.of_insertUser hdb
  refine ⟨?_, h.questions, ?_, h.nextQuestion⟩
  · intro r hr
    rcases List.mem_append.mp hr with hr | hr
    · exact h.user r hr
    · rw [List.mem_singleton.mp hr]
      exact h.nextUser
  · show 0 < db.nextUser + 1
    have := h.nextUser
    omega

/-- Every statement gives out positive numbers. -/
theorem Db.Positive.meaning (h : db.Positive) (hdb : stmt.meaning collate db = some db') : db'.Positive := by
  cases stmt with
  | addUser | insertUserByAdmin => exact h.insertUser hdb
  | updateUserById =>
    obtain ⟨-, rfl⟩ := Db.of_updateUser hdb
    refine ⟨?_, h.questions, h.nextUser, h.nextQuestion⟩
    intro r hr
    obtain ⟨x, hx, rfl⟩ := mem_update.mp hr
    have := h.user x hx
    split
    · exact this
    · exact this
  | deleteUserById =>
    cases hdb
    exact ⟨fun r hr => h.user r (List.mem_filter.mp hr).1, h.questions, h.nextUser, h.nextQuestion⟩
  | insertQuestion =>
    cases hdb
    refine ⟨h.user, ?_, h.nextUser, ?_⟩
    · intro r hr
      rcases List.mem_append.mp hr with hr | hr
      · exact h.questions r hr
      · rw [List.mem_singleton.mp hr]
        exact h.nextQuestion
    · show 0 < db.nextQuestion + 1
      have := h.nextQuestion
      omega
  | updateQuestion =>
    cases hdb
    refine ⟨h.user, ?_, h.nextUser, h.nextQuestion⟩
    intro r hr
    obtain ⟨x, hx, rfl⟩ := mem_update.mp hr
    have := h.questions x hx
    split
    · exact this
    · exact this
  | deleteQuestion =>
    cases hdb
    exact ⟨h.user, fun r hr => h.questions r (List.mem_filter.mp hr).1, h.nextUser, h.nextQuestion⟩
  | addUserProgress =>
    obtain ⟨-, rfl⟩ := Db.of_insertProgress hdb
    exact ⟨h.user, h.questions, h.nextUser, h.nextQuestion⟩
  | updateUserProgress =>
    cases hdb
    exact ⟨h.user, h.questions, h.nextUser, h.nextQuestion⟩

theorem Db.Positive.does (h : db.Positive) (hdb : stmt.Does collate db db') : db'.Positive := by
  obtain ⟨db₀, hskips, hdb⟩ := hdb
  exact Db.Positive.meaning ⟨hskips.user ▸ h.user, hskips.questions ▸ h.questions,
    h.nextUser.trans_le hskips.nextUser, h.nextQuestion.trans_le hskips.nextQuestion⟩ hdb

end

/-! ## Numbers on a page -/

/-- Whoever reads the number takes it for this id: MySQL in a statement,
`std::stoi` in a path, and `atoi`. -/
structure StandsFor (number : Digits) (id : Int) : Prop where
  idOf : idOf number.val = some id
  stoi : stoi number.val = some id
  atoi : atoi number.val = id

theorem exists_standsFor {id : Int} (hpos : 0 < id) (hlt : id < 2 ^ 31) :
    ∃ number : Digits, number.val = toStringI id ∧ StandsFor number id := by
  obtain ⟨hvalid, hid⟩ := number_toStringI hpos
  have hdigits : toStringI id ≠ [] ∧ (toStringI id).all Char.isDigit := by
    simpa [isValidNumber] using hvalid
  refine ⟨⟨toStringI id, hdigits⟩, rfl, hid, ?_, atoi_toStringI (by omega) hlt⟩
  rw [idOf_of_valid hvalid] at hid
  have hval : (digitsVal 0 (toStringI id) : Int) = id := Option.some.inj hid
  show OJ.Comm.stoi (toStringI id) = some id
  rw [stoi_of_valid hvalid, if_pos (by omega), hval]

/-! ## The pages -/

/-- The page of all questions has each question once, by its number, and the
number leads to the question. -/
structure QuestionsListed (L : Library) (t : ServerState) : Prop where
  page : ∀ (w : World) (req : Request) (rows : List QuestionRow), req.path = .all_questions →
    w.mysql.allQuestions t.db = some rows → rows.Perm t.db.questions →
      ∃ qs, serve L w req t = (.ok (.page (.allQuestions qs)), t, []) ∧
        qs.Perm (t.db.questions.map QuestionRow.read) ∧
        qs.Pairwise fun q1 q2 => atoi q1.number < atoi q2.number
  link : ∀ r ∈ t.db.questions, ∃ number : Digits, number.val = r.read.number ∧ StandsFor number r.id ∧
    ∀ (w : World) (req : Request), req.path = .question number →
      w.mysql.question number.val t.db =
        some (rowsWith (fun r => some r.id) (idOf number.val) t.db.questions) →
      serve L w req t = (.ok (.page (.oneQuestion r.read)), t, [])

/-- The page of all users has each account once, and its number leads to the
account, with what it has completed. -/
structure UsersListed (L : Library) (t : ServerState) : Prop where
  page : ∀ (w : World) (req : Request) (rows : List UserRow), req.path = .all_users →
    w.mysql.allUsers t.db = some rows → rows.Perm t.db.user →
      ∃ us, serve L w req t = (.ok (.page (.allUsers us)), t, []) ∧ us.Perm (t.db.user.map UserRow.read)
  link : ∀ r ∈ t.db.user, ∃ id : Digits, id.val = toStringI r.userid ∧ StandsFor id r.userid ∧
    ∀ (w : World) (req : Request) (rows : List ProgressRow), req.path = .user id →
      w.mysql.userById id.val t.db = some (rowsWith (fun r => some r.userid) (idOf id.val) t.db.user) →
      w.mysql.completed r.userid t.db = some rows →
      serve L w req t = (.ok (.page (.userDetail r.read (rows.map (·.read L.clock)))), t, []) ∧
        (rows.Perm (t.db.completedBy r.userid) →
          (rows.map (·.read L.clock)).Perm ((t.db.completedBy r.userid).map (·.read L.clock)))

section
variable {collate : Collation} {L : Library} {t : ServerState}

/-- The one row with a number. -/
theorem rowsWith_standsFor {α : Type} {key : α → Int} {l : List α} {r : α} (h : Keyed key l) (hr : r ∈ l)
    {number : Digits} (hn : StandsFor number (key r)) :
    rowsWith (fun r => some (key r)) (idOf number.val) l = [r] := by
  have hrows : rowsWith (fun r => some (key r)) (some (key r)) l = rowsWith key (key r) l :=
    List.filter_congr fun x _ => by simp
  rw [hn.idOf, hrows, h.rowsWith_eq hr]

/-- What is sorted by numbers that are all different goes up. -/
theorem pairwise_number_lt {qs : List Question} {rows : List QuestionRow} (hkeyed : Keyed QuestionRow.id rows)
    (hid : ∀ r ∈ rows, atoi r.read.number = r.id) (hperm : qs.Perm (rows.map QuestionRow.read))
    (hle : qs.Pairwise fun q1 q2 => atoi q1.number ≤ atoi q2.number) :
    qs.Pairwise fun q1 q2 => atoi q1.number < atoi q2.number := by
  have hmap : (rows.map QuestionRow.read).map (fun q => atoi q.number) = rows.map QuestionRow.id := by
    rw [List.map_map]
    exact List.map_congr_left hid
  have hnodup : (qs.map fun q => atoi q.number).Nodup := by
    rw [(hperm.map _).nodup_iff, hmap]
    exact hkeyed
  rw [List.Nodup, List.pairwise_map] at hnodup
  exact (hle.and hnodup).imp fun hab => lt_of_le_of_ne hab.1 hab.2

theorem Db.Sound.questionsListed (h : t.db.Sound collate) (hpos : t.db.Positive)
    (hlt : t.db.nextQuestion ≤ 2 ^ 31) : QuestionsListed L t := by
  have hid (r : QuestionRow) (hr : r ∈ t.db.questions) : 0 < r.id ∧ r.id < 2 ^ 31 := by
    have := h.store.problems_lt r.id (toMap_ne_none.mpr ⟨r, hr, rfl⟩)
    exact ⟨hpos.questions r hr, lt_of_lt_of_le this hlt⟩
  refine ⟨fun w req rows hp hrows hperm => ?_, fun r hr => ?_⟩
  · have hsorted : ((rows.map QuestionRow.read).mergeSort fun q1 q2 => atoi q1.number ≤ atoi q2.number).Perm
        (t.db.questions.map QuestionRow.read) := (List.mergeSort_perm _ _).trans (hperm.map _)
    refine ⟨_, ?_, hsorted, pairwise_number_lt h.questionids (fun r hr => ?_) hsorted ?_⟩
    · rw [serve, handle, hp]
      show Handling.run (handleAllQuestions w) (t, []) = _
      rw [handleAllQuestions, Handling.run_bind, Handling.run_get]
      dsimp only
      rw [hrows]
      rfl
    · exact atoi_toStringI (by have := hid r hr; omega) (hid r hr).2
    · refine (List.pairwise_mergeSort (fun a b c => ?_) (fun a b => ?_) _).imp fun hab => of_decide_eq_true hab
      · simpa using le_trans
      · simpa using le_total _ _
  · obtain ⟨number, hval, hn⟩ := exists_standsFor (hid r hr).1 (hid r hr).2
    refine ⟨number, hval, hn, fun w req hp hq => ?_⟩
    rw [rowsWith_standsFor h.questionids hr hn] at hq
    rw [serve, handle, hp]
    show Handling.run (handleQuestion w number) (t, []) = _
    rw [handleQuestion, Handling.run_bind, Handling.run_get]
    dsimp only
    rw [getOneQuestion_of_read hq]
    rfl

theorem Db.Sound.usersListed (h : t.db.Sound collate) (hpos : t.db.Positive)
    (hlt : t.db.nextUser ≤ 2 ^ 31) : UsersListed L t := by
  refine ⟨fun w req rows hp hrows hperm => ⟨rows.map UserRow.read, ?_, hperm.map _⟩, fun r hr => ?_⟩
  · rw [serve, handle, hp]
    show Handling.run (handleAllUsers w) (t, []) = _
    rw [handleAllUsers, Handling.run_sql_bind, run_getAllUsers]
    dsimp only
    rw [hrows]
    rfl
  · obtain ⟨id, hval, hn⟩ := exists_standsFor (hpos.user r hr) (lt_of_lt_of_le (h.userid_lt r hr) hlt)
    refine ⟨id, hval, hn, fun w req rows hp hq hrows => ⟨?_, fun hperm => hperm.map _⟩⟩
    rw [rowsWith_standsFor h.userids hr hn] at hq
    rw [serve, handle, hp]
    show Handling.run (handleUser L w id) (t, []) = _
    rw [handleUser, Handling.run_sql_bind, run_queryUserById, hq]
    have hread : (User.new w.userId).of (some [r]) = (true, r.read) := rfl
    rw [hread]
    dsimp only
    rw [if_pos rfl, Handling.run_bind, Handling.run_get]
    dsimp only
    have hrows : w.mysql.completed r.read.id t.db = some rows := hrows
    rw [hrows]
    rfl

end

/-- In any run, whatever MySQL fails to do: the pages list what is stored, and
what they list leads to it. -/
theorem ServerState.listed {collate : Collation} {L : Library} {s t : ServerState} {es : List Visit}
    (h : s.db.Sound collate) (hpos : s.db.Positive)
    (hr : Run (ServerState.step L) (Meant collate) s es t) (hquestion : t.db.nextQuestion ≤ 2 ^ 31)
    (huser : t.db.nextUser ≤ 2 ^ 31) : QuestionsListed L t ∧ UsersListed L t := by
  obtain ⟨hsound, hpos⟩ : t.db.Sound collate ∧ t.db.Positive := by
    refine hr.inv (I := fun s => s.db.Sound collate ∧ s.db.Positive) (fun s e s' hs hm hstep => ?_) ⟨h, hpos⟩
    refine ⟨ServerState.sound_of_step hs.1 hm hstep, ?_⟩
    rcases ServerState.db_of_step hm hstep with hdb | ⟨stmt, -, -, hdb⟩
    · rw [hdb]
      exact hs.2
    · exact hs.2.does hdb
  exact ⟨hsound.questionsListed hpos hquestion, hsound.usersListed hpos huser⟩

/-- `bob` registers beside the account that there is. -/
theorem listed_bob : ∃ t, Run (ServerState.step .sample) (Meant id) (.start .sample) [(.k, .bob .register)] t ∧
    t.db.user.map UserRow.userid = [1, 2] ∧ QuestionsListed .sample t ∧ UsersListed .sample t := by
  have hrun : (replay (ServerState.step .sample) Free (.start .sample) [(.k, .bob .register)]).map
      (fun t => (t.db.user.map UserRow.userid, t.db.nextQuestion, t.db.nextUser)) = some ([1, 2], 8, 3) := by
    decide +kernel
  obtain ⟨t, ht, hp⟩ := Option.map_eq_some_iff.mp hrun
  obtain ⟨husers, hrest⟩ := Prod.mk.inj hp
  obtain ⟨hquestion, huser⟩ := Prod.mk.inj hrest
  have hr : Run (ServerState.step .sample) (Meant id) (.start .sample) [(.k, .bob .register)] t := by
    refine (Run.of_replay ht).mono_mem fun e he _ _ => ?_
    rw [List.mem_singleton.mp he]
    exact MySQL.exact_meant id
  have hpos : Db.sample.Positive := ⟨by decide, by decide, by decide, by decide⟩
  exact ⟨t, hr, husers, ServerState.listed (s := .start .sample) Db.sample_sound hpos hr
    (by rw [hquestion]; decide) (by rw [huser]; decide)⟩

end OJ.Server
