import DistributedOj.Comm.Digits
import DistributedOj.CompileServer.ProcLimit
import DistributedOj.OjServer.Deeds

/-!
# The limits of questions

`/addQuestion` takes a text of digits for a limit and `/updateQuestion` takes
whatever `std::stoi` reads (`serve_addQuestion`, `serve_updateQuestion`). Where
the texts of the requests are ones that both treat alike, every limit stored is
the decimal value of a text of digits (`limits_exact`).
-/

namespace OJ.Server

open OJ.Comm OJ.Framework OJ.CompileServer Table Handling

/-! ## The texts -/

/-- What `/addQuestion` makes of a limit. -/
def addedLimit (text : Str) : Option Int := if isValidNumber text then stoi text else none

/-- A text of digits, or one that `std::stoi` rejects as well. -/
def Alike (text : Str) : Prop := isValidNumber text = true ∨ stoi text = none

instance (text : Str) : Decidable (Alike text) := inferInstanceAs (Decidable (_ ∨ _))

/-- The decimal value of a text of digits, if that is an `int`. -/
def Exact (n : Int) : Prop := ∃ text, isValidNumber text = true ∧ n = digitsVal 0 text ∧ n < 2 ^ 31

section
variable {text : Str} {n : Int}

theorem alike_iff : addedLimit text = stoi text ↔ Alike text := by
  unfold addedLimit Alike
  by_cases h : isValidNumber text = true
  · simp [h]
  · simp [h, eq_comm]

theorem exact_of_addedLimit (h : addedLimit text = some n) : Exact n := by
  rw [addedLimit, Option.ite_none_right_eq_some] at h
  obtain ⟨hv, h⟩ := h
  rw [stoi_of_valid hv, Option.ite_none_right_eq_some] at h
  obtain ⟨hlt, h⟩ := h
  have hn := Option.some.inj h
  exact ⟨text, hv, hn.symm, by omega⟩

theorem Exact.nonneg (h : Exact n) : 0 ≤ n := by
  obtain ⟨text, -, h, -⟩ := h
  omega

theorem Exact.lt (h : Exact n) : n < 2 ^ 31 := by
  obtain ⟨-, -, -, h⟩ := h
  exact h

theorem Exact.cpu_ne (h : Exact n) : RlimT.ofInt n ≠ RLIM_INFINITY := by
  intro e
  have hval := val_ofInt h.nonneg h.lt
  have hlt := h.lt
  rw [e] at hval
  have hinf : (RLIM_INFINITY.val : Int) = 2 ^ 64 - 1 := rfl
  omega

/-- A number of bytes is a multiple of 1024. -/
theorem mem_ne (n : Int) : RlimT.ofInt (mulInt n 1024) ≠ RLIM_INFINITY := by
  intro e
  have hval : ((n * 1024).bmod (2 ^ 32) % 2 ^ 64).toNat = 2 ^ 64 - 1 := congrArg Fin.val e
  rw [Int.bmod_def] at hval
  split at hval
  · omega
  · omega

end

/-! ## The handlers -/

section
variable {L : Library} {w : World} {req : Request} {s : ServerState}

/-- What a request sends, and the server after it. -/
def outcome (x : Except Stop Reply × ServerState × List Effect) : List Stmt × ServerState :=
  (sentBy x.2.2, x.2.1)

theorem outcome_updateMysql {stmt : Stmt} {f : Bool → Handling Reply} {es : List Effect}
    (hes : sentBy es = []) (hf : ∀ ok, ∃ reply, f ok = pure reply) :
    outcome (run (sql (updateMysql w.mysql stmt) >>= f) (s, es)) = ([stmt], s.exec w.mysql stmt) := by
  choose g hg using hf
  rw [run_updateMysql_bind stmt hg, outcome, sentBy_append, hes]
  rfl

theorem serve_updateQuestion (hp : req.path = .updateQuestion) : outcome (serve L w req s) =
    match stoi (req.param "cpu_limit".toList), stoi (req.param "mem_limit".toList) with
    | some cpuLimit, some memLimit =>
      let stmt := .updateQuestion (req.param "title".toList) (req.param "star".toList)
        (req.param "desc".toList) (req.param "header".toList) (req.param "tail".toList) cpuLimit memLimit
        (req.param "number".toList)
      ([stmt], s.exec w.mysql stmt)
    | _, _ => ([], s) := by
  simp only [serve, handle, hp, handleUpdateQuestion]
  cases stoi (req.param "cpu_limit".toList) with
  | none => rfl
  | some cpuLimit =>
    cases stoi (req.param "mem_limit".toList) with
    | none => rfl
    | some memLimit => exact outcome_updateMysql rfl fun _ => ⟨_, rfl⟩

/-- A request to `/addQuestion` whose body has these texts. -/
structure AddsQuestion (L : Library) (w : World) (req : Request) (s : ServerState)
    (title star questionDesc header tail timeLimit memLimit : Str) : Prop where
  path : req.path = .addQuestion
  session : ((s.sessions req.sessionId).or w.stray).isSome
  body : ∃ jsonData, L.parseFromStream req.body = (true, jsonData) ∧
    textAt L jsonData "title" = .ok title ∧ textAt L jsonData "star" = .ok star ∧
    textAt L jsonData "question_desc" = .ok questionDesc ∧ textAt L jsonData "header" = .ok header ∧
    textAt L jsonData "tail" = .ok tail ∧ textAt L jsonData "time_limit" = .ok timeLimit ∧
    textAt L jsonData "mem_limit" = .ok memLimit

theorem run_second_ok {stray found : Option Str} {username : Str} (h : found.or stray = some username) :
    ∃ es, sentBy es = [] ∧ run (second stray found) (s, []) = (.ok username, s, es) := by
  rw [run_second]
  cases found with
  | some => exact ⟨[], rfl, by rw [show _ = username from Option.some.inj h]⟩
  | none =>
    cases stray with
    | some => exact ⟨[.strayed], rfl, by rw [show _ = username from Option.some.inj h]; rfl⟩
    | none => cases h

theorem serve_addQuestion {title star questionDesc header tail timeLimit memLimit : Str}
    (h : AddsQuestion L w req s title star questionDesc header tail timeLimit memLimit) :
    outcome (serve L w req s) =
      match addedLimit timeLimit, addedLimit memLimit with
      | some cpu, some mem =>
        let stmt := .insertQuestion title star questionDesc header tail cpu mem
        ([stmt], s.exec w.mysql stmt)
      | _, _ => ([], s) := by
  obtain ⟨username, hu⟩ := Option.isSome_iff_exists.mp h.session
  obtain ⟨jsonData, hj, h₁, h₂, h₃, h₄, h₅, h₆, h₇⟩ := h.body
  have hs : serve L w req s = run (handleAddQuestion L w req) (s, []) := by
    simp only [serve, handle, h.path]
  obtain ⟨es, hes, hsec⟩ := run_second_ok hu
  rw [hs, handleAddQuestion, run_find_bind, run_bind, hsec, hj]
  dsimp only
  rw [if_neg (by decide), run_stringAt_bind h₁, run_stringAt_bind h₂, run_stringAt_bind h₃,
    run_stringAt_bind h₄, run_stringAt_bind h₅, run_stringAt_bind h₆, run_stringAt_bind h₇, addedLimit,
    addedLimit]
  have hnone : outcome (run (pure (failure "Invalid time_limit or mem_limit value".toList)) (s, es)) =
      ([], s) := Prod.ext hes rfl
  cases hc : isValidNumber timeLimit with
  | false => exact hnone
  | true =>
    cases hm : isValidNumber memLimit with
    | false =>
      cases stoi timeLimit with
      | none => exact hnone
      | some => exact hnone
    | true =>
      cases stoi timeLimit with
      | none => exact Prod.ext hes rfl
      | some cpu =>
        cases stoi memLimit with
        | none => exact Prod.ext hes rfl
        | some mem =>
          refine outcome_updateMysql hes fun ok => ?_
          cases ok with
          | false => exact ⟨_, rfl⟩
          | true => exact ⟨_, rfl⟩

/-! ## The statements with limits -/

/-- The limits that a statement puts into a question. -/
def Stmt.limits : Stmt → Option (Int × Int)
  | insertQuestion _ _ _ _ _ timeLimit memLimit | updateQuestion _ _ _ _ _ timeLimit memLimit _ =>
    some (timeLimit, memLimit)
  | _ => none

/-- The limits sent so far were read off texts of digits. -/
def ExactIn (x : Except Stop Reply × ServerState × List Effect) : Prop :=
  ∀ stmt ∈ sentBy x.2.2, ∀ l, stmt.limits = some l → Exact l.1 ∧ Exact l.2

theorem exactIn_nothing {reply : Except Stop Reply} {es : List Effect} (h : sentBy es = []) :
    ExactIn (reply, s, es) := by
  intro stmt hstmt
  rw [h] at hstmt
  cases hstmt

theorem exactIn_one {x : Except Stop Reply × ServerState × List Effect} {stmt : Stmt} {l : Int × Int}
    (hx : sentBy x.2.2 = [stmt]) (hl : stmt.limits = some l) (h : Exact l.1 ∧ Exact l.2) : ExactIn x := by
  intro stmt' hstmt' l' hl'
  rw [hx] at hstmt'
  rw [List.mem_singleton.mp hstmt', hl] at hl'
  rwa [← Option.some.inj hl']

/-- The limits that `/addQuestion` sends. -/
theorem exactIn_addQuestion : ExactIn (run (handleAddQuestion L w req) (s, [])) := by
  have h : Added w req s (run (handleAddQuestion L w req) (s, [])) := added
  generalize run (handleAddQuestion L w req) (s, []) = x at h
  cases h with
  | nothing hq => exact exactIn_nothing hq.1
  | @sent _ es title star questionDesc header tail timeLimit memLimit cpu mem hq hv hcpu hv' hmem =>
    have hcpu : addedLimit timeLimit = some cpu := by rw [addedLimit, if_pos hv, hcpu]
    have hmem : addedLimit memLimit = some mem := by rw [addedLimit, if_pos hv', hmem]
    have hsent : sentBy (es ++ [.sent (.insertQuestion title star questionDesc header tail cpu mem)]) =
        [.insertQuestion title star questionDesc header tail cpu mem] := by
      rw [sentBy_append, hq.1]
      rfl
    exact exactIn_one hsent rfl ⟨exact_of_addedLimit hcpu, exact_of_addedLimit hmem⟩

/-- A request to `/updateQuestion` has limits that both endpoints treat alike. -/
def LimitsAlike (req : Request) : Prop := req.path = .updateQuestion →
  Alike (req.param "cpu_limit".toList) ∧ Alike (req.param "mem_limit".toList)

theorem exactIn_updateQuestion (hp : req.path = .updateQuestion) (h : LimitsAlike req) :
    ExactIn (serve L w req s) := by
  have hserve := serve_updateQuestion (L := L) (w := w) (s := s) hp
  rw [← alike_iff.mpr (h hp).1, ← alike_iff.mpr (h hp).2] at hserve
  cases hc : addedLimit (req.param "cpu_limit".toList) with
  | none =>
    rw [hc] at hserve
    have hsent : sentBy (serve L w req s).2.2 = [] := congrArg Prod.fst hserve
    exact exactIn_nothing (s := (serve L w req s).2.1) hsent
  | some cpu =>
    cases hm : addedLimit (req.param "mem_limit".toList) with
    | none =>
      rw [hc, hm] at hserve
      have hsent : sentBy (serve L w req s).2.2 = [] := congrArg Prod.fst hserve
      exact exactIn_nothing (s := (serve L w req s).2.1) hsent
    | some mem =>
      rw [hc, hm] at hserve
      exact exactIn_one (congrArg Prod.fst hserve) rfl ⟨exact_of_addedLimit hc, exact_of_addedLimit hm⟩

/-- The other requests send no limits. -/
theorem exactIn_serve (h : LimitsAlike req) : ExactIn (serve L w req s) := by
  intro stmt hstmt l hl
  have hd : Did L w req s (sentBy (serve L w req s).2.2) (serve L w req s).2.1 := did
  by_cases hu : req.path = .updateQuestion
  · exact exactIn_updateQuestion hu h stmt hstmt l hl
  by_cases ha : req.path = .addQuestion
  · have hs : serve L w req s = run (handleAddQuestion L w req) (s, []) := by
      simp only [serve, handle, ha]
    rw [hs] at hstmt
    exact exactIn_addQuestion stmt hstmt l hl
  generalize sentBy (serve L w req s).2.2 = stmts, (serve L w req s).2.1 = t at hd hstmt
  cases hd with
  | nothing | login | logout => cases hstmt
  | admin _ _ hp =>
    rw [List.mem_singleton.mp hstmt] at hl
    generalize req.path = path at hp
    cases hp with
    | _ => cases hl
  | anyone hp =>
    rw [List.mem_singleton.mp hstmt] at hl
    generalize req.path = path at hp hu ha
    cases hp with
    | register => cases hl
    | updateQuestion => exact absurd rfl hu
    | addQuestion => exact absurd rfl ha
  | progress _ _ _ _ hx =>
    rw [ProgressCall.run_stmt] at hx
    subst hx
    rw [List.mem_singleton.mp hstmt, writtenBy] at hl
    split at hl
    · cases hl
    · cases hl

end

/-- A statement leaves the limits of a question as they were, or puts its own there. -/
theorem limits_of_meaning {collate : Collation} {stmt : Stmt} {db db' : Db}
    (h : stmt.meaning collate db = some db') {q' : QuestionRow} (hq : q' ∈ db'.questions) :
    (∃ q ∈ db.questions, q.timeLimit = q'.timeLimit ∧ q.memLimit = q'.memLimit) ∨
      stmt.limits = some (q'.timeLimit, q'.memLimit) := by
  have same (e : db'.questions = db.questions) :
      ∃ q ∈ db.questions, q.timeLimit = q'.timeLimit ∧ q.memLimit = q'.memLimit :=
    ⟨q', e ▸ hq, rfl, rfl⟩
  cases stmt with
  | addUser | insertUserByAdmin =>
    obtain ⟨-, rfl⟩ := Db.of_insertUser h
    exact .inl (same rfl)
  | updateUserById =>
    obtain ⟨-, rfl⟩ := Db.of_updateUser h
    exact .inl (same rfl)
  | addUserProgress =>
    obtain ⟨-, rfl⟩ := Db.of_insertProgress h
    exact .inl (same rfl)
  | deleteUserById | updateUserProgress =>
    cases h
    exact .inl (same rfl)
  | deleteQuestion =>
    cases h
    exact .inl ⟨q', (List.mem_filter.mp hq).1, rfl, rfl⟩
  | insertQuestion =>
    cases h
    rcases List.mem_append.mp hq with hq | hq
    · exact .inl ⟨q', hq, rfl, rfl⟩
    · rw [List.mem_singleton.mp hq]
      exact .inr rfl
  | updateQuestion =>
    cases h
    obtain ⟨q, hmem, rfl⟩ := mem_update.mp hq
    split
    · exact .inr rfl
    · exact .inl ⟨q, hmem, rfl, rfl⟩

/-- The limits stored are decimal values of texts of digits. -/
def Db.LimitsExact (db : Db) : Prop := ∀ q ∈ db.questions, Exact q.timeLimit ∧ Exact q.memLimit

theorem Db.LimitsExact.step {collate : Collation} {L : Library} {s s' : ServerState} {e : Visit}
    (h : s.db.LimitsExact) (hm : e.1.mysql.Meant collate) (ha : LimitsAlike e.2)
    (hs : s.step L e = some s') : s'.db.LimitsExact := by
  rcases ServerState.db_of_step hm hs with hdb | ⟨stmt, hstmt, -, hdb⟩
  · rw [hdb]
    exact h
  obtain ⟨db₀, hskips, hdb⟩ := hdb
  intro q' hq'
  rcases limits_of_meaning hdb hq' with ⟨q, hq, ht, hm⟩ | hl
  · rw [← ht, ← hm]
    exact h q (hskips.questions ▸ hq)
  · exact exactIn_serve ha stmt hstmt _ hl

/-- In every run from an empty table whose requests to `/updateQuestion` have
limits that are texts of digits or no numbers at all, every limit stored is the
decimal value of a text of digits, and no soft limit is infinite. A text is
treated alike by both endpoints iff it is such a text; and a request is sent to
the database iff its endpoint takes both limits. -/
theorem limits_exact (L : Library) (collate : Collation) {db : Db} (h₀ : db.questions = []) :
    (∀ es s, Run (ServerState.step L) (fun s e => Meant collate s e ∧ LimitsAlike e.2) (.start db) es s →
      ∀ q ∈ s.db.questions, (Exact q.timeLimit ∧ Exact q.memLimit) ∧
        RlimT.ofInt q.timeLimit ≠ RLIM_INFINITY ∧ RlimT.ofInt (mulInt q.memLimit 1024) ≠ RLIM_INFINITY) ∧
    (∀ text, addedLimit text = stoi text ↔ Alike text) ∧
    (∀ w req s, req.path = .updateQuestion → (sentBy (serve L w req s).2.2 ≠ [] ↔
      (stoi (req.param "cpu_limit".toList)).isSome ∧ (stoi (req.param "mem_limit".toList)).isSome)) ∧
    ∀ w req s title star questionDesc header tail timeLimit memLimit,
      AddsQuestion L w req s title star questionDesc header tail timeLimit memLimit →
      (sentBy (serve L w req s).2.2 ≠ [] ↔ (addedLimit timeLimit).isSome ∧ (addedLimit memLimit).isSome) := by
  refine ⟨fun es s h q hq => ?_, fun _ => alike_iff, fun w req s hp => ?_,
    fun w req s title star questionDesc header tail timeLimit memLimit h => ?_⟩
  · have hs : s.db.LimitsExact := by
      refine h.inv (I := fun s => s.db.LimitsExact) (fun s e s' hs hc hstep => hs.step hc.1 hc.2 hstep) ?_
      intro q hq
      rw [show (ServerState.start db).db.questions = [] from h₀] at hq
      cases hq
    exact ⟨hs q hq, (hs q hq).1.cpu_ne, mem_ne _⟩
  · have hserve : sentBy (serve L w req s).2.2 = _ := congrArg Prod.fst (serve_updateQuestion hp)
    rw [hserve]
    cases stoi (req.param "cpu_limit".toList) with
    | none => simp
    | some cpu =>
      cases stoi (req.param "mem_limit".toList) with
      | none => simp
      | some mem => simp
  · have hserve : sentBy (serve L w req s).2.2 = _ := congrArg Prod.fst (serve_addQuestion h)
    rw [hserve]
    cases addedLimit timeLimit with
    | none => simp
    | some cpu =>
      cases addedLimit memLimit with
      | none => simp
      | some mem => simp

/-! A question is added, and its limit on CPU time is changed. -/

/-- Libraries that read this question. -/
def Library.adding : Library :=
  { Library.sample with
    parseFromStream := fun _ => (true, .obj [("title".toList, .str "sum".toList),
      ("star".toList, .str "easy".toList), ("time_limit".toList, .str "1".toList),
      ("mem_limit".toList, .str "50000".toList)]) }

def Request.limit (cpuLimit : String) : Request :=
  ⟨.updateQuestion, [], [("number".toList, "1".toList), ("title".toList, "sum".toList),
    ("star".toList, "easy".toList), ("cpu_limit".toList, cpuLimit.toList),
    ("mem_limit".toList, "50000".toList)], [], []⟩

/-- `bob` registers, logs in, adds a question and changes its limit. -/
def changed (cpuLimit : String) : List Visit :=
  [(.k, .bob .register), (.k, .bob .login), (.k, .bob .addQuestion), (.k, .limit cpuLimit)]

theorem run_changed (cpuLimit : String) (n : Int)
    (hn : (replay (ServerState.step .adding) Free (.start ⟨[], [], [], 1, 1, 1⟩) (changed cpuLimit)).map
      (fun s => s.db.questions.map (·.timeLimit)) = some [n]) :
    ∃ s q, Run (ServerState.step .adding) Free (.start ⟨[], [], [], 1, 1, 1⟩) (changed cpuLimit) s ∧
      q ∈ s.db.questions ∧ q.timeLimit = n := by
  obtain ⟨s, hs, hq⟩ := Option.map_eq_some_iff.mp hn
  obtain ⟨q, hmem, he⟩ := List.mem_map.mp (hq ▸ List.mem_singleton_self n)
  exact ⟨s, q, .of_replay hs, hmem, he⟩

theorem limits_exact_two : ∃ s q, Run (ServerState.step .adding) Free (.start ⟨[], [], [], 1, 1, 1⟩)
    (changed "2") s ∧ q ∈ s.db.questions ∧ q.timeLimit = 2 ∧ Exact q.timeLimit := by
  obtain ⟨s, q, h, hq, he⟩ := run_changed "2" 2 (by decide +kernel)
  refine ⟨s, q, h, hq, he, ((limits_exact .adding id rfl).1 _ s (h.mono_mem fun e he s _ => ?_) q hq).1.1⟩
  simp only [changed, List.mem_cons, List.not_mem_nil, or_false] at he
  rcases he with rfl | rfl | rfl | rfl
  · exact ⟨MySQL.exact_meant id, fun hp => by cases hp⟩
  · exact ⟨MySQL.exact_meant id, fun hp => by cases hp⟩
  · exact ⟨MySQL.exact_meant id, fun hp => by cases hp⟩
  · exact ⟨MySQL.exact_meant id, fun _ => by decide⟩

/-- `/updateQuestion` takes `-1`: no limit at all. -/
theorem not_limits_exact : ∃ s q, Run (ServerState.step .adding) (Meant id) (.start ⟨[], [], [], 1, 1, 1⟩)
    (changed "-1") s ∧ q ∈ s.db.questions ∧ ¬ Exact q.timeLimit ∧
    RlimT.ofInt q.timeLimit = RLIM_INFINITY := by
  obtain ⟨s, q, h, hq, he⟩ := run_changed "-1" (-1) (by decide +kernel)
  refine ⟨s, q, h.mono_mem fun e he s _ => ?_, hq, fun hx => ?_, ?_⟩
  · simp only [changed, List.mem_cons, List.not_mem_nil, or_false] at he
    rcases he with rfl | rfl | rfl | rfl <;> exact MySQL.exact_meant id
  · have := hx.nonneg
    omega
  · rw [he]
    decide

end OJ.Server
