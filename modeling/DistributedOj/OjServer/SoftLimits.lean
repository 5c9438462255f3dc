import DistributedOj.CompileServer.Cleanup
import DistributedOj.OjServer.Limits

/-!
# The limits from `/addQuestion` to `SetProcLimit`

The limits that `/addQuestion` takes are those of the new row, of what `Judge`
posts and of what `Start` reads (`journey`); so `SetProcLimit` gets them
unchanged, and sets them iff they are `Settable` (`soft_limits_iff`).
-/

namespace OJ.Server

open OJ.Comm OJ.Framework OJ.CompileServer

section
variable {parse : Str → Except JsonException (Bool × Json)} {realText : Float → Str} {write : Json → Str} {m : MySQL} {db : Db}
  {number inJson code input : Str} {q : QuestionRow}

theorem asInt_of_exact {n : Int} (h : Exact n) : (Json.int n).asInt = .ok n := by
  have := h.nonneg
  have := h.lt
  rw [Json.asInt, if_pos ⟨by omega, by omega⟩]

/-- `Start` reads the limits that were put into the text. -/
theorem readSubmission_compileValue (hc : Exact q.timeLimit) (hm : Exact q.memLimit)
    (hrt : parse (write (compileValue q.read code input)) = .ok (true, compileValue q.read code input)) :
    readSubmission (.documented parse realText) (write (compileValue q.read code input)) =
      .ok ⟨code ++ "\n".toList ++ q.tail, input, q.timeLimit, q.memLimit⟩ := by
  have hcpu := asInt_of_exact hc
  have hmem := asInt_of_exact hm
  simp only [readSubmission, JsonReader.documented, hrt]
  show (do
    let cpuLimit ← (Json.int q.timeLimit).asInt
    let memLimit ← (Json.int q.memLimit).asInt
    Except.ok (⟨code ++ "\n".toList ++ q.tail, input, cpuLimit, memLimit⟩ : Submission)) = _
  rw [hcpu, hmem]
  rfl

/-- The limits of a question reach `SetProcLimit`. -/
theorem journey {J : JsonReader} (hc : Exact q.timeLimit) (hm : Exact q.memLimit)
    (hq : m.question number db = some [q]) (ht : requestTexts J inJson = .ok (code, input))
    (hrt : parse (write (compileValue q.read code input)) = .ok (true, compileValue q.read code input)) :
    ∃ body sub, compileString J write m db number inJson = .ok body ∧
      readSubmission (.documented parse realText) body = .ok sub ∧
      sub.cpuLimit = q.timeLimit ∧ sub.memLimit = q.memLimit := by
  refine ⟨_, _, ?_, readSubmission_compileValue hc hm hrt, rfl, rfl⟩
  rw [compileString, ht, getOneQuestion, hq]
  rfl

end

section
variable {L : Library} {w : World} {req : Request} {s : ServerState}
  {title star questionDesc header tail timeLimit memLimit : Str}

/-- The row that `/addQuestion` adds. -/
theorem row_addQuestion {collate : Collation}
    (h : AddsQuestion L w req s title star questionDesc header tail timeLimit memLimit)
    (hw : w.mysql = .exact collate) {cpu mem : Int} (hc : addedLimit timeLimit = some cpu)
    (hm : addedLimit memLimit = some mem) :
    (serve L w req s).2.1.db.questions =
      s.db.questions ++ [⟨s.db.nextQuestion, title, star, questionDesc, header, tail, cpu, mem⟩] := by
  have hs := congrArg Prod.snd (serve_addQuestion h)
  rw [hc, hm, hw] at hs
  have ht : (serve L w req s).2.1 = _ := hs
  rw [ht]
  rfl

/-- Every pair of limits that `/addQuestion` takes goes unchanged into the new row
and, whenever `Judge` reads that row, through the text it posts to `SetProcLimit`,
which sets a soft limit of `cpu` seconds and `mem * 1024` bytes iff it may raise
the hard limits and `mem` is less than `2 ^ 21`, or the soft limits were those. -/
theorem soft_limits_iff {collate : Collation}
    (h : AddsQuestion L w req s title star questionDesc header tail timeLimit memLimit)
    (hw : w.mysql = .exact collate) {cpu mem : Int} (hc : addedLimit timeLimit = some cpu)
    (hm : addedLimit memLimit = some mem) :
    ∃ q : QuestionRow, (serve L w req s).2.1.db.questions = s.db.questions ++ [q] ∧
      ∀ (J : JsonReader) parse realText write m db number inJson code input,
        m.question number db = some [q] → requestTexts J inJson = .ok (code, input) →
        parse (write (compileValue q.read code input)) = .ok (true, compileValue q.read code input) →
        ∃ body sub, compileString J write m db number inJson = .ok body ∧
          readSubmission (.documented parse realText) body = .ok sub ∧
          ∀ privileged p, (setProcLimit privileged sub.cpuLimit sub.memLimit p).Soft cpu mem ↔
            Settable privileged cpu mem p := by
  have hcpu := exact_of_addedLimit hc
  have hmem := exact_of_addedLimit hm
  refine ⟨_, row_addQuestion h hw hc hm, fun J parse realText write m db number inJson code input hq ht hrt => ?_⟩
  obtain ⟨body, sub, hb, hs, h₁, h₂⟩ := journey hcpu hmem hq ht hrt
  refine ⟨body, sub, hb, hs, fun privileged p => ?_⟩
  rw [h₁, h₂]
  exact setProcLimit_iff hcpu.nonneg hcpu.lt hmem.nonneg hmem.lt privileged p

end

/-! A question is added with a limit on memory, and judged. -/

/-- Libraries that read a question with this limit. -/
def Library.withLimit (memLimit : Str) : Library :=
  { Library.sample with
    parseFromStream := fun _ => (true, .obj [("title".toList, .str "sum".toList),
      ("star".toList, .str "easy".toList), ("time_limit".toList, .str "1".toList),
      ("mem_limit".toList, .str memLimit)]) }

/-- `bob` is logged in. -/
def ServerState.bob : ServerState :=
  ⟨fun sessionId => if sessionId = List.replicate 32 'k' then some "bob".toList else none,
    ⟨[⟨2, "bob".toList, "8fe4c11451281c094a6578e6ddbf5eed".toList, [], 0⟩], [], [], 3, 1, 1⟩⟩

theorem adds_withLimit (memLimit : Str) : AddsQuestion (.withLimit memLimit) .k (.bob .addQuestion) .bob
    "sum".toList "easy".toList [] [] [] "1".toList memLimit :=
  ⟨rfl, by decide +kernel, _, rfl, rfl, rfl, rfl, rfl, rfl, rfl, rfl⟩

/-- The new row. -/
def Submitted.added (memLimit : Int) : QuestionRow :=
  ⟨1, "sum".toList, "easy".toList, [], [], [], 1, memLimit⟩

/-- A request without code, and the text of what is posted for it. -/
def Submitted.posted (memLimit : Int) : Str :=
  "\x7b\"code\":\"\\n\",\"cpu_limit\":1,\"input\":\"\",\"mem_limit\":".toList ++ toStringI memLimit ++
    "\x7d\n".toList

theorem soft_limits_iff_small : ∃ body sub,
    compileString Library.sample.reader (fun _ => Submitted.posted 50000) (.exact id)
      (Submitted.store [Submitted.added 50000]) "1".toList "null".toList = .ok body ∧
    readSubmission (.documented (fun _ => .ok (true, compileValue (Submitted.added 50000).read [] [])) fun _ => [])
      body = .ok sub ∧
    (setProcLimit false sub.cpuLimit sub.memLimit (.start RLIM_INFINITY RLIM_INFINITY)).Soft 1 50000 := by
  obtain ⟨q, hq, hall⟩ := soft_limits_iff (adds_withLimit "50000".toList) rfl
    (show addedLimit "1".toList = some 1 by decide) (show addedLimit "50000".toList = some 50000 by decide)
  have hrow := row_addQuestion (adds_withLimit "50000".toList) rfl
    (show addedLimit "1".toList = some 1 by decide) (show addedLimit "50000".toList = some 50000 by decide)
  rw [hrow] at hq
  obtain rfl : Submitted.added 50000 = q := List.singleton_inj.mp (List.append_cancel_left hq)
  obtain ⟨body, sub, hb, hs, hiff⟩ := hall Library.sample.reader
    (fun _ => .ok (true, compileValue (Submitted.added 50000).read [] [])) (fun _ => [])
    (fun _ => Submitted.posted 50000) (.exact id) (Submitted.store [Submitted.added 50000]) "1".toList
    "null".toList [] [] (by decide +kernel) rfl rfl
  exact ⟨body, sub, hb, hs, (hiff false _).mpr ⟨.inl (.inr le_rfl), .inl ⟨.inr le_rfl, by decide⟩⟩⟩

/-- The default of the schema: a soft limit of 787 MB in place of 4.8 GB. -/
theorem not_soft_limits : ∃ q body sub,
    (serve (.withLimit "5000000".toList) .k (.bob .addQuestion) .bob).2.1.db.questions = [q] ∧
    compileString Library.sample.reader (fun _ => Submitted.posted 5000000) (.exact id)
      (Submitted.store [q]) "1".toList "null".toList = .ok body ∧
    readSubmission (.documented (fun _ => .ok (true, compileValue q.read [] [])) fun _ => []) body = .ok sub ∧
    (setProcLimit false sub.cpuLimit sub.memLimit
      (.start RLIM_INFINITY RLIM_INFINITY)).memRlimit.cur.val = 825032704 ∧
    ¬ (setProcLimit false sub.cpuLimit sub.memLimit (.start RLIM_INFINITY RLIM_INFINITY)).Soft 1 5000000 := by
  have hrow := row_addQuestion (adds_withLimit "5000000".toList) rfl
    (show addedLimit "1".toList = some 1 by decide) (show addedLimit "5000000".toList = some 5000000 by decide)
  have hcpu : Exact 1 := ⟨"1".toList, by decide, by decide, by decide⟩
  have hmem : Exact 5000000 := ⟨"5000000".toList, by decide, by decide, by decide⟩
  obtain ⟨body, sub, hb, hs, h₁, h₂⟩ := @journey
    (fun _ => .ok (true, compileValue (Submitted.added 5000000).read [] [])) (fun _ => [])
    (fun _ => Submitted.posted 5000000) (.exact id) (Submitted.store [Submitted.added 5000000]) "1".toList
    "null".toList [] [] (Submitted.added 5000000) Library.sample.reader hcpu hmem (by decide +kernel) rfl rfl
  have hval : (setProcLimit false sub.cpuLimit sub.memLimit
      (.start RLIM_INFINITY RLIM_INFINITY)).memRlimit.cur.val = 825032704 := by
    rw [h₁, h₂]
    decide
  refine ⟨_, body, sub, hrow, hb, hs, hval, fun hsoft => ?_⟩
  have := hsoft.2
  omega

end OJ.Server
