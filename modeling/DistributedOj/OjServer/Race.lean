import DistributedOj.Framework.ReadWrite
import DistributedOj.OjServer.Progress

/-!
# Concurrent calls

The calls of `UserProgressControl` for one user and one question, each as its
`SELECT` and its `INSERT` or `UPDATE` (`progressOps`). If a call that writes
would read again what it has read, the calls do what they do in turn
(`progress_in_turn`); if not, attempts and completions can be lost
(`not_in_turn`).
-/

namespace OJ.Server

open OJ.Comm OJ.Framework

/-- The two steps of each call. -/
def progressOps (m : MySQL) (clock : Clock) (userId questionId : Int) :
    ReadWrite ProgressCall (Db × List Stmt) (Bool × UserProgress) Bool where
  look _ s :=
    ((queryProgress m clock userId questionId (.new userId questionId)).run s).1
  write c found s := (writeBack m clock c.touch found).run s

/-- Calls under way on the tables. -/
abbrev Calls := Shared ProgressCall (Db × List Stmt) (Bool × UserProgress) Bool

section
variable {m : MySQL} {clock : Clock} {userId questionId : Int}

/-- A call is its two steps. -/
theorem ProgressCall.run_eq_write (c : ProgressCall) (s : Db × List Stmt) :
    (c.run m clock userId questionId).run s = (progressOps m clock userId questionId).write c
      ((progressOps m clock userId questionId).look c s) s := by
  rw [c.run_eq, touchAndStore, Stateful.run_bind]
  exact congrArg _ (run_queryProgress_state m clock userId questionId _ s)

theorem inTurn_progressOps (calls : List ProgressCall) (s : Db × List Stmt) :
    (progressOps m clock userId questionId).inTurn calls s =
      (runCalls m clock userId questionId calls).run s := by
  induction calls generalizing s with
  | nil => rfl
  | cons c calls ih =>
    rw [ReadWrite.inTurn, runCalls, Stateful.run_bind, Stateful.run_bind, c.run_eq_write]
    simp only [ih]
    rfl

/-- If every write happens where the call would read again what it has read,
the calls that are done did what they do in turn, in some order. -/
theorem progress_in_turn {calls : List ProgressCall} {db : Db} {es : List ReadWriteEvent}
    {s : Calls} (h : Run (Shared.step (progressOps m clock userId questionId))
      (Shared.Fresh (progressOps m clock userId questionId)) (.start calls (db, [])) es s) :
    ∃ order : List (ProgressCall × Bool), order.Perm s.finished ∧
      (runCalls m clock userId questionId (order.map Prod.fst)).run (db, []) = (order, s.store) ∧
      ((∀ x ∈ s.threads, x.2.result.isSome) → (order.map Prod.fst).Perm calls) := by
  obtain ⟨order, hperm, horder⟩ := h.in_turn
  refine ⟨order, hperm, (inTurn_progressOps _ _).symm.trans horder, fun hdone => ?_⟩
  calc (order.map Prod.fst).Perm (s.finished.map Prod.fst) := hperm.map _
    _ = s.threads.map Prod.fst := Shared.finished_map_fst hdone
    _ = calls := Shared.ops_eq h

end

/-- The sample with a first attempt. -/
def Db.attempted : Db :=
  { Db.sample with
    progress := [⟨1, 1, 7, false, "1970-01-01 00:00:00".toList, 1⟩]
    nextProgress := 2 }

abbrev sampleOps := progressOps (.exact id) .utc 1 7

def twoCalls : List ProgressCall := [.setCompleted 1700000000, .addOrUpdateUserProgress]

theorem progress_in_turn_two : ∃ (s : Calls) (order : List (ProgressCall × Bool)),
    s.store.1.progressOf 1 7 = [⟨1, 1, 7, true, "2023-11-14 22:13:20".toList, 3⟩] ∧
    order.Perm s.finished ∧
    (runCalls (.exact id) .utc 1 7 (order.map Prod.fst)).run (.attempted, []) = (order, s.store) ∧
    ((∀ x ∈ s.threads, x.2.result.isSome) → (order.map Prod.fst).Perm twoCalls) := by
  have hrun : ∃ s, replay (Shared.step sampleOps) (Shared.Fresh sampleOps)
      (.start twoCalls (.attempted, [])) [.look 0, .write 0, .look 1, .write 1] = some s ∧
        s.store.1.progressOf 1 7 = [⟨1, 1, 7, true, "2023-11-14 22:13:20".toList, 3⟩] := by
    decide +kernel
  obtain ⟨s, hs, hrow⟩ := hrun
  obtain ⟨order, h⟩ := progress_in_turn (.of_replay hs)
  exact ⟨s, order, hrow, h⟩

/-- A completion that both calls report is overwritten, and an attempt lost. -/
theorem not_in_turn : ∃ es s, Run (Shared.step sampleOps) Free
      (.start twoCalls (.attempted, [])) es s ∧
    s.finished = [(.setCompleted 1700000000, true), (.addOrUpdateUserProgress, true)] ∧
    s.store.1.progressOf 1 7 = [⟨1, 1, 7, false, "1970-01-01 00:00:00".toList, 2⟩] ∧
    ∀ order, order.Perm twoCalls →
      ((runCalls (.exact id) .utc 1 7 order).run (.attempted, [])).2.1.progressOf 1 7 ≠
        s.store.1.progressOf 1 7 := by
  have hrun : ∃ s, replay (Shared.step sampleOps) Free
      (.start twoCalls (.attempted, [])) [.look 0, .look 1, .write 0, .write 1] = some s ∧
        s.finished = [(.setCompleted 1700000000, true), (.addOrUpdateUserProgress, true)] ∧
        s.store.1.progressOf 1 7 = [⟨1, 1, 7, false, "1970-01-01 00:00:00".toList, 2⟩] := by
    decide +kernel
  obtain ⟨s, hs, hdone, hrow⟩ := hrun
  refine ⟨_, s, .of_replay hs, hdone, hrow, fun order horder => ?_⟩
  have hall : ∀ order ∈ twoCalls.permutations',
      ((runCalls (.exact id) .utc 1 7 order).run (.attempted, [])).2.1.progressOf 1 7 ≠
        [⟨1, 1, 7, false, "1970-01-01 00:00:00".toList, 2⟩] := by
    decide +kernel
  rw [hrow]
  exact hall order (List.mem_permutations'.mpr horder)

end OJ.Server
