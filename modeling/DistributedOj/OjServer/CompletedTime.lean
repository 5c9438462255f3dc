import DistributedOj.Comm.Times
import DistributedOj.OjServer.Progress

/-!
# `completed_time` over a submission

`AddOrUpdateUserProgress` reads the time of a row and writes it back, through
a `struct tm` of which `convertStringToTimeT` sets six fields. The time is the
same iff what `tm_isdst` held before is not positive (`keepsTime_iff`); else the
row goes back by an hour with each submission (`run_addOrUpdateUserProgress`).
-/

namespace OJ.Server

open OJ.Comm OJ.Framework Table

/-- `StringUtil` at an offset from UTC, with what the `struct tm` holds at first. -/
def Clock.wall (offset : Int) (tm : Tm) : Clock where
  timeToString t := unquote (OJ.Comm.timeToString offset t)
  convertStringToTimeT := OJ.Comm.convertStringToTimeT offset tm

/-- The row is read as one of the time `t`, and a call leaves its `completed_time`
as it is. -/
def KeepsTime (collate : Collation) (clock : Clock) (db : Db) (r : ProgressRow) (up : UserProgress)
    (t : Int) : Prop :=
  (r.read clock).completedTime = t ∧
    ∃ r', ((addOrUpdateUserProgress (.exact collate) clock up).run (db, [])).2.1.progressOf
      r.userId r.questionId = [r'] ∧ r'.completedTime = r.completedTime

section
variable {collate : Collation} {db : Db} {r : ProgressRow} {up : UserProgress}

/-- The row after a call. -/
theorem run_addOrUpdateUserProgress (h : db.Ok collate) (hr : r ∈ db.progress) (clock : Clock)
    (hup : (up.userId, up.questionId) = r.key) :
    ((addOrUpdateUserProgress (.exact collate) clock up).run (db, [])).2.1.progressOf
      r.userId r.questionId = [r.stored clock (·.attempted)] := by
  obtain ⟨huser, hquestion⟩ := Prod.mk.inj hup
  have hrow : db.progressOf r.userId r.questionId = [r] := h.progress.rowsWith_eq hr
  have hne : (r.progressId != 0) = true := by simpa using (h.progress_pos r hr).ne'
  have hrun : ((addOrUpdateUserProgress (.exact collate) clock up).run (db, [])).2.1 =
      db.store clock (r.read clock).attempted := by
    simp only [addOrUpdateUserProgress, touchAndStore, Stateful.run_bind, huser, hquestion,
      run_queryProgress, hrow]
    simp only [writeBack, hne, if_true, updateUserProgress, run_updateMysql, MySQL.exact, Stmt.meaning]
    rfl
  have hstores : Stores clock r.userId r.questionId ProgressCall.addOrUpdateUserProgress.touch db true
      (db.store clock (r.read clock).attempted) := .update hrow
  rw [hrun]
  rcases hstores.progressOf with ⟨r', e, -, e'⟩ | ⟨e, -⟩ | ⟨e, -⟩
  · rw [hrow] at e
    rw [e', ← (List.cons.inj e).1]
    rfl
  · rw [hrow] at e
    cases e
  · rw [hrow] at e
    cases e

/-- A call leaves the time of a row as it is iff what `tm_isdst` held before is
not positive. -/
theorem keepsTime_iff (h : db.Ok collate) (hr : r ∈ db.progress)
    (hup : (up.userId, up.questionId) = r.key) {offset t : Int} (ht : Representable offset t)
    (hrow : r.completedTime = unquote (timeToString offset t)) (tm : Tm) :
    KeepsTime collate (.wall offset tm) db r up t ↔ tm.tmIsdst ≤ 0 := by
  have hread : (r.read (.wall offset tm)).completedTime = t - if tm.tmIsdst > 0 then 3600 else 0 := by
    show convertStringToTimeT offset tm r.completedTime = _
    rw [hrow, convertStringToTimeT_timeToString ht]
  rw [KeepsTime, hread]
  constructor
  · rintro ⟨e, -⟩
    by_contra hpos
    rw [if_pos (Int.not_le.mp hpos)] at e
    omega
  · intro hle
    rw [if_neg (Int.not_lt.mpr hle), sub_zero] at hread ⊢
    refine ⟨rfl, _, run_addOrUpdateUserProgress h hr _ hup, ?_⟩
    show unquote (timeToString offset (r.read (.wall offset tm)).completedTime) = _
    rw [hread, hrow]

end

/-- A question completed in the morning of 2023-11-15, eight hours ahead of UTC. -/
def ProgressRow.morning : ProgressRow := ⟨1, 1, 7, true, "2023-11-15 06:13:20".toList, 1⟩

def Db.completedOnce : Db := { Db.sample with progress := [.morning], nextProgress := 2 }

theorem Db.completedOnce_ok : Db.completedOnce.Ok id :=
  ⟨by decide, by decide, by decide, by decide, by decide, by decide⟩

/-- A `struct tm` of zeros, but for `tm_isdst`. -/
def leftOver (tmIsdst : Int) : Tm := ⟨0, 0, 0, 0, 0, 0, 0, 0, tmIsdst⟩

theorem ProgressRow.morning_time :
    ProgressRow.morning.completedTime = unquote (timeToString 28800 1700000000) := by
  decide +kernel

theorem keepsTime_iff_morning :
    KeepsTime id (.wall 28800 (leftOver 0)) .completedOnce .morning (.new 1 7) 1700000000 :=
  (keepsTime_iff Db.completedOnce_ok (List.mem_singleton_self _) rfl (by decide +kernel)
    ProgressRow.morning_time _).mpr le_rfl

/-- With a positive number in `tm_isdst` the row is an hour earlier after the
call. -/
theorem not_keepsTime :
    ((addOrUpdateUserProgress (.exact id) (.wall 28800 (leftOver 1)) (.new 1 7)).run
        (.completedOnce, [])).2.1.progress.map (·.completedTime) = ["2023-11-15 05:13:20".toList] ∧
      ¬ KeepsTime id (.wall 28800 (leftOver 1)) .completedOnce .morning (.new 1 7) 1700000000 := by
  refine ⟨by decide +kernel, fun h => ?_⟩
  have hread : (ProgressRow.morning.read (.wall 28800 (leftOver 1))).completedTime = 1699996400 := by
    decide +kernel
  exact absurd (hread.symm.trans h.1) (by decide)

end OJ.Server
