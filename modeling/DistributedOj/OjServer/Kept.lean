import DistributedOj.OjServer.Attempts
import DistributedOj.OjServer.StoreRefines
import DistributedOj.OjServer.Verdicts

/-!
# Progress is kept

In any run of requests handled one after another, whoever sends them and whatever
MySQL fails to do, a row of `UserProgress` is there until its user or its question
is deleted. It stays completed once it is, and its count goes up with requests for
its question alone, by one for each at most (`ServerState.progress_kept`). Two
handlers at once can undo this (module `Race`).
-/

namespace OJ.Server

open OJ.Comm OJ.Framework Table

/-- A request to `/judge` or `/setCompleted` for a question. -/
def Path.tries (questionId : Int) : Path → Bool
  | judge number | setCompleted number => stoi number.val = some questionId
  | _ => false

/-- `attemptCount++`. -/
def nextCount (n : Int) : Int := (n + 1).bmod (2 ^ 32)

/-- `r'` is the row `r` after `n` attempts. -/
structure ProgressRow.After (n : Nat) (r r' : ProgressRow) : Prop where
  progressId : r'.progressId = r.progressId
  key : r'.key = r.key
  completed : r.isCompleted → r'.isCompleted
  count : r'.attemptCount = nextCount^[n] r.attemptCount

/-- The row `r` is still there, after `n` attempts at most, or one of those that
it refers to has been deleted. -/
def Db.Keeps (r : ProgressRow) (n : Nat) (db : Db) : Prop :=
  r.userId ∈ db.Deleted.1 ∨ r.questionId ∈ db.Deleted.2 ∨ ∃ r' ∈ db.progress, ∃ k ≤ n, r.After k r'

section
variable {collate : Collation} {r r' r'' : ProgressRow} {db db' : Db} {stmt : Stmt} {n k : Nat}

theorem ProgressRow.After.refl (r : ProgressRow) : r.After 0 r := ⟨rfl, rfl, id, rfl⟩

theorem ProgressRow.After.trans (h : r.After n r') (h' : r'.After k r'') : r.After (k + n) r'' where
  progressId := h'.progressId.trans h.progressId
  key := h'.key.trans h.key
  completed := h'.completed ∘ h.completed
  count := by rw [h'.count, h.count, Function.iterate_add_apply]

theorem ProgressRow.After.stored (clock : Clock) (c : ProgressCall) (r : ProgressRow) :
    r.After 1 (r.stored clock c.touch) where
  progressId := rfl
  key := rfl
  completed h := by
    cases c with
    | setCompleted => rfl
    | addOrUpdateUserProgress => exact h
  count := ProgressRow.stored_attemptCount clock c r

/-- What happens to a row under a statement that does not update progress. -/
theorem Db.Sound.keeps_row (h : db.Sound collate) (hr : r ∈ db.progress)
    (hdb : stmt.Does collate db db')
    (hno : ∀ isCompleted time count u q, stmt ≠ .updateUserProgress isCompleted time count u q) :
    db'.Keeps r 0 := by
  have here (hr : r ∈ db'.progress) : db'.Keeps r 0 := .inr (.inr ⟨r, hr, 0, le_rfl, .refl r⟩)
  obtain ⟨db₀, hskips, hdb⟩ := hdb
  have h := h.skips hskips
  have hr : r ∈ db₀.progress := hskips.progress ▸ hr
  obtain ⟨⟨u, hu, hui⟩, q, hq, hqi⟩ := h.known hr
  cases stmt with
  | addUser | insertUserByAdmin =>
    obtain ⟨-, rfl⟩ := Db.of_insertUser hdb
    exact here hr
  | updateUserById =>
    obtain ⟨-, rfl⟩ := Db.of_updateUser hdb
    exact here hr
  | addUserProgress =>
    obtain ⟨-, rfl⟩ := Db.of_insertProgress hdb
    exact here (List.mem_append_left _ hr)
  | insertQuestion | updateQuestion =>
    cases hdb
    exact here hr
  | deleteUserById userid =>
    cases hdb
    by_cases e : some r.userId = idOf userid
    · refine .inl ⟨hui ▸ h.userid_lt u hu, fun v hv hvi => ?_⟩
      obtain ⟨-, hne⟩ := List.mem_filter.mp hv
      exact of_decide_eq_true hne (hvi ▸ e)
    · exact here (List.mem_filter.mpr ⟨hr, decide_eq_true e⟩)
  | deleteQuestion id =>
    cases hdb
    by_cases e : some r.questionId = idOf id
    · have hlt : q.id < db₀.nextQuestion := h.store.problems_lt q.id (toMap_ne_none.mpr ⟨q, hq, rfl⟩)
      refine .inr (.inl ⟨hqi ▸ hlt, fun v hv hvi => ?_⟩)
      obtain ⟨-, hne⟩ := List.mem_filter.mp hv
      exact of_decide_eq_true hne (hvi ▸ e)
    · exact here (List.mem_filter.mpr ⟨hr, decide_eq_true e⟩)
  | updateUserProgress => exact absurd rfl (hno _ _ _ _ _)

/-- What a call of `UserProgressControl` writes back is its own row, one attempt
later. -/
theorem Db.Sound.keeps_row_of_call {m : MySQL} {clock : Clock} {userId questionId : Int} {c : ProgressCall}
    (h : db.Sound collate) (hm : m.Meant collate) (hr : r ∈ db.progress)
    (hdb : (writtenBy clock c.touch (ProgressCall.found m clock userId questionId db)).Does
      collate db db') : db'.Keeps r (decide (r.questionId = questionId)).toNat := by
  generalize hf : ProgressCall.found m clock userId questionId db = found at hdb
  have hcases := found_cases clock userId questionId db hm
  rw [hf] at hcases
  have mono {n : Nat} (hk : db'.Keeps r 0) : db'.Keeps r n := by
    obtain hd | hd | ⟨r', hr', k, hk, hafter⟩ := hk
    · exact .inl hd
    · exact .inr (.inl hd)
    · exact .inr (.inr ⟨r', hr', k, hk.trans (Nat.zero_le n), hafter⟩)
  rcases hcases with rfl | ⟨r₀, hr₀, hk₀, e⟩
  · rw [writtenBy, if_neg Bool.false_ne_true] at hdb
    exact mono (h.keeps_row hr hdb fun _ _ _ _ _ e => by cases e)
  · rw [writtenBy, e] at hdb
    split at hdb
    · obtain ⟨db₀, hskips, hdb⟩ := hdb
      have hr : r ∈ db₀.progress := hskips.progress ▸ hr
      cases hdb
      by_cases hkey : r.key = (userId, questionId)
      · obtain rfl : r = r₀ := h.toOk.progress.inj (hskips.progress ▸ hr) hr₀ (hkey.trans hk₀.symm)
        have hq : r.questionId = questionId := congrArg Prod.snd hkey
        refine .inr (.inr ⟨r.stored clock c.touch, ?_, 1, by rw [hq]; simp, .stored clock c r⟩)
        refine mem_update.mpr ⟨r, hr, ?_⟩
        rw [if_pos (decide_eq_true (by rw [c.touch_userId, c.touch_questionId]; rfl))]
        rfl
      · refine mono (.inr (.inr ⟨r, mem_update.mpr ⟨r, hr, ?_⟩, 0, le_rfl, .refl r⟩))
        rw [if_neg]
        intro hk
        refine hkey ((of_decide_eq_true hk).trans ?_)
        rw [c.touch_userId, c.touch_questionId]
        exact hk₀
    · exact mono (h.keeps_row hr hdb fun _ _ _ _ _ e => by cases e)

end

section
variable {collate : Collation} {L : Library} {w : World} {req : Request} {s s' t : ServerState}
  {stmts : List Stmt} {e : Visit} {es : List Visit} {r : ProgressRow} {n : Nat}

theorem ServerState.sound_of_step (h : s.db.Sound collate) (hm : e.1.mysql.Meant collate)
    (hs : s.step L e = some s') : s'.db.Sound collate := by
  rcases db_of_step hm hs with hdb | ⟨stmt, -, -, hdb⟩
  · rw [hdb]
    exact h
  · exact h.does hdb

/-- A request keeps a row, after one attempt at most. -/
theorem Did.keeps_row (h : Did L w req s stmts s') (hm : w.mysql.Meant collate) (hs : s.db.Sound collate)
    (hr : r ∈ s.db.progress) : s'.db.Keeps r (req.path.tries r.questionId).toNat := by
  have mono {db : Db} (hk : db.Keeps r 0) : db.Keeps r (req.path.tries r.questionId).toNat := by
    obtain hd | hd | ⟨r', hr', k, hk, hafter⟩ := hk
    · exact .inl hd
    · exact .inr (.inl hd)
    · exact .inr (.inr ⟨r', hr', k, hk.trans (Nat.zero_le _), hafter⟩)
  have same {db : Db} (e : db = s.db) : db.Keeps r (req.path.tries r.questionId).toNat :=
    mono (.inr (.inr ⟨r, e ▸ hr, 0, le_rfl, .refl r⟩))
  cases h with
  | nothing | login | logout => exact same rfl
  | @admin _ stmt _ _ hp =>
    rcases hm.exec_cases stmt s.db with e | e
    · exact same e
    · refine mono (hs.keeps_row hr e fun _ _ _ _ _ e => ?_)
      generalize req.path = path at hp
      cases hp with
      | editUser | deleteUser | addUser | deleteQuestion => cases e
  | @anyone stmt hp =>
    rcases hm.exec_cases stmt s.db with e | e
    · exact same e
    · refine mono (hs.keeps_row hr e fun _ _ _ _ _ e => ?_)
      generalize req.path = path at hp
      cases hp with
      | register | updateQuestion | addQuestion => cases e
  | @progress username number c questionId x hp hu hok hq hx =>
    rw [ProgressCall.run_stmt] at hx
    subst hx
    have htries : req.path.tries r.questionId = decide (r.questionId = questionId) := by
      generalize req.path = path at hp
      cases hp with
      | setCompleted | judge => simp [Path.tries, hq, eq_comm]
    rcases hm.exec_cases (writtenBy L.clock c.touch (ProgressCall.found w.mysql L.clock
      (userInfo w username s.db).2.id questionId s.db)) s.db with e | e
    · exact same e
    · rw [htries]
      exact hs.keeps_row_of_call hm hr e

/-- Once a request is done, so much more has been done to the row. -/
theorem Did.keeps (h : Did L w req s stmts s') (hm : w.mysql.Meant collate) (hs : s.db.Sound collate)
    (hdeleted : s.db.Deleted.1 ⊆ s'.db.Deleted.1 ∧ s.db.Deleted.2 ⊆ s'.db.Deleted.2) (hk : s.db.Keeps r n) :
    s'.db.Keeps r (n + (req.path.tries r.questionId).toNat) := by
  obtain hd | hd | ⟨r', hr', k, hkn, hafter⟩ := hk
  · exact .inl (hdeleted.1 hd)
  · exact .inr (.inl (hdeleted.2 hd))
  · obtain ⟨hu, hq⟩ := Prod.mk.inj hafter.key
    obtain hd | hd | ⟨r'', hr'', j, hj, hafter'⟩ := h.keeps_row hm hs hr'
    · exact .inl (hu ▸ hd)
    · exact .inr (.inl (hq ▸ hd))
    · rw [hq] at hj
      exact .inr (.inr ⟨r'', hr'', j + k, by omega, hafter.trans hafter'⟩)

/-- In any run of any requests, one after another: a row is there, as completed as
it was and with one attempt more for each request for its question at most, unless
its user or its question has been deleted. -/
theorem ServerState.progress_kept (h : s.db.Sound collate) (hr : Run (ServerState.step L) (Meant collate) s es t)
    (hrow : r ∈ s.db.progress) : t.db.Keeps r (es.countP fun e => e.2.path.tries r.questionId) := by
  let I (es : List Visit) (s : ServerState) : Prop := s.db.Sound collate ∧
    s.db.Keeps r (es.countP fun e => e.2.path.tries r.questionId)
  have hI : I es t := by
    refine hr.inv_trace (I := I) ?_ ⟨h, .inr (.inr ⟨r, hrow, 0, le_rfl, .refl r⟩)⟩
    rintro es s e s' ⟨hsound, hk⟩ hm hs
    refine ⟨ServerState.sound_of_step hsound hm hs, ?_⟩
    have hdeleted : s.db.Deleted.1 ⊆ s'.db.Deleted.1 ∧ s.db.Deleted.2 ⊆ s'.db.Deleted.2 := by
      rcases ServerState.db_of_step hm hs with hdb | ⟨stmt, -, -, hdb⟩
      · rw [hdb]
        exact ⟨subset_rfl, subset_rfl⟩
      · exact hsound.deleted_of_does hdb
    obtain ⟨stmts, hd⟩ := ServerState.did_of_step hs
    have hkeeps := hd.keeps hm hsound hdeleted hk
    rw [List.countP_append, List.countP_singleton]
    cases ht : e.2.path.tries r.questionId with
    | true => simpa only [ht, Bool.toNat_true, if_true] using hkeeps
    | false => simpa only [ht, Bool.toNat_false, Bool.false_eq_true, if_false] using hkeeps
  exact hI.2

end

/-- `bob` submits the question that he has completed. -/
theorem progress_kept_again : ∃ s t, Run (ServerState.step .sample) (Meant id) s
      [(.k, .bob .register), (.k, .bob (.setCompleted Submitted.number))] t ∧
    t.db.Keeps ⟨1, 2, 7, true, "2023-11-14 22:13:20".toList, 1⟩ 1 := by
  have hrun : ((replay (ServerState.step .sample) Free (.start .sample) unjudged).bind fun s =>
      (replay (ServerState.step .sample) Free s
        [(.k, .bob .register), (.k, .bob (.setCompleted Submitted.number))]).map fun _ => s.db.progress) =
      some [⟨1, 2, 7, true, "2023-11-14 22:13:20".toList, 1⟩] := by
    decide +kernel
  obtain ⟨s, hs, hrun⟩ := Option.bind_eq_some_iff.mp hrun
  obtain ⟨t, ht, hp⟩ := Option.map_eq_some_iff.mp hrun
  have meant {s t : ServerState} {paths : List Path} (h : Run (ServerState.step .sample) Free s
      (paths.map fun path => (World.k, Request.bob path)) t) :
      Run (ServerState.step .sample) (Meant id) s (paths.map fun path => (World.k, Request.bob path)) t := by
    refine h.mono_mem fun e he _ _ => ?_
    obtain ⟨path, -, rfl⟩ := List.mem_map.mp he
    exact MySQL.exact_meant id
  have hsound : s.db.Sound id :=
    (meant (Run.of_replay hs)).inv (I := fun s => s.db.Sound id)
      (fun _ _ _ h hm hstep => ServerState.sound_of_step h hm hstep) Db.sample_sound
  have hr := @meant s t [.register, .setCompleted Submitted.number] (Run.of_replay ht)
  exact ⟨s, t, hr, ServerState.progress_kept hsound hr (hp ▸ List.mem_singleton_self _)⟩

end OJ.Server
