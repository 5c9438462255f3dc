import DistributedOj.OjServer.Deeds

/-!
# Requests without a session

The handlers that write or post, on a request whose cookie names no key of
`sessions`: `/editUser`, `/addUser`, `/deleteUser` and `/deleteQuestion` turn it
away, `/updateQuestion` writes if it can read its limits, and the other three
dereference `sessions.end()` (`harmless_iff`).
-/

namespace OJ.Server

open OJ.Comm OJ.Framework Handling

/-- The handlers that write or post. -/
def Path.Changes : Path → Prop
  | judge _ | setCompleted _ | addQuestion | updateQuestion | deleteQuestion _ | editUser | addUser
  | deleteUser _ => True
  | _ => False

/-- A request writes nothing, posts nothing and does not dereference
`sessions.end()`. -/
structure Harmless (L : Library) (w : World) (req : Request) (s : ServerState) : Prop where
  sent : ∀ stmt, .sent stmt ∉ (serve L w req s).2.2
  posted : ∀ body, .posted body ∉ (serve L w req s).2.2
  strayed : .strayed ∉ (serve L w req s).2.2
  db : (serve L w req s).2.1.db = s.db

/-- A limit of a question cannot be read. -/
def Unread (req : Request) : Prop :=
  stoi (req.param "cpu_limit".toList) = none ∨ stoi (req.param "mem_limit".toList) = none

/-- A request without a session that is turned away before it does anything. -/
def TurnedAway (req : Request) : Prop :=
  match req.path with
  | .editUser | .addUser | .deleteUser _ | .deleteQuestion _ => True
  | .updateQuestion => Unread req
  | _ => False

section
variable {L : Library} {w : World} {req : Request} {s : ServerState}

theorem Harmless.of_nothing (h : (serve L w req s).2 = (s, [])) : Harmless L w req s := by
  refine ⟨fun _ => ?_, fun _ => ?_, ?_, ?_⟩
  · simp [h]
  · simp [h]
  · simp [h]
  · rw [h]

/-! ## Turned away -/

theorem run_editUser (hs : s.sessions req.sessionId = none) :
    (run (handleEditUser L w req) (s, [])).2 = (s, []) := by
  rw [handleEditUser]
  apply of_ofExcept (P := fun x => x.2 = (s, [])) _ rfl
  rintro ⟨_ | _, json_data⟩ -
  · rfl
  apply of_ofExcept (P := fun x => x.2 = (s, [])) _ rfl
  intro number _
  apply of_ofExcept (P := fun x => x.2 = (s, [])) _ rfl
  intro username _
  apply of_ofExcept (P := fun x => x.2 = (s, [])) _ rfl
  intro password _
  apply of_ofExcept (P := fun x => x.2 = (s, [])) _ rfl
  intro role _
  rw [run_find_bind, hs]
  rfl

theorem run_addUser (hs : s.sessions req.sessionId = none) :
    (run (handleAddUser L w req) (s, [])).2 = (s, []) := by
  rw [handleAddUser]
  apply of_ofExcept (P := fun x => x.2 = (s, [])) _ rfl
  rintro ⟨_ | _, req_data⟩ -
  · rfl
  apply of_ofExcept (P := fun x => x.2 = (s, [])) _ rfl
  intro username _
  apply of_ofExcept (P := fun x => x.2 = (s, [])) _ rfl
  intro password _
  apply of_ofExcept (P := fun x => x.2 = (s, [])) _ rfl
  intro role _
  rw [run_find_bind, hs]
  rfl

theorem run_deleteUser (hs : s.sessions req.sessionId = none) (userId : Digits) :
    (run (handleDeleteUser w req userId) (s, [])).2 = (s, []) := by
  rw [handleDeleteUser, run_find_bind, hs]
  rfl

theorem run_deleteQuestion (hs : s.sessions req.sessionId = none) (number : Digits) :
    (run (handleDeleteQuestion w req number) (s, [])).2 = (s, []) := by
  rw [handleDeleteQuestion, run_find_bind, hs]
  rfl

/-- `/updateQuestion` writes unless it cannot read a limit. -/
theorem run_updateQuestion :
    (Unread req ∧ (run (handleUpdateQuestion w req) (s, [])).2 = (s, [])) ∨
      (¬ Unread req ∧ ∃ stmt, .sent stmt ∈ (run (handleUpdateQuestion w req) (s, [])).2.2) := by
  rw [handleUpdateQuestion, Unread]
  rcases stoi (req.param "cpu_limit".toList) with _ | cpuLimit
  · exact .inl ⟨.inl rfl, rfl⟩
  rcases stoi (req.param "mem_limit".toList) with _ | memLimit
  · exact .inl ⟨.inr rfl, rfl⟩
  dsimp only
  rw [run_sql_bind, run_updateMysql]
  exact .inr ⟨by simp, _, List.mem_singleton_self _⟩

/-! ## `sessions.end()` -/

/-- What has been done stays done. -/
theorem mem_run_judge {e : Effect} {number : Digits} {f : Str → Reply} {t : ServerState}
    {es : List Effect} (h : e ∈ es) : e ∈ (run (do return f (← judge L w req number)) (t, es)).2.2 := by
  obtain ⟨reply, es', he, -⟩ := run_judge L w req number f t es
  rw [he]
  exact List.mem_append_left _ h

theorem strayed_judge (hs : s.sessions req.sessionId = none) (number : Digits) :
    .strayed ∈ (run (handleJudge L w req number) (s, [])).2.2 := by
  rw [handleJudge, run_find_bind, hs]
  apply of_second (P := fun x => .strayed ∈ x.2.2) _ (List.mem_singleton_self _)
  intro username _
  rw [run_getUserInfo_bind]
  dsimp only
  split
  · apply of_ofOption (P := fun x => .strayed ∈ x.2.2) _ (List.mem_singleton_self _)
    intro questionId _
    rw [run_sql_bind]
    apply mem_run_judge
    exact List.mem_append_left _ (List.mem_singleton_self _)
  · apply mem_run_judge
    exact List.mem_singleton_self _

theorem strayed_setCompleted (hs : s.sessions req.sessionId = none) (number : Digits) :
    .strayed ∈ (run (handleSetCompleted L w req number) (s, [])).2.2 := by
  rw [handleSetCompleted, run_find_bind, hs]
  apply of_second (P := fun x => .strayed ∈ x.2.2) _ (List.mem_singleton_self _)
  intro username _
  rw [run_getUserInfo_bind]
  dsimp only
  split
  · apply of_ofOption (P := fun x => .strayed ∈ x.2.2) _ (List.mem_singleton_self _)
    intro questionId _
    rw [run_sql_bind, run_pure]
    exact List.mem_append_left _ (List.mem_singleton_self _)
  · exact List.mem_singleton_self _

theorem strayed_addQuestion (hs : s.sessions req.sessionId = none) :
    .strayed ∈ (run (handleAddQuestion L w req) (s, [])).2.2 := by
  have h : Added w req s (run (handleAddQuestion L w req) (s, [])) := added
  generalize run (handleAddQuestion L w req) (s, []) = x at h
  cases h with
  | nothing hq => exact hq.2 hs
  | sent hq => exact List.mem_append_left _ (hq.2 hs)

/-! ## All of them -/

/-- Without a session, a handler that writes or posts does no harm iff it turns
the request away. -/
theorem harmless_iff (hp : req.path.Changes) (hs : s.sessions req.sessionId = none) :
    Harmless L w req s ↔ TurnedAway req := by
  have away (h : (serve L w req s).2 = (s, [])) : Harmless L w req s ↔ True :=
    iff_true_intro (.of_nothing h)
  have strays (h : .strayed ∈ (serve L w req s).2.2) : Harmless L w req s ↔ False :=
    iff_false_intro fun hh => hh.strayed h
  rw [TurnedAway]
  rw [serve, handle] at away strays
  cases hpath : req.path with
  | editUser =>
    rw [hpath] at away
    exact away (run_editUser hs)
  | addUser =>
    rw [hpath] at away
    exact away (run_addUser hs)
  | deleteUser userId =>
    rw [hpath] at away
    exact away (run_deleteUser hs userId)
  | deleteQuestion number =>
    rw [hpath] at away
    exact away (run_deleteQuestion hs number)
  | updateQuestion =>
    rw [hpath] at away
    dsimp only at away ⊢
    rcases run_updateQuestion with ⟨hu, he⟩ | ⟨hu, stmt, he⟩
    · exact (away he).trans (iff_true_intro hu).symm
    · have sends : ¬ Harmless L w req s := fun hh => hh.sent stmt (by rwa [serve, handle, hpath])
      exact iff_of_false sends hu
  | judge number =>
    rw [hpath] at strays
    exact strays (strayed_judge hs number)
  | setCompleted number =>
    rw [hpath] at strays
    exact strays (strayed_setCompleted hs number)
  | addQuestion =>
    rw [hpath] at strays
    exact strays (strayed_addQuestion hs)
  | _ =>
    rw [hpath] at hp
    exact hp.elim

end

/-- A request for `path` without a cookie, with new limits for question 7. -/
def Request.anonymous (path : Path) : Request :=
  ⟨path, [], [("number".toList, "7".toList), ("cpu_limit".toList, "1".toList),
    ("mem_limit".toList, "1".toList)], [], []⟩

theorem harmless_iff_editUser :
    (ServerState.start .sample).sessions (Request.anonymous .editUser).sessionId = none ∧
      Harmless .sample .k (.anonymous .editUser) (.start .sample) := by
  have hp : (Request.anonymous .editUser).path.Changes := trivial
  exact ⟨rfl, (harmless_iff hp rfl).mpr trivial⟩

/-- Without a cookie anyone rewrites a question, and a submission dereferences
`sessions.end()`. -/
theorem not_harmless :
    (serve .sample .k (.anonymous .updateQuestion) (.start .sample)).2.1.db ≠ Db.sample ∧
      ¬ Harmless .sample .k (.anonymous .updateQuestion) (.start .sample) ∧
      ¬ Harmless .sample .k (.anonymous (.judge Submitted.number)) (.start .sample) := by
  have hdb : (serve .sample .k (.anonymous .updateQuestion) (.start .sample)).2.1.db ≠ Db.sample := by
    decide +kernel
  refine ⟨hdb, fun h => hdb h.db, fun h => h.strayed ?_⟩
  rw [serve, handle]
  exact strayed_judge rfl Submitted.number

end OJ.Server
