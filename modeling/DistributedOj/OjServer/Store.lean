import DistributedOj.Framework.Run
import DistributedOj.OjServer.Database

/-!
# What the database is for

The server keeps accounts and problems under their numbers, and what a user has
achieved on a problem (`Store`). `Stmt.spec` is what a statement means for
these. Every statement keeps the names apart and the efforts to accounts and
problems that are there (`Store.Sound.step`), and what has been removed does
not come back (`Store.Removed.step`).
-/

namespace OJ.Server

open OJ.Comm OJ.Framework

structure Profile where
  username : Str
  password : Str
  salt : Str
  isAdmin : Int

structure Problem where
  title : Str
  star : Str
  questionDesc : Str
  header : Str
  tail : Str
  timeLimit : Int
  memLimit : Int

structure Effort where
  isCompleted : Bool
  completedTime : Str
  attemptCount : Int

/-- Accounts, problems and efforts, and the numbers that come next. -/
@[ext]
structure Store where
  accounts : Int → Option Profile
  problems : Int → Option Problem
  efforts : Int × Int → Option Effort
  nextAccount : Int
  nextProblem : Int

namespace Store

section
variable (collate : Collation)

/-- Account `i` has the name. -/
def HasName (username : Str) (i : Int) (s : Store) : Prop :=
  ∃ a, s.accounts i = some a ∧ collate a.username = collate username

open Classical in
noncomputable def createAccount (a : Profile) (s : Store) : Option Store :=
  if ∃ i, s.HasName collate a.username i then none
  else some { s with
    accounts := Function.update s.accounts s.nextAccount (some a)
    nextAccount := s.nextAccount + 1 }

open Classical in
noncomputable def editAccount (a : Profile) (i : Int) (s : Store) : Option Store :=
  if s.accounts i ≠ none ∧ ∃ j ≠ i, s.HasName collate a.username j then none
  else some { s with accounts := Function.update s.accounts i ((s.accounts i).map fun _ => a) }

end

def removeAccount (i : Int) (s : Store) : Store :=
  { s with
    accounts := Function.update s.accounts i none
    efforts := fun k => if k.1 = i then none else s.efforts k }

def createProblem (p : Problem) (s : Store) : Store :=
  { s with
    problems := Function.update s.problems s.nextProblem (some p)
    nextProblem := s.nextProblem + 1 }

def editProblem (p : Problem) (i : Int) (s : Store) : Store :=
  { s with problems := Function.update s.problems i ((s.problems i).map fun _ => p) }

def removeProblem (i : Int) (s : Store) : Store :=
  { s with
    problems := Function.update s.problems i none
    efforts := fun k => if k.2 = i then none else s.efforts k }

open Classical in
noncomputable def createEffort (x : Effort) (k : Int × Int) (s : Store) : Option Store :=
  if s.accounts k.1 ≠ none ∧ s.problems k.2 ≠ none ∧ s.efforts k = none then
    some { s with efforts := Function.update s.efforts k (some x) }
  else none

def editEffort (x : Effort) (k : Int × Int) (s : Store) : Store :=
  { s with efforts := Function.update s.efforts k ((s.efforts k).map fun _ => x) }

end Store

/-- What a statement means: a text that is no number is no one's. -/
noncomputable def Stmt.spec (collate : Collation) : Stmt → Store → Option Store
  | addUser username password salt => Store.createAccount collate ⟨username, password, salt, 0⟩
  | insertUserByAdmin username password salt isAdmin =>
    Store.createAccount collate ⟨username, password, salt, isAdmin⟩
  | updateUserById username password salt isAdmin userid =>
    Store.editAccount collate ⟨username, password, salt, isAdmin⟩ userid
  | deleteUserById userid => fun s => some ((idOf userid).elim s (s.removeAccount ·))
  | insertQuestion title star questionDesc header tail timeLimit memLimit => fun s =>
    some (s.createProblem ⟨title, star, questionDesc, header, tail, timeLimit, memLimit⟩)
  | updateQuestion title star questionDesc header tail timeLimit memLimit id => fun s =>
    some ((idOf id).elim s (s.editProblem ⟨title, star, questionDesc, header, tail, timeLimit, memLimit⟩ ·))
  | deleteQuestion id => fun s => some ((idOf id).elim s (s.removeProblem ·))
  | addUserProgress userId questionId isCompleted completedTime attemptCount =>
    Store.createEffort ⟨isCompleted, completedTime, attemptCount⟩ (userId, questionId)
  | updateUserProgress isCompleted completedTime attemptCount userId questionId => fun s =>
    some (s.editEffort ⟨isCompleted, completedTime, attemptCount⟩ (userId, questionId))

namespace Store

variable {collate : Collation} {s s' : Store} {stmt : Stmt}

/-! ## What every statement keeps -/

/-- Names are different, numbers are not ahead of the next ones, and who has an
effort on what is there. -/
structure Sound (collate : Collation) (s : Store) : Prop where
  names : ∀ i j username, s.HasName collate username i → s.HasName collate username j → i = j
  accounts_lt : ∀ i, s.accounts i ≠ none → i < s.nextAccount
  problems_lt : ∀ i, s.problems i ≠ none → i < s.nextProblem
  efforts : ∀ k, s.efforts k ≠ none → s.accounts k.1 ≠ none ∧ s.problems k.2 ≠ none

theorem update_ne_none {α β : Type*} [DecidableEq α] {f : α → Option β} {i j : α} {x : Option β}
    (h : f i ≠ none → x ≠ none) (hj : f j ≠ none) : Function.update f i x j ≠ none := by
  by_cases e : j = i
  · subst e
    rw [Function.update_self]
    exact h hj
  · rwa [Function.update_of_ne e]

theorem Sound.createAccount {a : Profile} (h : s.Sound collate) (hs : s.createAccount collate a = some s') :
    s'.Sound collate := by
  rw [Store.createAccount, Option.ite_none_left_eq_some] at hs
  obtain ⟨hfree, hs⟩ := hs
  cases hs
  have hname {i : Int} {username : Str} (hi : HasName collate username i
      { s with accounts := Function.update s.accounts s.nextAccount (some a), nextAccount := s.nextAccount + 1 }) :
      (i = s.nextAccount ∧ collate a.username = collate username) ∨ s.HasName collate username i := by
    obtain ⟨b, hb, hn⟩ := hi
    by_cases e : i = s.nextAccount
    · subst e
      simp only [Function.update_self, Option.some.injEq] at hb
      exact .inl ⟨rfl, hb ▸ hn⟩
    · simp only [Function.update_of_ne e] at hb
      exact .inr ⟨b, hb, hn⟩
  have hclash {j : Int} {username : Str} (hn : collate a.username = collate username) :
      ¬ s.HasName collate username j := fun ⟨b, hb, hb'⟩ => hfree ⟨j, b, hb, hb'.trans hn.symm⟩
  refine ⟨fun i j username hi hj => ?_, fun i hi => ?_, h.problems_lt, fun k hk => ?_⟩
  · obtain ⟨rfl, hn⟩ | old := hname hi
    · obtain ⟨rfl, -⟩ | old := hname hj
      · rfl
      · exact absurd old (hclash hn)
    · obtain ⟨rfl, hn⟩ | old' := hname hj
      · exact absurd old (hclash hn)
      · exact h.names i j username old old'
  · by_cases e : i = s.nextAccount
    · subst e
      exact Int.lt_succ _
    · simp only [Function.update_of_ne e] at hi
      exact (h.accounts_lt i hi).trans (Int.lt_succ _)
  · obtain ⟨hu, hq⟩ := h.efforts k hk
    exact ⟨update_ne_none (fun _ => Option.some_ne_none a) hu, hq⟩

theorem Sound.editAccount {a : Profile} {i : Int} (h : s.Sound collate)
    (hs : s.editAccount collate a i = some s') : s'.Sound collate := by
  rw [Store.editAccount, Option.ite_none_left_eq_some] at hs
  obtain ⟨hfree, hs⟩ := hs
  cases hs
  have hmap : s.accounts i ≠ none → (s.accounts i).map (fun _ => a) ≠ none := by
    cases s.accounts i with
    | none => exact id
    | some b => exact fun _ => Option.some_ne_none a
  have hback {j : Int} (hj : Function.update s.accounts i ((s.accounts i).map fun _ => a) j ≠ none) :
      s.accounts j ≠ none := by
    by_cases e : j = i
    · subst e
      rw [Function.update_self] at hj
      intro h0
      rw [h0] at hj
      exact hj rfl
    · rwa [Function.update_of_ne e] at hj
  have hname {j : Int} {username : Str} (hj : HasName collate username j
      { s with accounts := Function.update s.accounts i ((s.accounts i).map fun _ => a) }) :
      (j = i ∧ s.accounts i ≠ none ∧ collate a.username = collate username) ∨
        (j ≠ i ∧ s.HasName collate username j) := by
    obtain ⟨b, hb, hn⟩ := hj
    by_cases e : j = i
    · subst e
      simp only [Function.update_self, Option.map_eq_some_iff] at hb
      obtain ⟨c, hc, rfl⟩ := hb
      exact .inl ⟨rfl, by rw [hc]; exact Option.some_ne_none c, hn⟩
    · simp only [Function.update_of_ne e] at hb
      exact .inr ⟨e, b, hb, hn⟩
  have hclash {j : Int} {username : Str} (hi : s.accounts i ≠ none)
      (hn : collate a.username = collate username) (hj : j ≠ i) : ¬ s.HasName collate username j :=
    fun ⟨b, hb, hb'⟩ => hfree ⟨hi, j, hj, b, hb, hb'.trans hn.symm⟩
  refine ⟨fun j j' username hj hj' => ?_, fun j hj => h.accounts_lt j (hback hj), h.problems_lt, fun k hk => ?_⟩
  · obtain ⟨rfl, hi, hn⟩ | ⟨hne, old⟩ := hname hj
    · obtain ⟨rfl, -⟩ | ⟨hne, old⟩ := hname hj'
      · rfl
      · exact absurd old (hclash hi hn hne)
    · obtain ⟨rfl, hi, hn⟩ | ⟨-, old'⟩ := hname hj'
      · exact absurd old (hclash hi hn hne)
      · exact h.names j j' username old old'
  · obtain ⟨hu, hq⟩ := h.efforts k hk
    exact ⟨update_ne_none hmap hu, hq⟩

theorem Sound.removeAccount (h : s.Sound collate) (i : Int) : (s.removeAccount i).Sound collate := by
  have hback {j : Int} {a : Profile} (hj : (s.removeAccount i).accounts j = some a) : s.accounts j = some a := by
    by_cases e : j = i
    · subst e
      simp only [Store.removeAccount, Function.update_self] at hj
      cases hj
    · simpa only [Store.removeAccount, Function.update_of_ne e] using hj
  refine ⟨fun j j' username hj hj' => ?_, fun j hj => ?_, h.problems_lt, fun k hk => ?_⟩
  · obtain ⟨a, ha, hn⟩ := hj
    obtain ⟨b, hb, hn'⟩ := hj'
    exact h.names j j' username ⟨a, hback ha, hn⟩ ⟨b, hback hb, hn'⟩
  · obtain ⟨a, ha⟩ := Option.ne_none_iff_exists'.mp hj
    exact h.accounts_lt j (by rw [hback ha]; exact Option.some_ne_none a)
  · simp only [Store.removeAccount, ne_eq, ite_eq_left_iff, not_forall] at hk
    obtain ⟨hne, hk⟩ := hk
    obtain ⟨hu, hq⟩ := h.efforts k hk
    refine ⟨?_, hq⟩
    simp only [Store.removeAccount, Function.update_of_ne hne]
    exact hu

theorem Sound.createProblem (h : s.Sound collate) (p : Problem) : (s.createProblem p).Sound collate := by
  refine ⟨h.names, h.accounts_lt, fun i hi => ?_, fun k hk => ?_⟩
  · by_cases e : i = s.nextProblem
    · subst e
      exact Int.lt_succ _
    · simp only [Store.createProblem, Function.update_of_ne e] at hi
      exact (h.problems_lt i hi).trans (Int.lt_succ _)
  · obtain ⟨hu, hq⟩ := h.efforts k hk
    exact ⟨hu, update_ne_none (fun _ => Option.some_ne_none p) hq⟩

theorem Sound.editProblem (h : s.Sound collate) (p : Problem) (i : Int) : (s.editProblem p i).Sound collate := by
  refine ⟨h.names, h.accounts_lt, fun j hj => h.problems_lt j ?_, fun k hk => ?_⟩
  · by_cases e : j = i
    · subst e
      simp only [Store.editProblem, Function.update_self, ne_eq, Option.map_eq_none_iff] at hj
      exact hj
    · simpa only [Store.editProblem, Function.update_of_ne e] using hj
  · obtain ⟨hu, hq⟩ := h.efforts k hk
    refine ⟨hu, update_ne_none (fun hi => ?_) hq⟩
    rwa [ne_eq, Option.map_eq_none_iff]

theorem Sound.removeProblem (h : s.Sound collate) (i : Int) : (s.removeProblem i).Sound collate := by
  refine ⟨h.names, h.accounts_lt, fun j hj => h.problems_lt j ?_, fun k hk => ?_⟩
  · by_cases e : j = i
    · subst e
      simp only [Store.removeProblem, Function.update_self, ne_eq, not_true_eq_false] at hj
    · simpa only [Store.removeProblem, Function.update_of_ne e] using hj
  · simp only [Store.removeProblem, ne_eq, ite_eq_left_iff, not_forall] at hk
    obtain ⟨hne, hk⟩ := hk
    obtain ⟨hu, hq⟩ := h.efforts k hk
    refine ⟨hu, ?_⟩
    simp only [Store.removeProblem, Function.update_of_ne hne]
    exact hq

theorem Sound.createEffort {x : Effort} {k : Int × Int} (h : s.Sound collate)
    (hs : s.createEffort x k = some s') : s'.Sound collate := by
  rw [Store.createEffort, Option.ite_none_right_eq_some] at hs
  obtain ⟨⟨hu, hq, -⟩, hs⟩ := hs
  cases hs
  refine ⟨h.names, h.accounts_lt, h.problems_lt, fun k' hk' => ?_⟩
  by_cases e : k' = k
  · rw [e]
    exact ⟨hu, hq⟩
  · simp only [Function.update_of_ne e] at hk'
    exact h.efforts k' hk'

theorem Sound.editEffort (h : s.Sound collate) (x : Effort) (k : Int × Int) : (s.editEffort x k).Sound collate := by
  refine ⟨h.names, h.accounts_lt, h.problems_lt, fun k' hk' => h.efforts k' ?_⟩
  by_cases e : k' = k
  · subst e
    simp only [Store.editEffort, Function.update_self, ne_eq, Option.map_eq_none_iff] at hk'
    exact hk'
  · simpa only [Store.editEffort, Function.update_of_ne e] using hk'

/-- Every statement keeps `Sound`. -/
theorem Sound.step (h : s.Sound collate) (hs : stmt.spec collate s = some s') : s'.Sound collate := by
  cases stmt with
  | addUser | insertUserByAdmin => exact h.createAccount hs
  | updateUserById => exact h.editAccount hs
  | deleteUserById userid =>
    cases hs
    cases idOf userid with
    | none => exact h
    | some i => exact h.removeAccount i
  | insertQuestion =>
    cases hs
    exact h.createProblem _
  | updateQuestion _ _ _ _ _ _ _ id =>
    cases hs
    cases idOf id with
    | none => exact h
    | some i => exact h.editProblem _ i
  | deleteQuestion id =>
    cases hs
    cases idOf id with
    | none => exact h
    | some i => exact h.removeProblem i
  | addUserProgress => exact h.createEffort hs
  | updateUserProgress =>
    cases hs
    exact h.editEffort _ _

/-! ## Numbers are not used again -/

/-- These numbers have been given out, and there is no account and no problem
under them any more. -/
structure Removed (accounts problems : Set Int) (s : Store) : Prop where
  accounts : ∀ i ∈ accounts, i < s.nextAccount ∧ s.accounts i = none
  problems : ∀ i ∈ problems, i < s.nextProblem ∧ s.problems i = none

theorem update_eq_none {β : Type*} {f : Int → Option β} {i j : Int} {x : Option β} (hx : f i = none → i = j → x = none)
    (hi : f i = none) : Function.update f j x i = none := by
  by_cases e : i = j
  · subst e
    rw [Function.update_self]
    exact hx hi rfl
  · rwa [Function.update_of_ne e]

/-- What has been removed stays away. -/
theorem Removed.step {A P : Set Int} (h : s.Removed A P) (hs : stmt.spec collate s = some s') : s'.Removed A P := by
  have create {a : Profile} (hs : s.createAccount collate a = some s') : s'.Removed A P := by
    rw [createAccount, Option.ite_none_left_eq_some] at hs
    obtain ⟨-, hs⟩ := hs
    cases hs
    refine ⟨fun i hi => ?_, h.problems⟩
    obtain ⟨hlt, hnone⟩ := h.accounts i hi
    exact ⟨hlt.trans (Int.lt_succ _), update_eq_none (fun _ e => absurd e hlt.ne) hnone⟩
  have keepA {j : Int} {x : Option Profile} (hx : s.accounts j = none → x = none) (i : Int) (hi : i ∈ A) :
      i < s.nextAccount ∧ Function.update s.accounts j x i = none := by
    obtain ⟨hlt, hnone⟩ := h.accounts i hi
    exact ⟨hlt, update_eq_none (fun h0 e => hx (e ▸ h0)) hnone⟩
  have keepP {j : Int} {x : Option Problem} (hx : s.problems j = none → x = none) (i : Int) (hi : i ∈ P) :
      i < s.nextProblem ∧ Function.update s.problems j x i = none := by
    obtain ⟨hlt, hnone⟩ := h.problems i hi
    exact ⟨hlt, update_eq_none (fun h0 e => hx (e ▸ h0)) hnone⟩
  cases stmt with
  | addUser | insertUserByAdmin => exact create hs
  | updateUserById =>
    rw [Stmt.spec, editAccount, Option.ite_none_left_eq_some] at hs
    obtain ⟨-, hs⟩ := hs
    cases hs
    exact ⟨keepA fun e => by rw [e]; rfl, h.problems⟩
  | deleteUserById userid =>
    cases hs
    cases idOf userid with
    | none => exact h
    | some i => exact ⟨keepA fun _ => rfl, h.problems⟩
  | insertQuestion =>
    cases hs
    refine ⟨h.accounts, fun i hi => ?_⟩
    obtain ⟨hlt, hnone⟩ := h.problems i hi
    exact ⟨hlt.trans (Int.lt_succ _), update_eq_none (fun _ e => absurd e hlt.ne) hnone⟩
  | updateQuestion _ _ _ _ _ _ _ id =>
    cases hs
    cases idOf id with
    | none => exact h
    | some i => exact ⟨h.accounts, keepP fun e => by rw [e]; rfl⟩
  | deleteQuestion id =>
    cases hs
    cases idOf id with
    | none => exact h
    | some i => exact ⟨h.accounts, keepP fun _ => rfl⟩
  | addUserProgress =>
    rw [Stmt.spec, createEffort, Option.ite_none_right_eq_some] at hs
    obtain ⟨-, hs⟩ := hs
    cases hs
    exact ⟨h.accounts, h.problems⟩
  | updateUserProgress =>
    cases hs
    exact ⟨h.accounts, h.problems⟩

end Store

end OJ.Server
