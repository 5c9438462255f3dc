import DistributedOj.OjServer.Lists

/-!
# `SmartChoice`: the machine chosen and the lock

The machine found is the first online one of least load after the probes
(`scan_eq_argmin`, `choose_found`, `smartChoice_first`). `SmartChoice` gives the lock back on every
exit but one: where a status throws, the lock stays with a thread that has left
the function. So it is free for the next operation iff no online machine
answered with a malformed status (`smartChoice_unlocks_iff`).
-/

namespace OJ.Server

open OJ.Comm OJ.Framework

namespace LoadBalance

/-- The load of the machine with an id. -/
def loadAt (lb : LoadBalance) (id : Int) : Nat := (lb.load id.toNat).toNat

/-- The second loop ends with the first of the ids, the one it starts with
included, that has the least load. -/
theorem scan_eq_argmin (lb : LoadBalance) (xs : List Int) (id : Int) :
    ∃ k ∈ (id :: xs).argmin lb.loadAt, lb.scan xs (lb.load id.toNat) id id.toNat = (k, k.toNat) := by
  induction xs generalizing id with
  | nil => exact ⟨id, rfl, rfl⟩
  | cons x xs ih =>
    have fold : (id :: x :: xs).argmin lb.loadAt =
        ((if lb.loadAt x < lb.loadAt id then x else id) :: xs).argmin lb.loadAt := by
      simp only [List.argmin, List.foldl_cons, List.argAux]
      split <;> rfl
    rw [fold, scan]
    by_cases h : lb.load id.toNat > lb.load x.toNat
    · have hl : lb.loadAt x < lb.loadAt id := UInt64.lt_iff_toNat_lt.mp h
      rw [if_pos hl, if_pos h]
      exact ih x
    · have hl : ¬ lb.loadAt x < lb.loadAt id := fun hl => h (UInt64.lt_iff_toNat_lt.mpr hl)
      rw [if_neg hl, if_neg h]
      exact ih id

/-- The first loop gets through iff no status that it asks for throws. -/
theorem updateAll_ok_iff (probes : Nat → Probe) (i : Nat) (xs : List Int) (lb : LoadBalance) :
    (lb.updateAll probes i xs).2 = true ↔ ∀ k < xs.length, probes (i + k) ≠ .threw := by
  induction xs generalizing i lb with
  | nil => simp [updateAll]
  | cons id xs ih =>
    have shift : (∀ k < (id :: xs).length, probes (i + k) ≠ .threw) ↔
        probes i ≠ .threw ∧ ∀ k < xs.length, probes (i + 1 + k) ≠ .threw := by
      rw [List.length_cons, Nat.forall_lt_succ_left]
      simp only [Nat.add_zero, Nat.add_assoc, Nat.add_comm 1]
    rw [shift]
    cases h : probes i with
    | failed => simpa [updateAll, h] using ih (i + 1) _
    | stored load => simpa [updateAll, h] using ih (i + 1) _
    | threw => simp [updateAll, h]

theorem load_updateAll_of_ne {probes : Nat → Probe} {i m : Nat} {xs : List Int}
    {lb : LoadBalance} (h : ∀ x ∈ xs, x.toNat ≠ m) :
    (lb.updateAll probes i xs).1.load m = lb.load m := by
  induction xs generalizing i lb with
  | nil => rfl
  | cons id xs ih =>
    obtain ⟨hid, hxs⟩ := List.forall_mem_cons.mp h
    rw [updateAll]
    split
    · rfl
    · rw [ih hxs, load_modify_of_ne hid]

/-- After the first loop each machine has what its status left of its load. -/
theorem load_updateAll_probe {probes : Nat → Probe} {i : Nat} {xs : List Int} {lb : LoadBalance}
    (hn : (xs.map Int.toNat).Nodup) (hr : ∀ x ∈ xs, x.toNat < lb.machines.length)
    (hp : ∀ k < xs.length, probes (i + k) ≠ .threw) {j : Nat} {x : Int} (hx : xs[j]? = some x) :
    (lb.updateAll probes i xs).1.load x.toNat = (probes (i + j)).load (lb.load x.toNat) := by
  induction xs generalizing i lb j with
  | nil => cases hx
  | cons id xs ih =>
    rw [List.map_cons, List.nodup_cons] at hn
    obtain ⟨hid, hr⟩ := List.forall_mem_cons.mp hr
    have h0 : probes i ≠ .threw := hp 0 (Nat.zero_lt_succ _)
    have hne {y : Int} (hy : y ∈ xs) : y.toNat ≠ id.toNat := fun e => hn.1 (List.mem_map.mpr ⟨y, hy, e⟩)
    have hu : lb.updateAll probes i (id :: xs) =
        (lb.modify id.toNat (·.updateStatus (probes i))).updateAll probes (i + 1) xs := by
      cases h : probes i with
      | failed => rw [updateAll, h]
      | stored load => rw [updateAll, h]
      | threw => exact absurd h h0
    rw [hu]
    cases j with
    | zero =>
      cases hx
      rw [load_updateAll_of_ne fun _ => hne, load_modify_self hid, Machine.load_updateStatus, load,
        List.getElem?_eq_getElem hid]
      rfl
    | succ j =>
      have hp' : ∀ k < xs.length, probes (i + 1 + k) ≠ .threw := fun k hk => by
        rw [Nat.add_assoc, Nat.add_comm 1 k]
        exact hp (k + 1) (Nat.succ_lt_succ hk)
      have hr' : ∀ y ∈ xs, y.toNat < (lb.modify id.toNat (·.updateStatus (probes i))).machines.length := by
        rwa [length_machines_modify]
      have hmem : x ∈ xs := List.mem_of_getElem? hx
      rw [ih hn.2 hr' hp' hx, load_modify_of_ne (hne hmem).symm, Nat.add_assoc, Nat.add_comm 1 j]

/-- After the first loop each machine has the load that its status gave. -/
theorem load_updateAll {probes : Nat → Probe} {w : Int → UInt64} {i : Nat} {xs : List Int}
    {lb : LoadBalance} (hn : (xs.map Int.toNat).Nodup)
    (hr : ∀ x ∈ xs, x.toNat < lb.machines.length)
    (hp : ∀ j x, xs[j]? = some x → probes (i + j) = .stored (w x)) :
    ∀ x ∈ xs, (lb.updateAll probes i xs).1.load x.toNat = w x := by
  intro x hx
  obtain ⟨j, hj⟩ := List.mem_iff_getElem?.mp hx
  have hne : ∀ k < xs.length, probes (i + k) ≠ .threw := fun k hk => by
    rw [hp k _ (List.getElem?_eq_getElem hk)]
    exact Probe.noConfusion
  rw [load_updateAll_probe hn hr hne hj, hp j x hj, Probe.load]

/-- The machine found is the first online one of least load after the first
loop. -/
theorem choose_found {probes : Nat → Probe} {lb : LoadBalance} {first : Int} {rest : List Int}
    (h0 : lb.online = first :: rest) (hok : (lb.updateAll probes 0 lb.online).2 = true) :
    ∃ k ∈ (first :: lb.online).argmin (lb.updateAll probes 0 lb.online).1.loadAt,
      (lb.choose probes).2 = .found k k.toNat := by
  obtain ⟨k, hk, e⟩ := scan_eq_argmin (lb.updateAll probes 0 lb.online).1 lb.online first
  refine ⟨k, hk, ?_⟩
  unfold choose
  split
  · next h => rw [h0] at h; cases h
  · next h =>
    rw [h0] at h
    cases h
    dsimp only
    rw [if_pos hok, e]

theorem Listed.nodup_toNat {lb : LoadBalance} (hl : lb.Listed) : (lb.online.map Int.toNat).Nodup := by
  refine hl.nodup.map_on fun x hx y hy e => ?_
  have := (hl.mem_ids hx).1
  have := (hl.mem_ids hy).1
  omega

/-- After the statuses that store `w` every online machine has its own. -/
theorem load_updateAll_online {lb : LoadBalance} (hl : lb.Listed) (w : Int → UInt64) {x : Int}
    (hx : x ∈ lb.online) :
    (lb.updateAll (fun i => .stored (w (lb.online.getD i 0))) 0 lb.online).1.load x.toNat = w x := by
  refine load_updateAll hl.nodup_toNat (fun x hx => (hl.mem_ids hx).2) (fun j x hx => ?_) x hx
  rw [Nat.zero_add, List.getD_eq_getElem?_getD, hx, Option.getD_some]

theorem choose_least {lb : LoadBalance} (hl : lb.Listed) {w : Int → UInt64} {k : Int}
    (hk : k ∈ lb.online) (hw : ∀ x ∈ lb.online, x ≠ k → w k < w x) :
    (lb.choose fun i => .stored (w (lb.online.getD i 0))).2 = .found k k.toNat := by
  obtain ⟨first, rest, h0⟩ : ∃ first rest, lb.online = first :: rest :=
    List.exists_cons_of_ne_nil (List.ne_nil_of_mem hk)
  have hok := (updateAll_ok_iff (fun i => .stored (w (lb.online.getD i 0))) 0 lb.online lb).mpr
    fun _ _ => by simp
  obtain ⟨x, hx, e⟩ := choose_found h0 hok
  have hmem : x ∈ lb.online := by
    rcases List.mem_cons.mp (List.argmin_mem hx) with rfl | h
    · rw [h0]; exact List.mem_cons_self
    · exact h
  have hle := List.le_of_mem_argmin (List.mem_cons_of_mem first hk) hx
  rw [e]
  by_cases hxk : x = k
  · rw [hxk]
  · have := UInt64.lt_iff_toNat_lt.mp (hw x hmem hxk)
    simp only [loadAt, load_updateAll_online hl w hmem, load_updateAll_online hl w hk] at hle
    omega

/-- The lock is free at the exit iff no status threw. -/
theorem choose_unlocks_iff {probes : Nat → Probe} {lb : LoadBalance} (hm : lb.mtx ≠ none) :
    (lb.choose probes).1.mtx = none ↔ ∀ i < lb.online.length, probes i ≠ .threw := by
  have hu := updateAll_ok_iff probes 0 lb.online lb
  simp only [Nat.zero_add] at hu
  rw [← hu, choose]
  split
  · next h => simp [unlock, h, updateAll]
  · dsimp only
    split
    · next h => simp [unlock, h]
    · next h =>
      have := (updateAll_lists probes 0 lb.online lb).2.2
      simp [h, this, hm]

/-- `SmartChoice` finds the online machine of least load, if the statuses give
one, and leaves the lock free and the lists as they were. -/
theorem smartChoice_least {lb : LoadBalance} (hl : lb.Listed) (hm : lb.mtx = none) (t : Nat)
    {w : Int → UInt64} {k : Int} (hk : k ∈ lb.online)
    (hw : ∀ x ∈ lb.online, x ≠ k → w k < w x) :
    ∃ lb', lb.smartChoice t (fun i => .stored (w (lb.online.getD i 0))) =
        some (lb', .found k k.toNat) ∧
      lb'.roster = lb.roster ∧ lb'.machines.length = lb.machines.length ∧ lb'.mtx = none := by
  rw [smartChoice, lock, if_pos hm, Option.map_some]
  have h := choose_least (show Listed { lb with mtx := some t } from hl) hk hw
  obtain ⟨hr, hn⟩ := choose_lists (fun i => .stored (w (lb.online.getD i 0))) { lb with mtx := some t }
  exact ⟨_, congrArg some (Prod.ext rfl h), hr, hn,
    (choose_unlocks_iff (by simp)).mpr fun _ _ => by simp⟩

/-- The operations can happen iff the lock is free. -/
theorem call_isSome_iff (lb : LoadBalance) (op : Op) : (lb.call op).isSome ↔ lb.mtx = none := by
  cases op <;>
    simp only [call, smartChoice, offlineMachine, onlineMachine, lock, Option.isSome_map] <;>
    split <;> simp_all

/-- `SmartChoice` exits, and after its exit the lock is free and every
operation can take it, iff no online machine answered with a malformed
status. -/
theorem smartChoice_unlocks_iff (J : JsonCpp) {lb : LoadBalance} (hm : lb.mtx = none) (t : Nat)
    (answers : Nat → Option Response) :
    ∃ lb' c, lb.smartChoice t (fun i => updateStatus J (answers i)) = some (lb', c) ∧
      ((lb'.mtx = none ∧ ∀ op, (lb'.call op).isSome) ↔
        ∀ i < lb.online.length, ¬ Malformed J (answers i)) := by
  refine ⟨_, _, by rw [smartChoice, lock, if_pos hm, Option.map_some], ?_⟩
  rw [and_iff_left_of_imp fun h op => (call_isSome_iff _ op).mpr h, choose_unlocks_iff (by simp)]
  simp only [ne_eq, updateStatus_threw_iff]

/-- The JSON parser, on the body below. -/
def parseStatus (body : Str) : Except JsonException (Option Json) :=
  .ok (if body = "[]".toList then some (.arr []) else none)

/-- A backend that answers its status with `[]`: the first index throws. -/
theorem smartChoice_throws :
    oneMachine.smartChoice 0 (fun _ => updateStatus (.documented parseStatus) (some ⟨200, "[]".toList⟩)) =
        some ({ oneMachine with mtx := some 0 }, .threw) ∧
      ∀ op, { oneMachine with mtx := some 0 }.call op = none := by
  refine ⟨by decide, fun op => ?_⟩
  rw [← Option.not_isSome_iff_eq_none, call_isSome_iff]
  simp

/-- A backend that gives no answer: the lock is free again. -/
theorem smartChoice_unlocks_one :
    ∃ lb' c, oneMachine.smartChoice 0 (fun _ => updateStatus (.documented parseStatus) none) =
        some (lb', c) ∧ lb'.mtx = none := by
  obtain ⟨lb', c, h, hi⟩ :=
    smartChoice_unlocks_iff (.documented parseStatus)
      (show oneMachine.mtx = none by decide) 0 fun _ => none
  refine ⟨lb', c, h, (hi.mpr fun i _ => ?_).1⟩
  rintro ⟨r, hr, -⟩
  cases hr

/-! ## The first of least load -/

/-- What `SmartChoice` leaves is what the first loop leaves. -/
theorem choose_fst {probes : Nat → Probe} {lb : LoadBalance}
    (hok : (lb.updateAll probes 0 lb.online).2 = true) :
    (lb.choose probes).1 = (lb.updateAll probes 0 lb.online).1.unlock := by
  unfold choose
  split
  · next h => rw [h, updateAll]
  · dsimp only
    rw [if_pos hok]

/-- The machine found is the first one in online order that has the least load,
the loads as the statuses left them. -/
theorem choose_first {probes : Nat → Probe} {lb : LoadBalance} (h0 : lb.online ≠ [])
    (hok : (lb.updateAll probes 0 lb.online).2 = true) :
    ∃ k ∈ lb.online, (lb.choose probes).2 = .found k k.toNat ∧
      ∀ x ∈ lb.online, (lb.choose probes).1.load k.toNat ≤ (lb.choose probes).1.load x.toNat ∧
        ((lb.choose probes).1.load x.toNat = (lb.choose probes).1.load k.toNat →
          lb.online.idxOf k ≤ lb.online.idxOf x) := by
  obtain ⟨first, rest, hl⟩ := List.exists_cons_of_ne_nil h0
  obtain ⟨k, hk, e⟩ := choose_found hl hok
  have hload (m : Nat) : (lb.choose probes).1.load m = (lb.updateAll probes 0 lb.online).1.load m := by
    rw [choose_fst hok]
    rfl
  -- The scan starts with the first machine and then looks at it again.
  have hfold : (first :: lb.online).argmin (lb.updateAll probes 0 lb.online).1.loadAt =
      lb.online.argmin (lb.updateAll probes 0 lb.online).1.loadAt := by
    rw [hl]
    simp [List.argmin, List.argAux]
  rw [hfold] at hk
  obtain ⟨hmem, hmin, hidx⟩ := List.mem_argmin_iff.mp hk
  refine ⟨k, hmem, e, fun x hx => ?_⟩
  rw [hload, hload]
  exact ⟨UInt64.le_iff_toNat_le.mpr (hmin x hx), fun he => hidx x hx (congrArg UInt64.toNat he).le⟩

theorem choose_allOffline_iff {probes : Nat → Probe} {lb : LoadBalance}
    (hok : (lb.updateAll probes 0 lb.online).2 = true) :
    (lb.choose probes).2 = .allOffline ↔ lb.online = [] := by
  by_cases h0 : lb.online = []
  · rw [choose, h0]
    simp
  · obtain ⟨k, -, e, -⟩ := choose_first h0 hok
    simp [e, h0]

/-- An offline machine is none of those that are asked. -/
theorem Listed.toNat_ne {lb : LoadBalance} (hl : lb.Listed) {x : Int} (hx : x ∈ lb.offline) :
    ∀ y ∈ lb.online, y.toNat ≠ x.toNat := by
  intro y hy e
  have hx0 : 0 ≤ x := (Server.mem_ids.mp (hl.mem.mpr (.inr hx))).1
  have hy0 : 0 ≤ y := (hl.mem_ids hy).1
  have : y = x := by omega
  exact hl.notMem_offline hy (this ▸ hx)

/-- `SmartChoice`, where no status throws: it returns false iff no machine is
online, and changes nothing then; otherwise it finds the first machine in online
order whose load after the statuses is least. It changes neither list, and of the
loads only those of the machines that are asked, to what their status gave. -/
theorem smartChoice_first {lb : LoadBalance} (hm : lb.mtx = none)
    (hids : ∀ x ∈ lb.online, 0 ≤ x ∧ x.toNat < lb.machines.length) {probes : Nat → Probe}
    (hok : ∀ i < lb.online.length, probes i ≠ .threw) (t : Nat) :
    ∃ lb' c, lb.smartChoice t probes = some (lb', c) ∧
      (c = .allOffline ↔ lb.online = []) ∧ (lb.online = [] → lb' = lb) ∧
      (lb.online ≠ [] → ∃ k ∈ lb.online, c = .found k k.toNat ∧ k.toNat < lb'.machines.length ∧
        ∀ x ∈ lb.online, lb'.load k.toNat ≤ lb'.load x.toNat ∧
          (lb'.load x.toNat = lb'.load k.toNat → lb.online.idxOf k ≤ lb.online.idxOf x)) ∧
      lb'.roster = lb.roster ∧
      (∀ m, (∀ x ∈ lb.online, x.toNat ≠ m) → lb'.load m = lb.load m) ∧
      (lb.Listed → (∀ x ∈ lb.offline, lb'.load x.toNat = lb.load x.toNat) ∧
        ∀ j x, lb.online[j]? = some x → lb'.load x.toNat = (probes j).load (lb.load x.toNat)) := by
  have hu : (({ lb with mtx := some t } : LoadBalance).updateAll probes 0 lb.online).2 = true :=
    (updateAll_ok_iff probes 0 lb.online _).mpr fun k hk => by rw [Nat.zero_add]; exact hok k hk
  obtain ⟨hr, hn⟩ := choose_lists probes { lb with mtx := some t }
  have hframe (m : Nat) (h : ∀ x ∈ lb.online, x.toNat ≠ m) :
      (({ lb with mtx := some t } : LoadBalance).choose probes).1.load m = lb.load m := by
    rw [choose_fst hu]
    exact load_updateAll_of_ne h
  have hend : lb.smartChoice t probes = some (choose probes { lb with mtx := some t }) := by
    rw [smartChoice, lock, if_pos hm, Option.map_some]
  refine ⟨(choose probes { lb with mtx := some t }).1, (choose probes { lb with mtx := some t }).2, hend,
    ?_, ?_, ?_, hr, hframe, fun hl => ⟨fun x hx => hframe _ (hl.toNat_ne hx), fun j x hx => ?_⟩⟩
  · exact choose_allOffline_iff hu
  · intro h0
    rw [choose_fst hu]
    obtain ⟨machines, online, offline, mtx⟩ := lb
    cases hm
    cases h0
    rfl
  · intro h0
    obtain ⟨k, hk, e, hmin⟩ := choose_first (show ({ lb with mtx := some t } : LoadBalance).online ≠ [] from h0) hu
    exact ⟨k, hk, e, by rw [hn]; exact (hids k hk).2, hmin⟩
  · rw [choose_fst hu]
    rw [← Nat.zero_add j]
    exact @load_updateAll_probe probes 0 lb.online { lb with mtx := some t } hl.nodup_toNat
      (fun x hx => (hids x hx).2) (fun k hk => by rw [Nat.zero_add]; exact hok k hk) j x hx

/-- Two machines, the status of the first left out. -/
theorem smartChoice_first_two : ∃ lb' k, twoMachines.smartChoice 0
    (fun i => if i = 0 then .failed else .stored 5) = some (lb', .found k k.toNat) ∧ lb'.load 1 = 5 := by
  obtain ⟨lb', c, h, -, -, hk, -, -, hl⟩ := smartChoice_first (show twoMachines.mtx = none by decide)
    (by decide) (show ∀ i < twoMachines.online.length, (if i = 0 then .failed else .stored 5 : Probe) ≠ .threw by
      decide) 0
  obtain ⟨k, -, e, -⟩ := hk (by decide)
  exact ⟨lb', k, e ▸ h, (hl (listed_new.loadConf _)).2 1 1 rfl⟩

end LoadBalance

end OJ.Server
