import DistributedOj.Framework.Roster
import DistributedOj.Framework.Run
import DistributedOj.OjServer.LoadBalance

/-!
# The lists of online and offline machines

The two lists are a roster of the ids `0 .. machines.size() - 1` (`Listed`):
`OfflineMachine` retires a member of it and `OnlineMachine` restores all of
them (`roster_takeOffline`, `roster_putOnline`), `SmartChoice` leaves it alone
(`choose_lists`), and `LoadConf` makes one (`Listed.loadConf`). So they
are a permutation of the ids after any calls in any order
(`lists_of_calls`).
-/

namespace OJ.Server

open OJ.Comm OJ.Framework

/-- The ids of `n` machines. -/
def ids (n : Nat) : List Int := (List.range n).map Int.ofNat

theorem mem_ids {n : Nat} {x : Int} : x ∈ ids n ↔ 0 ≤ x ∧ x.toNat < n := by
  simp only [ids, List.mem_map, List.mem_range]
  constructor
  · rintro ⟨k, hk, rfl⟩; exact ⟨Int.natCast_nonneg k, hk⟩
  · intro h; exact ⟨x.toNat, h.2, Int.toNat_of_nonneg h.1⟩

theorem nodup_ids (n : Nat) : (ids n).Nodup :=
  List.nodup_range.map fun _ _ h => Int.ofNat.inj h

theorem ids_succ (n : Nat) : ids (n + 1) = ids n ++ [(n : Int)] := by
  simp [ids, List.range_succ]

namespace LoadBalance

/-- The lists, as a roster. -/
def roster (lb : LoadBalance) : Roster Int := ⟨lb.online, lb.offline⟩

/-- Every id is in exactly one of the lists, once. -/
def Listed (lb : LoadBalance) : Prop := lb.roster.Of (ids lb.machines.length)

theorem Listed.mem_ids {lb : LoadBalance} (h : lb.Listed) {x : Int} (hx : x ∈ lb.online) :
    0 ≤ x ∧ x.toNat < lb.machines.length :=
  Server.mem_ids.mp (h.mem.mpr (.inl hx))

theorem Listed.nodup {lb : LoadBalance} (h : lb.Listed) : lb.online.Nodup :=
  h.nodup_active (nodup_ids _)

theorem Listed.notMem_offline {lb : LoadBalance} (h : lb.Listed) {x : Int} (hx : x ∈ lb.online) :
    x ∉ lb.offline :=
  h.notMem_away (nodup_ids _) hx

theorem Listed.congr {lb lb' : LoadBalance} (h : lb.Listed) (hr : lb'.roster = lb.roster)
    (hn : lb'.machines.length = lb.machines.length) : lb'.Listed := by
  rw [Listed, hr, hn]
  exact h

theorem roster_takeOffline (which : Int) (lb : LoadBalance) :
    (lb.takeOffline which).roster = lb.roster.retire which := by
  by_cases h : which ∈ lb.online
  · rw [Roster.retire_of_mem h, takeOffline, if_pos h]; rfl
  · rw [Roster.retire_of_notMem h, takeOffline, if_neg h]

theorem online_takeOffline (which : Int) (lb : LoadBalance) :
    (lb.takeOffline which).online = lb.online.erase which :=
  (congrArg Roster.active (roster_takeOffline which lb)).trans (Roster.active_retire which lb.roster)

theorem roster_putOnline (lb : LoadBalance) : lb.putOnline.roster = lb.roster.restore := rfl

theorem length_machines_takeOffline (which : Int) (lb : LoadBalance) :
    (lb.takeOffline which).machines.length = lb.machines.length := by
  unfold takeOffline
  split
  · exact length_machines_modify ..
  · rfl

theorem Listed.takeOffline {lb : LoadBalance} (h : lb.Listed) (which : Int) :
    (lb.takeOffline which).Listed := by
  rw [Listed, roster_takeOffline, length_machines_takeOffline]
  exact h.retire

theorem Listed.putOnline {lb : LoadBalance} (h : lb.Listed) : lb.putOnline.Listed := by
  rw [Listed, roster_putOnline]
  exact h.restore

/-! ## The configuration file -/

theorem listed_new : new.Listed := List.Perm.refl _

/-- A line adds one machine, online under the next id, or nothing. -/
theorem loadLine_cases (lb : LoadBalance) (line : Str) :
    (∃ ip port, splitString line ":".toList = [ip, port] ∧
      lb.loadLine line = { lb with
        online := lb.online ++ [(lb.machines.length : Int)]
        machines := lb.machines ++ [⟨ip, atoi port, 0⟩] }) ∨
    lb.loadLine line = lb := by
  unfold loadLine
  split
  · exact .inl ⟨_, _, ‹_›, rfl⟩
  · exact .inr rfl

theorem Listed.loadLine {lb : LoadBalance} (h : lb.Listed) (line : Str) :
    (lb.loadLine line).Listed := by
  obtain ⟨ip, port, -, e⟩ | e := loadLine_cases lb line
  · rw [e, Listed, Roster.Of, roster, List.length_append, List.length_singleton, ids_succ]
    calc (lb.online ++ [(lb.machines.length : Int)] ++ lb.offline).Perm
          (lb.online ++ lb.offline ++ [(lb.machines.length : Int)]) := by
            rw [List.append_assoc, List.append_assoc]
            exact List.perm_append_comm.append_left _
      _ |>.Perm _ := h.append_right _
  · rwa [e]

theorem Listed.loadConf {lb : LoadBalance} (h : lb.Listed) (conf : Option Str) :
    (lb.loadConf conf).1.Listed := by
  cases conf with
  | none => exact h
  | some file =>
    rw [LoadBalance.loadConf]
    induction getline file generalizing lb with
    | nil => exact h
    | cons line lines ih => exact ih (h.loadLine line)

/-- The configuration file says nothing of the offline list and the lock. -/
theorem loadConf_rest (lb : LoadBalance) (conf : Option Str) :
    (lb.loadConf conf).1.offline = lb.offline ∧ (lb.loadConf conf).1.mtx = lb.mtx := by
  cases conf with
  | none => exact ⟨rfl, rfl⟩
  | some file =>
    rw [loadConf]
    induction getline file generalizing lb with
    | nil => exact ⟨rfl, rfl⟩
    | cons line lines ih =>
      obtain ⟨ip, port, -, e⟩ | e := loadLine_cases lb line
      · rw [List.foldl_cons, e]
        exact ih _
      · rw [List.foldl_cons, e]
        exact ih _

/-! ## Calls in any order -/

@[simp] theorem roster_modify (m : Nat) (f : Machine → Machine) (lb : LoadBalance) :
    (lb.modify m f).roster = lb.roster := rfl

theorem updateAll_lists (probes : Nat → Probe) (i : Nat) (xs : List Int) (lb : LoadBalance) :
    (lb.updateAll probes i xs).1.roster = lb.roster ∧
      (lb.updateAll probes i xs).1.machines.length = lb.machines.length ∧
      (lb.updateAll probes i xs).1.mtx = lb.mtx := by
  induction xs generalizing i lb with
  | nil => exact ⟨rfl, rfl, rfl⟩
  | cons id xs ih =>
    have step (p : Probe) := ih (i + 1) (lb.modify id.toNat (·.updateStatus p))
    simp only [roster_modify, length_machines_modify, mtx_modify] at step
    cases h : probes i with
    | failed => simpa only [updateAll, h] using step .failed
    | stored load => simpa only [updateAll, h] using step (.stored load)
    | threw => simp only [updateAll, h, and_self]

theorem choose_lists (probes : Nat → Probe) (lb : LoadBalance) :
    (lb.choose probes).1.roster = lb.roster ∧
      (lb.choose probes).1.machines.length = lb.machines.length := by
  unfold choose
  split
  · exact ⟨rfl, rfl⟩
  · have h := updateAll_lists probes 0 lb.online lb
    dsimp only
    split <;> exact ⟨h.1, h.2.1⟩

theorem Listed.choose {lb : LoadBalance} (h : lb.Listed) (probes : Nat → Probe) :
    (lb.choose probes).1.Listed :=
  h.congr (choose_lists probes lb).1 (choose_lists probes lb).2

/-- A call of one of the operations by a thread. -/
inductive Op where
  | smartChoice (t : Nat) (probes : Nat → Probe)
  | offlineMachine (t : Nat) (which : Int)
  | onlineMachine (t : Nat)

/-- A whole call, under the lock. -/
def call (lb : LoadBalance) : Op → Option LoadBalance
  | .smartChoice t probes => (lb.smartChoice t probes).map Prod.fst
  | .offlineMachine t which => lb.offlineMachine t which
  | .onlineMachine t => lb.onlineMachine t

/-- Every call keeps the lists a permutation of the ids. -/
theorem Listed.call {lb lb' : LoadBalance} (h : lb.Listed) {op : Op} (hc : lb.call op = some lb') :
    lb'.Listed := by
  cases op with
  | smartChoice t probes =>
    simp only [LoadBalance.call, smartChoice, Option.map_map, Option.map_eq_some_iff, lock_eq_some] at hc
    obtain ⟨_, ⟨-, rfl⟩, rfl⟩ := hc
    exact (show Listed { lb with mtx := some t } from h).choose probes
  | offlineMachine t which =>
    simp only [LoadBalance.call, offlineMachine, Option.map_eq_some_iff, lock_eq_some] at hc
    obtain ⟨_, ⟨-, rfl⟩, rfl⟩ := hc
    exact (show Listed { lb with mtx := some t } from h).takeOffline which
  | onlineMachine t =>
    simp only [LoadBalance.call, onlineMachine, Option.map_eq_some_iff, lock_eq_some] at hc
    obtain ⟨_, ⟨-, rfl⟩, rfl⟩ := hc
    exact (show Listed { lb with mtx := some t } from h).putOnline

/-- A call returns unless the lock is held, as it stays after a `SmartChoice`
that threw. -/
theorem isSome_call_iff (lb : LoadBalance) (op : Op) : (lb.call op).isSome ↔ lb.mtx = none := by
  cases op <;>
    simp [call, smartChoice, offlineMachine, onlineMachine, lock]

theorem offline_onlineMachine {lb lb' : LoadBalance} {t : Nat}
    (h : lb.onlineMachine t = some lb') : lb'.offline = [] := by
  simp only [onlineMachine, Option.map_eq_some_iff] at h
  obtain ⟨_, -, rfl⟩ := h
  rfl

/-- From a configuration file, after any calls in any order: the lists are
together a permutation of the ids; right after `OnlineMachine`, which returns
when the lock is free, the offline list is empty and the online list has every
id once. -/
theorem lists_of_calls (file : Str) {ops : List Op} {lb : LoadBalance}
    (h : Run call Free (new.loadConf (some file)).1 ops lb) :
    (lb.online ++ lb.offline).Perm (ids lb.machines.length) ∧
      (∀ before t, ops = before ++ [.onlineMachine t] →
        lb.offline = [] ∧ lb.online.Perm (ids lb.machines.length)) ∧
      ∀ t, (lb.call (.onlineMachine t)).isSome ↔ lb.mtx = none := by
  have hl : lb.Listed := h.inv (fun _ _ _ h _ => h.call) (listed_new.loadConf _)
  refine ⟨hl, ?_, fun t => lb.isSome_call_iff _⟩
  rintro before t rfl
  obtain ⟨lb₁, -, h⟩ := h.split
  cases h with
  | cons _ hs h =>
    cases h
    have ho := offline_onlineMachine hs
    have hp : (lb.online ++ lb.offline).Perm (ids lb.machines.length) := hl
    rw [ho, List.append_nil] at hp
    exact ⟨ho, hp⟩

/-- A machine that is taken offline and put back. -/
theorem lists_of_calls_two : ∃ lb,
    Run call Free (new.loadConf (some "127.0.0.1:8181\n127.0.0.1:8182\n".toList)).1
      [.offlineMachine 0 0, .onlineMachine 1] lb ∧
    lb.online = [1, 0] ∧ lb.offline = [] ∧ lb.online.Perm (ids lb.machines.length) ∧
    (lb.call (.onlineMachine 0)).isSome := by
  have h : Run call Free (new.loadConf (some "127.0.0.1:8181\n127.0.0.1:8182\n".toList)).1
      [.offlineMachine 0 0, .onlineMachine 1] { twoMachines with online := [1, 0] } :=
    .of_replay (by decide)
  obtain ⟨-, hlists, hreturns⟩ := lists_of_calls _ h
  obtain ⟨hoff, hon⟩ := hlists [.offlineMachine 0 0] 1 rfl
  exact ⟨_, h, rfl, hoff, hon, (hreturns 0).mpr rfl⟩

end LoadBalance

end OJ.Server
