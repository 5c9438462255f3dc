import DistributedOj.Framework.Run
import DistributedOj.OjServer.LoadBalance

/-!
# Concurrent calls of `Judge`

`Control::Judge` (`oj_control.hpp`) from its `while (true)` on, as the steps
that other threads can come between: each access to the load of a machine, each
status and each POST is a step, and so is a critical section of the load
balancer without one of these in it. `Sys.step` interleaves any number of
calls, and `RecoveryMachine`. What a backend or a status answers is part of the
event, so that a statement about some backends is a condition on the events.

`CallStep` lists what a call can do, and `Sys.step_cases` what the system can;
every invariant is proved from these.
-/

namespace OJ.Server

open OJ.Comm OJ.Framework

/-- Where a call of `Judge` is. In `probing` and `scanning` it is in the loops
of `SmartChoice` at index `i` of `n = online_num`, and holds the lock. -/
inductive Pc where
  /-- Before `SmartChoice`. -/
  | choose
  | probing (n i : Nat)
  | scanning (n i : Nat) (minLoad : UInt64) (id : Int) (m : Nat)
  /-- Before `m->IncLoad()`. -/
  | chosen (id : Int) (m : Nat)
  /-- In `cli.Post`. -/
  | posting (id : Int) (m : Nat)
  /-- Before `m->DecLoad()`; then the loop goes on (`retry`) or is left. -/
  | answered (id : Int) (m : Nat) (retry : Bool)
  /-- Before `OfflineMachine(id)`. -/
  | failed (id : Int) (m : Nat)
  /-- Before `ShowMachines()`. -/
  | showing
  | done
  /-- Left by an exception out of `SmartChoice`. -/
  | threw
  deriving DecidableEq, Repr

/-- A call of `Judge`: what it posts, and `*out_json` once it is set. -/
structure Call where
  compileString : Str
  pc : Pc
  outJson : Option Str
  deriving DecidableEq, Repr

/-- A step of a call: `UpdateStatus` of a machine, a POST to a machine, or one
that nothing outside takes part in. -/
inductive Act where
  | tau
  | probe (m : Nat) (p : Probe)
  | post (m : Nat) (compileString : Str) (res : Option Response)
  deriving DecidableEq, Repr

namespace Call

/-- The call has not begun. -/
def Fresh (c : Call) : Prop := c.pc = .choose ∧ c.outJson = none

/-- The next step of call `t`. -/
def step (t : Nat) (lb : LoadBalance) (c : Call) (a : Act) : Option (LoadBalance × Call) :=
  match c.pc, a with
  | .choose, .tau =>
    (lb.lock t).map fun lb =>
      if lb.online.length = 0 then (lb.unlock, { c with pc := .done })
      else (lb, { c with pc := .probing lb.online.length 0 })
  | .probing n i, .probe m p =>
    if i < n ∧ lb.online[i]?.map Int.toNat = some m then
      if p = .threw then some (lb, { c with pc := .threw })
      else some (lb.modify m (·.updateStatus p), { c with pc := .probing n (i + 1) })
    else none
  | .probing n i, .tau =>
    if i < n then none
    else lb.online[0]?.map fun id =>
      (lb, { c with pc := .scanning n 0 (lb.load id.toNat) id id.toNat })
  | .scanning n i minLoad id m, .tau =>
    if i < n then
      lb.online[i]?.map fun x =>
        if minLoad > lb.load x.toNat then
          (lb, { c with pc := .scanning n (i + 1) (lb.load x.toNat) x x.toNat })
        else (lb, { c with pc := .scanning n (i + 1) minLoad id m })
    else some (lb.unlock, { c with pc := .chosen id m })
  | .chosen id m, .tau => some (lb.modify m Machine.incLoad, { c with pc := .posting id m })
  | .posting id m, .post m' req res =>
    if m' = m ∧ req = c.compileString then
      match res with
      | some r =>
        if r.status = 200 then
          some (lb, { c with pc := .answered id m false, outJson := some r.body })
        else some (lb, { c with pc := .answered id m true })
      | none => some (lb, { c with pc := .failed id m })
    else none
  | .answered _ m retry, .tau =>
    some (lb.modify m Machine.decLoad, { c with pc := if retry then .choose else .done })
  | .failed id _, .tau => (lb.offlineMachine t id).map fun lb => (lb, { c with pc := .showing })
  | .showing, .tau => (lb.showMachines t).map fun lb => (lb, { c with pc := .choose })
  | _, _ => none

end Call

/-- What a step of call `t` does. -/
inductive CallStep (t : Nat) (lb : LoadBalance) (c : Call) : Act → LoadBalance → Call → Prop
  | giveUp : c.pc = .choose → lb.mtx = none → lb.online = [] →
      CallStep t lb c .tau lb { c with pc := .done }
  | enter : c.pc = .choose → lb.mtx = none → lb.online ≠ [] →
      CallStep t lb c .tau { lb with mtx := some t } { c with pc := .probing lb.online.length 0 }
  | probeThrew {n i : Nat} {id : Int} : c.pc = .probing n i → i < n → lb.online[i]? = some id →
      CallStep t lb c (.probe id.toNat .threw) lb { c with pc := .threw }
  | probe {n i : Nat} {id : Int} {p : Probe} : c.pc = .probing n i → i < n →
      lb.online[i]? = some id → p ≠ .threw →
      CallStep t lb c (.probe id.toNat p) (lb.modify id.toNat (·.updateStatus p))
        { c with pc := .probing n (i + 1) }
  | first {n i : Nat} {id : Int} : c.pc = .probing n i → n ≤ i → lb.online[0]? = some id →
      CallStep t lb c .tau lb { c with pc := .scanning n 0 (lb.load id.toNat) id id.toNat }
  | better {n i : Nat} {minLoad : UInt64} {id x : Int} {m : Nat} :
      c.pc = .scanning n i minLoad id m → i < n → lb.online[i]? = some x →
      minLoad > lb.load x.toNat →
      CallStep t lb c .tau lb { c with pc := .scanning n (i + 1) (lb.load x.toNat) x x.toNat }
  | worse {n i : Nat} {minLoad : UInt64} {id x : Int} {m : Nat} :
      c.pc = .scanning n i minLoad id m → i < n → lb.online[i]? = some x →
      ¬ minLoad > lb.load x.toNat →
      CallStep t lb c .tau lb { c with pc := .scanning n (i + 1) minLoad id m }
  | leave {n i : Nat} {minLoad : UInt64} {id : Int} {m : Nat} :
      c.pc = .scanning n i minLoad id m → n ≤ i →
      CallStep t lb c .tau lb.unlock { c with pc := .chosen id m }
  | incLoad {id : Int} {m : Nat} : c.pc = .chosen id m →
      CallStep t lb c .tau (lb.modify m Machine.incLoad) { c with pc := .posting id m }
  | postOk {id : Int} {m : Nat} {r : Response} : c.pc = .posting id m → r.status = 200 →
      CallStep t lb c (.post m c.compileString (some r)) lb
        { c with pc := .answered id m false, outJson := some r.body }
  | postBad {id : Int} {m : Nat} {r : Response} : c.pc = .posting id m → r.status ≠ 200 →
      CallStep t lb c (.post m c.compileString (some r)) lb { c with pc := .answered id m true }
  | postLost {id : Int} {m : Nat} : c.pc = .posting id m →
      CallStep t lb c (.post m c.compileString none) lb { c with pc := .failed id m }
  | decLoad {id : Int} {m : Nat} {retry : Bool} : c.pc = .answered id m retry →
      CallStep t lb c .tau (lb.modify m Machine.decLoad)
        { c with pc := if retry then .choose else .done }
  | offline {id : Int} {m : Nat} : c.pc = .failed id m → lb.mtx = none →
      CallStep t lb c .tau (lb.takeOffline id) { c with pc := .showing }
  | shown : c.pc = .showing → lb.mtx = none → CallStep t lb c .tau lb { c with pc := .choose }

namespace LoadBalance

theorem unlock_of_mtx {lb : LoadBalance} (h : lb.mtx = none) : lb.unlock = lb := by
  cases lb; cases h; rfl

theorem unlock_lock {lb : LoadBalance} {t : Nat} (h : lb.mtx = none) :
    unlock { lb with mtx := some t } = lb := unlock_of_mtx h

@[simp] theorem mtx_takeOffline (which : Int) (lb : LoadBalance) :
    (lb.takeOffline which).mtx = lb.mtx := by
  unfold takeOffline
  split <;> rfl

/-- A critical section that is one step. -/
theorem offlineMachine_eq_some {t : Nat} {which : Int} {lb lb' : LoadBalance} :
    lb.offlineMachine t which = some lb' ↔ lb.mtx = none ∧ lb' = lb.takeOffline which := by
  have e : ({ lb with mtx := some t }.takeOffline which).unlock = (lb.takeOffline which).unlock := by
    unfold takeOffline
    split <;> rfl
  simp only [offlineMachine, Option.map_eq_some_iff, lock_eq_some]
  constructor
  · rintro ⟨_, ⟨hm, rfl⟩, rfl⟩
    exact ⟨hm, by rw [e, unlock_of_mtx (by simpa using hm)]⟩
  · rintro ⟨hm, rfl⟩
    exact ⟨_, ⟨hm, rfl⟩, by rw [e, unlock_of_mtx (by simpa using hm)]⟩

theorem showMachines_eq_some {t : Nat} {lb lb' : LoadBalance} :
    lb.showMachines t = some lb' ↔ lb.mtx = none ∧ lb' = lb := by
  simp only [showMachines, Option.map_eq_some_iff, lock_eq_some]
  constructor
  · rintro ⟨_, ⟨hm, rfl⟩, rfl⟩
    exact ⟨hm, unlock_of_mtx hm⟩
  · rintro ⟨hm, rfl⟩
    exact ⟨_, ⟨hm, rfl⟩, unlock_of_mtx hm⟩

theorem onlineMachine_eq_some {t : Nat} {lb lb' : LoadBalance} :
    lb.onlineMachine t = some lb' ↔ lb.mtx = none ∧ lb' = lb.putOnline := by
  simp only [onlineMachine, Option.map_eq_some_iff, lock_eq_some]
  constructor
  · rintro ⟨_, ⟨hm, rfl⟩, rfl⟩
    exact ⟨hm, unlock_of_mtx (show lb.putOnline.mtx = none from hm)⟩
  · rintro ⟨hm, rfl⟩
    exact ⟨_, ⟨hm, rfl⟩, unlock_of_mtx (show lb.putOnline.mtx = none from hm)⟩

end LoadBalance

open LoadBalance

theorem CallStep.of_step {t : Nat} {lb lb' : LoadBalance} {c c' : Call} {a : Act}
    (h : c.step t lb a = some (lb', c')) : CallStep t lb c a lb' c' := by
  unfold Call.step at h
  split at h
  case h_1 hpc =>
    simp only [Option.map_eq_some_iff, lock_eq_some] at h
    obtain ⟨_, ⟨hm, rfl⟩, h⟩ := h
    split at h
    · next h0 =>
      cases h
      rw [unlock_lock hm]
      exact .giveUp hpc hm (List.length_eq_zero_iff.mp h0)
    · next h0 => cases h; exact .enter hpc hm fun e => h0 (by rw [e]; rfl)
  case h_2 n i m p hpc =>
    split at h
    · next hi =>
      obtain ⟨hi, hid⟩ := hi
      simp only [Option.map_eq_some_iff] at hid
      obtain ⟨id, hid, rfl⟩ := hid
      split at h
      · next hp => cases h; cases hp; exact .probeThrew hpc hi hid
      · next hp => cases h; exact .probe hpc hi hid hp
    · cases h
  case h_3 n i hpc =>
    split at h
    · cases h
    · next hi =>
      simp only [Option.map_eq_some_iff] at h
      obtain ⟨id, hid, h⟩ := h
      cases h
      exact .first hpc (Nat.le_of_not_lt hi) hid
  case h_4 n i minLoad id m hpc =>
    split at h
    · next hi =>
      simp only [Option.map_eq_some_iff] at h
      obtain ⟨x, hx, h⟩ := h
      split at h
      · next hl => cases h; exact .better hpc hi hx hl
      · next hl => cases h; exact .worse hpc hi hx hl
    · next hi => cases h; exact .leave hpc (Nat.le_of_not_lt hi)
  case h_5 hpc => cases h; exact .incLoad hpc
  case h_6 id m m' req res hpc =>
    split at h
    · next hm =>
      obtain ⟨rfl, rfl⟩ := hm
      split at h
      · split at h
        · next hs => cases h; exact .postOk hpc hs
        · next hs => cases h; exact .postBad hpc hs
      · cases h; exact .postLost hpc
    · cases h
  case h_7 hpc => cases h; exact .decLoad hpc
  case h_8 hpc =>
    simp only [Option.map_eq_some_iff, offlineMachine_eq_some] at h
    obtain ⟨_, ⟨hm, rfl⟩, h⟩ := h
    cases h
    exact .offline hpc hm
  case h_9 hpc =>
    simp only [Option.map_eq_some_iff, showMachines_eq_some] at h
    obtain ⟨_, ⟨hm, rfl⟩, h⟩ := h
    cases h
    exact .shown hpc hm
  case h_10 => cases h

theorem CallStep.to_step {t : Nat} {lb lb' : LoadBalance} {c c' : Call} {a : Act}
    (h : CallStep t lb c a lb' c') : c.step t lb a = some (lb', c') := by
  cases h with
  | giveUp hpc hm h0 =>
    simp only [Call.step, hpc, lock, if_pos hm, Option.map_some, h0, List.length_nil, if_true]
    rw [← h0, unlock_lock hm]
  | enter hpc hm h0 => simp [Call.step, hpc, lock, hm, h0]
  | probeThrew hpc hi hid => simp [Call.step, hpc, hi, hid]
  | probe hpc hi hid hp => simp [Call.step, hpc, hi, hid, hp]
  | first hpc hi hid => simp [Call.step, hpc, Nat.not_lt.mpr hi, hid]
  | better hpc hi hx hl => simp [Call.step, hpc, hi, hx, hl]
  | worse hpc hi hx hl => simp [Call.step, hpc, hi, hx, hl]
  | leave hpc hi => simp [Call.step, hpc, Nat.not_lt.mpr hi]
  | incLoad hpc => simp [Call.step, hpc]
  | postOk hpc hs => simp [Call.step, hpc, hs]
  | postBad hpc hs => simp [Call.step, hpc, hs]
  | postLost hpc => simp [Call.step, hpc]
  | decLoad hpc => simp [Call.step, hpc]
  | offline hpc hm => simp [Call.step, hpc, offlineMachine_eq_some.mpr ⟨hm, rfl⟩]
  | shown hpc hm => simp [Call.step, hpc, showMachines_eq_some.mpr ⟨hm, rfl⟩]

/-! ## The system -/

/-- The load balancer and the calls of `Judge`, each in a thread of its own. -/
structure Sys where
  lb : LoadBalance
  calls : List Call
  deriving DecidableEq, Repr

/-- A step of a call, or `RecoveryMachine` in some thread. -/
inductive Event where
  | call (t : Nat) (a : Act)
  | recover (t : Nat)
  deriving DecidableEq, Repr

namespace Sys

/-- Calls that post `reqs`, before their loops. -/
def start (lb : LoadBalance) (reqs : List Str) : Sys := ⟨lb, reqs.map (⟨·, .choose, none⟩)⟩

theorem start_calls {lb : LoadBalance} {reqs : List Str} {t : Nat} {c : Call}
    (hc : (start lb reqs).calls[t]? = some c) : c.Fresh := by
  simp only [start, List.getElem?_map, Option.map_eq_some_iff] at hc
  obtain ⟨_, -, rfl⟩ := hc
  exact ⟨rfl, rfl⟩

def step (s : Sys) : Event → Option Sys
  | .call t a => do
    let c ← s.calls[t]?
    let (lb, c) ← c.step t s.lb a
    return ⟨lb, s.calls.set t c⟩
  | .recover t => (s.lb.onlineMachine t).map ({ s with lb := · })

theorem step_cases {s s' : Sys} {e : Event} (h : s.step e = some s') :
    (∃ t a c lb' c', e = .call t a ∧ s.calls[t]? = some c ∧ CallStep t s.lb c a lb' c' ∧
      s' = ⟨lb', s.calls.set t c'⟩) ∨
    (∃ t, e = .recover t ∧ s.lb.mtx = none ∧ s' = { s with lb := s.lb.putOnline }) := by
  cases e with
  | call t a =>
    simp only [step, Option.bind_eq_bind, Option.bind_eq_some_iff] at h
    obtain ⟨c, hc, ⟨lb', c'⟩, hs, h⟩ := h
    cases h
    exact .inl ⟨t, a, c, lb', c', rfl, hc, .of_step hs, rfl⟩
  | recover t =>
    simp only [step, Option.map_eq_some_iff, onlineMachine_eq_some] at h
    obtain ⟨_, ⟨hm, rfl⟩, rfl⟩ := h
    exact .inr ⟨t, rfl, hm, rfl⟩

theorem step_call {s : Sys} {t : Nat} {a : Act} {c c' : Call} {lb' : LoadBalance}
    (hc : s.calls[t]? = some c) (h : CallStep t s.lb c a lb' c') :
    s.step (.call t a) = some ⟨lb', s.calls.set t c'⟩ := by
  simp [step, hc, h.to_step]

end Sys

end OJ.Server
