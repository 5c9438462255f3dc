import DistributedOj.Comm.Json

/-!
# A backend as the dispatcher sees it

`Machine` (`oj_control.hpp`) is the address of a backend and its load. Each
method takes the machine's own lock for one access to `load`, so each is one
step here and the lock is left out. `UpdateStatus` ends in one of three ways
(`Probe`): it stores the load it computes from the backend's status, it leaves
the old one, or reading the status throws (`updateStatus_threw_iff`).
-/

namespace OJ.Server

open OJ.Comm

/-- `Machine`. -/
structure Machine where
  ip : Str
  port : Int
  load : UInt64
  deriving DecidableEq, Repr

/-- How `UpdateStatus` ends: with false, with a new load stored, or with an
exception. -/
inductive Probe where
  | failed
  | stored (load : UInt64)
  | threw
  deriving DecidableEq, Repr

namespace Machine

def incLoad (m : Machine) : Machine := { m with load := m.load + 1 }
def decLoad (m : Machine) : Machine := { m with load := m.load - 1 }
def resetLoad (m : Machine) : Machine := { m with load := 0 }

/-- What a call of `UpdateStatus` that ends with `p` leaves of the machine. -/
def updateStatus (m : Machine) : Probe → Machine
  | .stored load => { m with load := load }
  | .failed | .threw => m

end Machine

/-- What a call of `UpdateStatus` leaves of a load. -/
def Probe.load : Probe → UInt64 → UInt64
  | .stored load, _ => load
  | .failed, old | .threw, old => old

theorem Machine.load_updateStatus (m : Machine) (p : Probe) : (m.updateStatus p).load = p.load m.load := by
  cases p <;> rfl

/-- The load of a status: its weighted fields, in the order `UpdateStatus`
reads and adds them. -/
def statusLoad (J : JsonCpp) (status : Json) : Except JsonException UInt64 := do
  let cpuUsage ← J.asUInt64 (← J.index status "cpu_usage".toList)
  let memoryUsage ← J.asUInt64 (← J.index status "memory_usage".toList)
  let networkUsage ← J.asUInt64 (← J.index status "network_usage".toList)
  let diskIoUsage ← J.asUInt64 (← J.index status "disk_io_usage".toList)
  let activeConnections ← J.asUInt64 (← J.index status "active_connections".toList)
  let loadAverage := J.index status "load_average".toList
  let loadAvg1min ← J.asDouble (← J.index (← loadAverage) "1min".toList)
  let loadAvg5min ← J.asDouble (← J.index (← loadAverage) "5min".toList)
  let loadAvg15min ← J.asDouble (← J.index (← loadAverage) "15min".toList)
  let responseTime ← J.asFloat (← J.index status "response_time".toList)
  let totalLoad := cpuUsage.toFloat * 0.4 + memoryUsage.toFloat * 0.2 +
    networkUsage.toFloat * 0.1 + diskIoUsage.toFloat * 0.1 +
    activeConnections.toFloat * 0.05 +
    (loadAvg1min + loadAvg5min + loadAvg15min) * 0.1 / 3 + responseTime.toFloat * 0.05
  return J.staticCast totalLoad

/-- `UpdateStatus`, from what `cli.Get("/status")` returned. -/
def updateStatus (J : JsonCpp) : Option Response → Probe
  | none => .failed
  | some res =>
    if res.status = 200 then
      match J.parse res.body with
      | .error _ => .threw
      | .ok none => .failed
      | .ok (some status) =>
        match statusLoad J status with
        | .ok load => .stored load
        | .error _ => .threw
    else .failed

/-- A status that `UpdateStatus` cannot read: an answer 200 whose body is nested too
deeply, or is JSON of which some field is missing its object or its number. -/
def Malformed (J : JsonCpp) (res : Option Response) : Prop :=
  ∃ r, res = some r ∧ r.status = 200 ∧ ((∃ e, J.parse r.body = .error e) ∨
    ∃ status, J.parse r.body = .ok (some status) ∧ ∃ e, statusLoad J status = .error e)

/-- `UpdateStatus` throws on a malformed status and on no other answer. -/
theorem updateStatus_threw_iff (J : JsonCpp) (res : Option Response) :
    updateStatus J res = .threw ↔ Malformed J res := by
  cases res with
  | none => simp [updateStatus, Malformed]
  | some r =>
    simp only [updateStatus, Malformed, Option.some.injEq, exists_eq_left']
    by_cases h : r.status = 200
    · rcases hp : J.parse r.body with e | _ | status
      · simp [h]
      · simp [h]
      · cases hs : statusLoad J status with
        | error e => simp [h, hs]
        | ok load => simp [h, hs]
    · simp [h]

end OJ.Server
