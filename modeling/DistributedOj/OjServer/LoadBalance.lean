import DistributedOj.OjServer.Machine

/-!
# The load balancer

`LoadBalance` (`oj_control.hpp`): the machines of a configuration file, the
ids of those online and of those offline, and the lock over both lists. Every
operation takes the lock first and cannot happen while a thread holds it. The
lock and the load of a machine change nothing else (`mtx_modify`,
`load_modify_of_ne`).
-/

namespace OJ.Server

open OJ.Comm

/-- `LoadBalance`; `mtx` is the thread that holds the lock. -/
structure LoadBalance where
  machines : List Machine
  online : List Int
  offline : List Int
  mtx : Option Nat
  deriving DecidableEq, Repr

/-- How `SmartChoice` exits: with true and `*id`, `*m` (an index into
`machines`), with false, or with an exception. -/
inductive Choice where
  | found (id : Int) (m : Nat)
  | allOffline
  | threw
  deriving DecidableEq, Repr

namespace LoadBalance

/-- `LoadBalance()`, before the configuration is loaded. -/
def new : LoadBalance := ⟨[], [], [], none⟩

/-- A line of the configuration file. -/
def loadLine (lb : LoadBalance) (line : Str) : LoadBalance :=
  match splitString line ":".toList with
  | [ip, port] =>
    { lb with
      online := lb.online ++ [(lb.machines.length : Int)]
      machines := lb.machines ++ [⟨ip, atoi port, 0⟩] }
  | _ => lb

/-- `LoadConf`, for the contents of the file, if it can be opened. -/
def loadConf (lb : LoadBalance) : Option Str → LoadBalance × Bool
  | none => (lb, false)
  | some file => ((getline file).foldl loadLine lb, true)

/-- `mtx.lock()`: not while a thread holds it. -/
def lock (t : Nat) (lb : LoadBalance) : Option LoadBalance :=
  if lb.mtx = none then some { lb with mtx := some t } else none

/-- `mtx.unlock()`. -/
def unlock (lb : LoadBalance) : LoadBalance := { lb with mtx := none }

/-- `machines[m].Load()`. -/
def load (lb : LoadBalance) (m : Nat) : UInt64 := (lb.machines[m]?.map Machine.load).getD 0

/-- A method of `machines[m]`. -/
def modify (m : Nat) (f : Machine → Machine) (lb : LoadBalance) : LoadBalance :=
  { lb with machines := lb.machines.modify m f }

/-- The first loop of `SmartChoice` from index `i` on, over the ids left;
false if `UpdateStatus` throws. -/
def updateAll (probes : Nat → Probe) : Nat → List Int → LoadBalance → LoadBalance × Bool
  | _, [], lb => (lb, true)
  | i, id :: ids, lb =>
    match probes i with
    | .threw => (lb, false)
    | p => updateAll probes (i + 1) ids (lb.modify id.toNat (·.updateStatus p))

/-- The second loop of `SmartChoice`, over the ids left: the id and the machine
found. -/
def scan (lb : LoadBalance) : List Int → UInt64 → Int → Nat → Int × Nat
  | [], _, id, m => (id, m)
  | x :: xs, minLoad, id, m =>
    if minLoad > lb.load x.toNat then lb.scan xs (lb.load x.toNat) x x.toNat
    else lb.scan xs minLoad id m

/-- `SmartChoice` once it holds the lock, where the `i`-th status that it asks
for ends as `probes i` and no other thread changes a load meanwhile. -/
def choose (probes : Nat → Probe) (lb : LoadBalance) : LoadBalance × Choice :=
  match lb.online with
  | [] => (lb.unlock, .allOffline)
  | first :: _ =>
    let r := lb.updateAll probes 0 lb.online
    if r.2 then
      let c := r.1.scan lb.online (r.1.load first.toNat) first first.toNat
      (r.1.unlock, .found c.1 c.2)
    else (r.1, .threw)

def smartChoice (t : Nat) (probes : Nat → Probe) (lb : LoadBalance) :
    Option (LoadBalance × Choice) :=
  (lb.lock t).map (choose probes)

/-- The loop of `OfflineMachine`. -/
def takeOffline (which : Int) (lb : LoadBalance) : LoadBalance :=
  if which ∈ lb.online then
    { lb.modify which.toNat Machine.resetLoad with
      online := lb.online.erase which
      offline := lb.offline ++ [which] }
  else lb

def offlineMachine (t : Nat) (which : Int) (lb : LoadBalance) : Option LoadBalance :=
  (lb.lock t).map fun lb => (lb.takeOffline which).unlock

/-- What `OnlineMachine` does under the lock. -/
def putOnline (lb : LoadBalance) : LoadBalance :=
  { lb with online := lb.online ++ lb.offline, offline := [] }

def onlineMachine (t : Nat) (lb : LoadBalance) : Option LoadBalance :=
  (lb.lock t).map fun lb => lb.putOnline.unlock

/-- `ShowMachines`: it prints both lists under the lock. -/
def showMachines (t : Nat) (lb : LoadBalance) : Option LoadBalance := (lb.lock t).map unlock

/-! ## What the operations leave alone -/

@[simp] theorem mtx_modify (m : Nat) (f : Machine → Machine) (lb : LoadBalance) :
    (lb.modify m f).mtx = lb.mtx := rfl
@[simp] theorem length_machines_modify (m : Nat) (f : Machine → Machine) (lb : LoadBalance) :
    (lb.modify m f).machines.length = lb.machines.length := List.length_modify ..

theorem load_modify_self {m : Nat} {lb : LoadBalance} (hm : m < lb.machines.length)
    (f : Machine → Machine) : (lb.modify m f).load m = (f lb.machines[m]).load := by
  simp [load, modify, hm]

theorem load_modify_of_ne {m k : Nat} (h : m ≠ k) (f : Machine → Machine) (lb : LoadBalance) :
    (lb.modify m f).load k = lb.load k := by
  simp [load, modify, h]

theorem lock_eq_some {t : Nat} {lb lb' : LoadBalance} :
    lb.lock t = some lb' ↔ lb.mtx = none ∧ lb' = { lb with mtx := some t } := by
  simp only [lock]
  split <;> simp_all [eq_comm]

/-! ## Small configurations -/

def oneMachine : LoadBalance := (new.loadConf (some "127.0.0.1:8181\n".toList)).1

def twoMachines : LoadBalance := (new.loadConf (some "127.0.0.1:8181\n127.0.0.1:8182\n".toList)).1

end LoadBalance

end OJ.Server
