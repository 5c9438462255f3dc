import DistributedOj.CompileServer.Connections
import DistributedOj.CompileServer.DiskUsage
import DistributedOj.CompileServer.NetworkUsage
import DistributedOj.Comm.Json

/-!
# The answer to `/status`

The handler puts together what `HostStatusUtil` reads (`handleStatus`), one
request at a time. Its static variables make each answer depend on the one before:
a rate is the growth of a sum of two counters since then (`rates_of_status`).
-/

namespace OJ.CompileServer

open OJ.Comm OJ.Framework

/-! ## `get_memory_usage` -/

/-- `struct sysinfo`, as far as it is read. -/
structure SysInfo where
  totalram : Nat
  freeram : Nat
  memUnit : Nat

/-- An `unsigned long` as a `long long`. -/
def toLongLong (n : Int) : Int := n.bmod (2 ^ 64)

def getMemoryUsage (memInfo : SysInfo) : Option (Option ℚ) := do
  let totalPhysMem ← long (toLongLong memInfo.totalram * memInfo.memUnit)
  let physMemUsed ← long (toLongLong (memInfo.totalram - memInfo.freeram) * memInfo.memUnit)
  return percent physMemUsed totalPhysMem

/-! ## The handler -/

/-- What `HostStatusUtil` finds on a host. -/
structure HostFiles where
  procStat : Str
  memInfo : SysInfo
  netDev : Str
  diskStat : Str
  netstat : Str
  load : ℚ × ℚ × ℚ
  duration : ℚ

/-- The static variables of `HostStatusUtil`. -/
structure HostStatics where
  cpu : CpuStatics
  net : NetStatics
  disk : DiskStatics

structure Readings where
  cpuUsage : Option ℚ
  memoryUsage : Option ℚ
  networkUsage : ℚ
  diskIoUsage : ℚ
  activeConnections : Nat
  loadAverage : ℚ × ℚ × ℚ
  responseTime : ℚ
  deriving DecidableEq

/-- The handler of `/status`. -/
def handleStatus (f : HostFiles) (s : HostStatics) : Option (Readings × HostStatics) := do
  let (cpuUsage, cpu) ← getCpuUsage f.procStat s.cpu
  let memoryUsage ← getMemoryUsage f.memInfo
  let (networkUsage, net) ← getNetworkUsage "eth0".toList f.netDev s.net
  let (diskIoUsage, disk) ← getDiskIoUsage f.diskStat s.disk
  let activeConnections ← getActiveConnections f.netstat
  return (⟨cpuUsage, memoryUsage, networkUsage, diskIoUsage, activeConnections, f.load, f.duration⟩,
    ⟨cpu, net, disk⟩)

/-- `status`, its members in the order of their names, with what a `float` or a
`double` becomes in JSON. -/
def statusJson (real : Option ℚ → Json) (r : Readings) : Json :=
  .obj [("active_connections".toList, .int r.activeConnections),
    ("cpu_usage".toList, real r.cpuUsage),
    ("disk_io_usage".toList, real (some r.diskIoUsage)),
    ("load_average".toList, .obj [("15min".toList, real (some r.loadAverage.2.2)),
      ("1min".toList, real (some r.loadAverage.1)), ("5min".toList, real (some r.loadAverage.2.1))]),
    ("memory_usage".toList, real r.memoryUsage),
    ("network_usage".toList, real (some r.networkUsage)),
    ("response_time".toList, real (some r.responseTime))]

/-! ## Rates -/

theorem of_long {n k : Int} (h : long n = some k) : FitsLong n ∧ k = n := by
  rw [long, Option.ite_none_right_eq_some] at h
  exact ⟨h.1, (Option.some.inj h.2).symm⟩

theorem network_rate {iface netDev : Str} {s s' : NetStatics} {q : ℚ}
    (h : getNetworkUsage iface netDev s = some (q, s')) :
    q = kilobytes (s'.sum - s.sum) ∧ FitsLong (s'.sum - s.sum) := by
  rw [getNetworkUsage] at h
  simp only [Option.bind_eq_bind, Option.bind_eq_some_iff] at h
  obtain ⟨rx, hrx_bytes, rxDiff, hrx, tx, htx_bytes, txDiff, htx, sum, hsum, rx', hrx', tx', htx', h⟩ := h
  obtain rfl : rx = rx' := Option.some.inj (hrx_bytes.symm.trans hrx')
  obtain rfl : tx = tx' := Option.some.inj (htx_bytes.symm.trans htx')
  cases h
  obtain ⟨-, rfl⟩ := of_long hrx
  obtain ⟨-, rfl⟩ := of_long htx
  obtain ⟨hfits, rfl⟩ := of_long hsum
  have hgrowth : rx - s.prevRxBytes + (tx - s.prevTxBytes) = NetStatics.sum ⟨rx, tx⟩ - s.sum := by
    rw [NetStatics.sum, NetStatics.sum]
    ring
  rw [hgrowth] at hfits ⊢
  exact ⟨rfl, hfits⟩

theorem disk_rate {diskStat : Str} {s s' : DiskStatics} {q : ℚ}
    (h : getDiskIoUsage diskStat s = some (q, s')) :
    q = kilobytes (s'.sum - s.sum) ∧ FitsLong (s'.sum - s.sum) := by
  rw [getDiskIoUsage] at h
  simp only [Option.bind_eq_bind, Option.bind_eq_some_iff] at h
  obtain ⟨⟨readBytes, writeBytes⟩, -, readDiff, hread, writeDiff, hwrite, sum, hsum, h⟩ := h
  cases h
  obtain ⟨-, rfl⟩ := of_long hread
  obtain ⟨-, rfl⟩ := of_long hwrite
  obtain ⟨hfits, rfl⟩ := of_long hsum
  have hgrowth : readBytes - s.prevReadBytes + (writeBytes - s.prevWriteBytes) =
      DiskStatics.sum ⟨readBytes, writeBytes⟩ - s.sum := by
    rw [DiskStatics.sum, DiskStatics.sum]
    ring
  rw [hgrowth] at hfits ⊢
  exact ⟨rfl, hfits⟩

theorem rates_of_status {f : HostFiles} {s s' : HostStatics} {r : Readings} (h : handleStatus f s = some (r, s')) :
    (r.networkUsage = kilobytes (s'.net.sum - s.net.sum) ∧ FitsLong (s'.net.sum - s.net.sum)) ∧
      r.diskIoUsage = kilobytes (s'.disk.sum - s.disk.sum) ∧ FitsLong (s'.disk.sum - s.disk.sum) := by
  rw [handleStatus] at h
  simp only [Option.bind_eq_bind, Option.bind_eq_some_iff] at h
  obtain ⟨_, -, _, -, ⟨networkUsage, net⟩, hnet, ⟨diskIoUsage, disk⟩, hdisk, activeConnections, -, h⟩ := h
  cases h
  exact ⟨network_rate hnet, disk_rate hdisk⟩

/-- The count of connections is an `int`. -/
theorem connections_of_status {f : HostFiles} {s s' : HostStatics} {r : Readings}
    (h : handleStatus f s = some (r, s')) : r.activeConnections < 2 ^ 31 := by
  rw [handleStatus] at h
  simp only [Option.bind_eq_bind, Option.bind_eq_some_iff] at h
  obtain ⟨_, -, _, -, _, -, _, -, activeConnections, hcount, h⟩ := h
  cases h
  rw [getActiveConnections, countLines_eq _ (by decide), Option.ite_none_right_eq_some] at hcount
  rw [← Option.some.inj hcount.2]
  exact hcount.1

end OJ.CompileServer
