import DistributedOj.Comm.Stream
import DistributedOj.Framework.Rounding

/-!
# `HostStatusUtil`

What `/status` reads off the files of `/proc`, each function on the contents of
its file and its static variables. Arithmetic on `long` is undefined where it
overflows, and so is the use of a variable that nothing has set: then a call
returns nothing. Rates are rounded as the code does it (`kilobytes`); a percentage
stands for the number before it is rounded.
-/

namespace OJ.CompileServer

open OJ.Comm OJ.Framework Stream

/-- A result of arithmetic on `long`. -/
def long (n : Int) : Option Int := if longMin ≤ n ∧ n ≤ longMax then some n else none

/-- What a `long` can hold. -/
def FitsLong (n : Int) : Prop := longMin ≤ n ∧ n ≤ longMax

instance (n : Int) : Decidable (FitsLong n) := inferInstanceAs (Decidable (_ ∧ _))

theorem long_of {n : Int} (h : FitsLong n) : long n = some n := if_pos h

theorem long_of_not {n : Int} (h : ¬ FitsLong n) : long n = none := if_neg h

theorem long_of_lt {n : Int} (h : longMax < n) : long n = none :=
  long_of_not fun hn => Int.not_lt.mpr hn.2 h

/-- Numbers from 0 to the greatest `long` have a difference. -/
theorem long_sub {m n : Int} (hm : 0 ≤ m ∧ m ≤ longMax) (hn : 0 ≤ n ∧ n ≤ longMax) :
    long (n - m) = some (n - m) := by
  rw [longMax] at hm hn
  refine long_of ?_
  rw [FitsLong, longMin, longMax]
  omega

/-- A substring: `find(part) != std::string::npos`. -/
def contains (line part : Str) : Bool := part <:+: line

/-- `(num * 100.0) / den`, which is no number where `den` is 0. -/
def percent (num den : Int) : Option ℚ := if den = 0 then none else some (num * 100 / den)

/-! ## `get_cpu_usage` -/

structure CpuStatics where
  prevIdle : Int
  prevTotal : Int

/-- `ss >> cpu >> user >> nice >> system >> idle`. -/
def cpuVars : StateM Stream (Option Int × Option Int × Option Int × Option Int) := do
  let _ ← extractString []
  let user ← extractLong none
  let nice ← extractLong none
  let system ← extractLong none
  let idle ← extractLong none
  return (user, nice, system, idle)

def getCpuUsage (procStat : Str) (s : CpuStatics) : Option (Option ℚ × CpuStatics) := do
  let line := (getline procStat).head?.getD []
  let (user, nice, system, idle) := (cpuVars.run (.ofText line)).1
  let userNice ← long ((← user) + (← nice))
  let busy ← long (userNice + (← system))
  let total ← long (busy + (← idle))
  let totald ← long (total - s.prevTotal)
  let idled ← long ((← idle) - s.prevIdle)
  let num ← long (totald - idled)
  return (percent num totald, ⟨← idle, total⟩)

/-! ## Rates -/

/-- A `long` as a `double`. -/
def toDouble (n : Int) : ℚ := roundBits 53 n

/-- A `double` as a `float`, for what is neither too large for one nor too small. -/
def toFloat (q : ℚ) : ℚ := roundBits 24 q

/-- `n / 1024.0`, returned as a `float`. Division by a power of 2 is exact. -/
def kilobytes (n : Int) : ℚ := toFloat (toDouble n / 1024)

theorem kilobytes_nonneg_iff {n : Int} : 0 ≤ kilobytes n ↔ 0 ≤ n := by
  rw [kilobytes, toFloat, roundBits_nonneg_iff (by decide), le_div_iff₀ (by norm_num), zero_mul, toDouble,
    roundBits_nonneg_iff (by decide), Int.cast_nonneg_iff]

theorem kilobytes_le {n : Int} (hn : 0 ≤ n) : kilobytes n ≤ n := by
  have hq : (0 : ℚ) ≤ n := Int.cast_nonneg hn
  have hdouble : toDouble n ≤ 2 * n := roundBits_le (by decide) hq
  have hnonneg : 0 ≤ toDouble n / 1024 := div_nonneg ((roundBits_nonneg_iff (by decide)).mpr hq) (by norm_num)
  have hfloat : kilobytes n ≤ 2 * (toDouble n / 1024) := roundBits_le (by decide) hnonneg
  linarith

/-- A growth below 16 MiB is not rounded. -/
theorem kilobytes_of_lt {n : Int} (hn : |n| < 2 ^ 24) : kilobytes n = n / 1024 := by
  have hdouble : toDouble n = n := by
    have h := roundBits_of_digits (hn.trans (by norm_num : (2 : Int) ^ 24 < 2 ^ 53)) 0
    rwa [pow_zero, div_one] at h
  have hfloat := roundBits_of_digits hn 10
  rw [kilobytes, hdouble, toFloat]
  norm_num at hfloat ⊢
  exact hfloat

theorem kilobytes_inj {n k : Int} (hn : |n| < 2 ^ 24) (hk : |k| < 2 ^ 24) : kilobytes n = kilobytes k ↔ n = k := by
  rw [kilobytes_of_lt hn, kilobytes_of_lt hk, div_left_inj' (by norm_num), Int.cast_inj]

/-- From one call to the next, what is counted (first) and the bytes have the same
rate; below 16 MiB, the same growth. -/
def SameRate (x y : Int × Int) : Prop :=
  FitsLong (y.1 - x.1) ∧ kilobytes (y.1 - x.1) = kilobytes (y.2 - x.2)

/-! ## `get_network_usage` -/

structure NetStatics where
  prevRxBytes : Int
  prevTxBytes : Int
  deriving DecidableEq

/-- `ss >> iface_name >> rx_bytes`, and `ss >> tx_bytes` seven times. -/
def netVars : StateM Stream (Option Int × Option Int) := do
  let _ ← extractString []
  let rxBytes ← extractLong none
  let txBytes ← extractLongs 7 none
  return (rxBytes, txBytes)

/-- The loop, which stops at the first line with `iface` in it. -/
def netLoop (iface netDev : Str) : Option Int × Option Int :=
  match (getline netDev).find? (contains · iface) with
  | some line => (netVars.run (.ofText line)).1
  | none => (none, none)

def getNetworkUsage (iface netDev : Str) (s : NetStatics) : Option (ℚ × NetStatics) := do
  let (rxBytes, txBytes) := netLoop iface netDev
  let rxDiff ← long ((← rxBytes) - s.prevRxBytes)
  let txDiff ← long ((← txBytes) - s.prevTxBytes)
  let sum ← long (rxDiff + txDiff)
  return (kilobytes sum, ⟨← rxBytes, ← txBytes⟩)

/-! ## `get_disk_io_usage` -/

structure DiskStatics where
  prevReadBytes : Int
  prevWriteBytes : Int
  deriving DecidableEq

/-- Five words, `ss >> reads >> ignore >> ignore >> write_bytes`. -/
def diskVars : StateM Stream (Option Int × Option Int) := do
  let ignore ← extractStrings 5 []
  let reads ← extractLong none
  let _ ← extractStrings 2 ignore
  let writeBytes ← extractLong (some 0)
  return (reads, writeBytes)

/-- `read_bytes` and `write_bytes`, of sectors of 512 bytes. -/
def sectorBytes (reads writeBytes : Option Int) : Option (Int × Int) := do
  return (← long ((← reads) * 512), ← long ((← writeBytes) * 512))

/-- The loop, which stops at the first line with `sda` in it. -/
def diskLoop (diskStat : Str) : Option (Int × Int) :=
  match (getline diskStat).find? (contains · "sda".toList) with
  | some line =>
    let vars := (diskVars.run (.ofText line)).1
    sectorBytes vars.1 vars.2
  | none => some (0, 0)

def getDiskIoUsage (diskStat : Str) (s : DiskStatics) : Option (ℚ × DiskStatics) := do
  let (readBytes, writeBytes) ← diskLoop diskStat
  let readDiff ← long (readBytes - s.prevReadBytes)
  let writeDiff ← long (writeBytes - s.prevWriteBytes)
  let sum ← long (readDiff + writeDiff)
  return (kilobytes sum, ⟨readBytes, writeBytes⟩)

/-! ## `get_active_connections` -/

/-- The loop over the lines, with `count`, an `int`. -/
def countLines (count : Nat) : List Str → Option Nat
  | [] => some count
  | line :: lines =>
    if contains line "0A".toList then
      if count + 1 < 2 ^ 31 then countLines (count + 1) lines else none
    else countLines count lines

def getActiveConnections (netstat : Str) : Option Nat := countLines 0 (getline netstat)

/-! ## Calls in turn -/

/-- Every call of `f` on these inputs in turn has `P`, about its input, the
static variables before it and what it returns. -/
def EachCall {ε σ β : Type} (f : ε → σ → Option (β × σ)) (P : ε → σ → Option (β × σ) → Prop) :
    σ → List ε → Prop
  | _, [] => True
  | s, e :: es => P e s (f e s) ∧ ∀ x, f e s = some x → EachCall f P x.2 es

section
variable {ε σ β : Type} {f : ε → σ → Option (β × σ)} {P : ε → σ → Option (β × σ) → Prop} {s s' : σ}
  {e : ε} {es : List ε} {b : β}

theorem eachCall_cons (h : f e s = some (b, s')) :
    EachCall f P s (e :: es) ↔ P e s (some (b, s')) ∧ EachCall f P s' es := by
  rw [EachCall, h]
  refine and_congr_right fun _ => ⟨fun hcalls => hcalls _ rfl, fun hcalls x hx => ?_⟩
  rw [← Option.some.inj hx]
  exact hcalls

/-- A call that returns nothing, where it should. -/
theorem not_eachCall_cons (h : f e s = none) (hP : ¬ P e s none) : ¬ EachCall f P s (e :: es) := by
  rw [EachCall, h]
  exact fun hcalls => hP hcalls.1

end

end OJ.CompileServer
