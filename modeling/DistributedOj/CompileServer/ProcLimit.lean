import DistributedOj.Framework.Limits

/-!
# `Runner::SetProcLimit`

The limits that a submitted program starts with. `SetProcLimit` asks for a hard
limit without bound, so it has its effect only where the process may raise its
hard limit (`MayRaise`), and the number of bytes is a 32-bit product, which is
the right one below 2 GiB (`setProcLimit_iff`). A program that may raise its soft
limit again stays within the limits of its question iff the hard limits of
`compile_server` were within them already (`confined_iff`).
-/

namespace OJ.CompileServer

open OJ.Framework

/-- `rlim_t`. -/
abbrev RlimT := Fin (2 ^ 64)

def RLIM_INFINITY : RlimT := Fin.last _

/-- The conversion from `int`. -/
def RlimT.ofInt (n : Int) : RlimT := ⟨(n % 2 ^ 64).toNat, by omega⟩

/-- A product of `int`, which wraps around. -/
def mulInt (m n : Int) : Int := (m * n).bmod (2 ^ 32)

/-- What a process does at a signal. -/
inductive Disposition where
  | default
  | ignored
  | handler
  deriving DecidableEq

/-- A process, as far as its limits and signals go. -/
structure Proc where
  cpuRlimit : Limit RlimT
  memRlimit : Limit RlimT
  action : Int → Disposition

/-- `SetProcLimit`. -/
def setProcLimit (privileged : Bool) (_cpu _mem : Int) (p : Proc) : Proc :=
  let p := { p with cpuRlimit := p.cpuRlimit.set privileged (.ofInt _cpu) RLIM_INFINITY }
  { p with memRlimit := p.memRlimit.set privileged (.ofInt (mulInt _mem 1024)) RLIM_INFINITY }

section
variable {privileged : Bool} {l : Limit RlimT} {n : Int}

/-- The process may raise the hard limit, or need not. -/
def MayRaise (privileged : Bool) (l : Limit RlimT) : Prop := privileged = true ∨ RLIM_INFINITY ≤ l.max

theorem cur_set_of_mayRaise (h : MayRaise privileged l) (cur : RlimT) :
    (l.set privileged cur RLIM_INFINITY).cur = cur := by
  have hc : cur ≤ RLIM_INFINITY := Fin.le_last cur
  rw [Limit.set_of_le hc h]

theorem set_of_not_mayRaise (h : ¬ MayRaise privileged l) (cur : RlimT) :
    l.set privileged cur RLIM_INFINITY = l := Limit.set_of_not h

theorem val_ofInt (h : 0 ≤ n) (hn : n < 2 ^ 31) : ((RlimT.ofInt n).val : Int) = n := by
  show ((n % 2 ^ 64).toNat : Int) = n
  omega

/-- The bytes are the product iff it is an `int`. -/
theorem val_bytes_iff (h : 0 ≤ n) (hn : n < 2 ^ 31) :
    ((RlimT.ofInt (mulInt n 1024)).val : Int) = n * 1024 ↔ n < 2 ^ 21 := by
  show (((n * 1024).bmod (2 ^ 32) % 2 ^ 64).toNat : Int) = n * 1024 ↔ n < 2 ^ 21
  rw [Int.bmod_def]
  split
  · omega
  · omega

/-- The soft limit on CPU time is the question's iff the call succeeds, or it was
that before. -/
theorem cur_cpu_iff (h : 0 ≤ n) (hn : n < 2 ^ 31) :
    ((l.set privileged (.ofInt n) RLIM_INFINITY).cur.val : Int) = n ↔
      MayRaise privileged l ∨ (l.cur.val : Int) = n := by
  by_cases hr : MayRaise privileged l
  · simp [cur_set_of_mayRaise hr, val_ofInt h hn, hr]
  · simp [set_of_not_mayRaise hr, hr]

theorem cur_mem_iff (h : 0 ≤ n) (hn : n < 2 ^ 31) :
    ((l.set privileged (.ofInt (mulInt n 1024)) RLIM_INFINITY).cur.val : Int) = n * 1024 ↔
      (MayRaise privileged l ∧ n < 2 ^ 21) ∨ (¬ MayRaise privileged l ∧ (l.cur.val : Int) = n * 1024) := by
  by_cases hr : MayRaise privileged l
  · simp [cur_set_of_mayRaise hr, val_bytes_iff h hn, hr]
  · simp [set_of_not_mayRaise hr, hr]

end

/-- The soft limits are those of a question. -/
def Proc.Soft (cpu mem : Int) (p : Proc) : Prop :=
  (p.cpuRlimit.cur.val : Int) = cpu ∧ (p.memRlimit.cur.val : Int) = mem * 1024

/-- `SetProcLimit` may raise the hard limits and the product is an `int`, or the
limits were right before. -/
def Settable (privileged : Bool) (cpu mem : Int) (p : Proc) : Prop :=
  (MayRaise privileged p.cpuRlimit ∨ (p.cpuRlimit.cur.val : Int) = cpu) ∧
    ((MayRaise privileged p.memRlimit ∧ mem < 2 ^ 21) ∨
      (¬ MayRaise privileged p.memRlimit ∧ (p.memRlimit.cur.val : Int) = mem * 1024))

theorem setProcLimit_iff {cpu mem : Int} (hc : 0 ≤ cpu) (hc' : cpu < 2 ^ 31) (hm : 0 ≤ mem)
    (hm' : mem < 2 ^ 31) (privileged : Bool) (p : Proc) :
    (setProcLimit privileged cpu mem p).Soft cpu mem ↔ Settable privileged cpu mem p :=
  and_congr (cur_cpu_iff hc hc') (cur_mem_iff hm hm')

/-! ## The program -/

/-- A system call of a program. -/
inductive Syscall where
  | setCpu (cur max : RlimT)
  | setMem (cur max : RlimT)
  | sigaction (signal : Int) (action : Disposition)
  | other

/-- A call of a process without privileges. -/
def Proc.step (p : Proc) : Syscall → Option Proc
  | .setCpu cur max => some { p with cpuRlimit := p.cpuRlimit.set false cur max }
  | .setMem cur max => some { p with memRlimit := p.memRlimit.set false cur max }
  | .sigaction signal action => some { p with action := Function.update p.action signal action }
  | .other => some p

/-- The soft limits are within the limits of a question. -/
def Proc.Within (cpu mem : Int) (p : Proc) : Prop :=
  (p.cpuRlimit.cur.val : Int) ≤ cpu ∧ (p.memRlimit.cur.val : Int) ≤ mem * 1024

/-- Whatever a program calls, it stays within them. -/
def Confined (cpu mem : Int) (p : Proc) : Prop :=
  ∀ calls p', Run Proc.step Free p calls p' → p'.Within cpu mem

/-- The hard limits are. -/
def Proc.Capped (cpu mem : Int) (p : Proc) : Prop :=
  (p.cpuRlimit.max.val : Int) ≤ cpu ∧ (p.memRlimit.max.val : Int) ≤ mem * 1024

section
variable {cpu mem : Int} {p p' : Proc}

/-- A limit is at most a number iff it is at most the last one that is. -/
theorem capped_cur {l : Limit RlimT} {n : Int} (h : (l.max.val : Int) ≤ n) : (l.cur.val : Int) ≤ n := by
  have : l.cur.val ≤ l.max.val := l.le
  omega

theorem capped_set {l : Limit RlimT} {n : Int} (h : (l.max.val : Int) ≤ n) (cur max : RlimT) :
    ((l.set false cur max).max.val : Int) ≤ n := by
  have hset : (l.set false cur max).Capped l.max := Limit.Capped.set le_rfl
  have : (l.set false cur max).max.val ≤ l.max.val := hset
  omega

/-- No call raises a hard limit. -/
theorem Proc.Capped.step {call : Syscall} (h : p.Capped cpu mem) (hs : p.step call = some p') :
    p'.Capped cpu mem := by
  cases call with
  | setCpu cur max =>
    cases hs
    exact ⟨capped_set h.1 cur max, h.2⟩
  | setMem cur max =>
    cases hs
    exact ⟨h.1, capped_set h.2 cur max⟩
  | sigaction | other =>
    cases hs
    exact h

/-- A program can raise its soft limits to the hard ones, and no further. -/
theorem confined_iff_capped : Confined cpu mem p ↔ p.Capped cpu mem := by
  constructor
  · intro h
    have hcpu := h _ _ (.single trivial (show p.step (.setCpu p.cpuRlimit.max p.cpuRlimit.max) = _ from rfl))
    have hmem := h _ _ (.single trivial (show p.step (.setMem p.memRlimit.max p.memRlimit.max) = _ from rfl))
    have hcpu := hcpu.1
    have hmem := hmem.2
    rw [Limit.cur_set_max] at hcpu hmem
    exact ⟨hcpu, hmem⟩
  · intro h calls p' hr
    have hp' := hr.inv (I := Proc.Capped cpu mem) (fun _ _ _ h _ hs => h.step hs) h
    exact ⟨capped_cur hp'.1, capped_cur hp'.2⟩

end

/-- Without privileges a hard limit is what it was, and with them it is none. -/
theorem max_set_infinity (privileged : Bool) (l : Limit RlimT) (cur : RlimT) :
    (l.set privileged cur RLIM_INFINITY).max = if privileged then RLIM_INFINITY else l.max := by
  have hc : cur ≤ RLIM_INFINITY := Fin.le_last cur
  by_cases h : MayRaise privileged l
  · rw [Limit.set_of_le hc h]
    cases privileged with
    | true => rfl
    | false => exact (Fin.le_last l.max).antisymm' (h.resolve_left Bool.false_ne_true)
  · rw [set_of_not_mayRaise h, if_neg fun hp => h (.inl hp)]

/-- Every program stays within the limits of its question iff the hard limits of
the process that starts it, which has no privileges, are within them. -/
theorem confined_iff {cpu mem : Int} (hc : cpu < 2 ^ 31) (privileged : Bool) (p : Proc) :
    Confined cpu mem (setProcLimit privileged cpu mem p) ↔ privileged = false ∧ p.Capped cpu mem := by
  rw [confined_iff_capped, Proc.Capped, setProcLimit]
  dsimp only
  rw [max_set_infinity, max_set_infinity]
  cases privileged with
  | false => simp [Proc.Capped]
  | true =>
    have hinf : (RLIM_INFINITY.val : Int) = 2 ^ 64 - 1 := rfl
    simp only [if_true, hinf]
    constructor
    · omega
    · nofun

/-- A process with one hard limit on CPU time and one on memory. -/
def Proc.start (cpu mem : RlimT) : Proc := ⟨⟨cpu, cpu, le_rfl⟩, ⟨mem, mem, le_rfl⟩, fun _ => .default⟩

/-- A server that was started with limits of its own. -/
theorem confined_iff_low :
    Confined 1 50000 (setProcLimit false 1 50000 (.start 1 51200000)) :=
  (confined_iff (by decide) false (.start 1 51200000)).mpr ⟨rfl, by decide, by decide⟩

/-- A server without limits: the program raises its own again. -/
theorem not_confined :
    ¬ Confined 1 50000 (setProcLimit false 1 50000 (.start RLIM_INFINITY RLIM_INFINITY)) := by
  intro h
  have hmem := (h _ _ (.single trivial (show Proc.step _ (.setMem RLIM_INFINITY RLIM_INFINITY) = _ from rfl))).2
  exact absurd hmem (by decide)

end OJ.CompileServer
