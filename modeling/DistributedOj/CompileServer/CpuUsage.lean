import DistributedOj.CompileServer.HostStatus

/-!
# `get_cpu_usage`

What a call makes of a sample whose total a `long` can hold (`run_sample`). Over
samples that never decrease, every call divides by a positive difference and
returns a percentage iff some counter grows from each sample to the next
(`usage_iff`): two calls within one clock tick divide 0 by 0 (`not_usage`).
-/

namespace OJ.CompileServer

open OJ.Comm OJ.Framework Stream

/-- The contents of `/proc/stat`, with the counters of its first line. -/
structure ProcStat where
  text : Str
  user : Nat
  nice : Nat
  system : Nat
  idle : Nat
  rest : List Str
  words_eq : words ((getline text).head?.getD []) =
    "cpu".toList :: ([user, nice, system, idle].map toStringU ++ rest)

namespace ProcStat

/-- The idle time as a `long` takes it in. -/
def idleRead (p : ProcStat) : Int := min p.idle longMax

/-- What is not idle time. -/
def busy (p : ProcStat) : Nat := p.user + p.nice + p.system

def total (p : ProcStat) : Int := p.busy + p.idleRead

theorem busy_eq (p : ProcStat) : (p.busy : Int) = p.user + p.nice + p.system := by
  rw [busy]
  push_cast
  rfl

theorem idleRead_le (p : ProcStat) : 0 ≤ p.idleRead ∧ p.idleRead ≤ longMax := by
  rw [idleRead, longMax]
  omega

/-- The total as the code adds it up. -/
theorem sum_eq (p : ProcStat) : (p.user : Int) + p.nice + p.system + p.idleRead = p.total := by
  rw [total, busy_eq]

/-- The static variables after the sample. -/
def statics (p : ProcStat) : CpuStatics := ⟨p.idleRead, p.total⟩

/-- A call that finds the sample. -/
def usage (p : ProcStat) (s : CpuStatics) : Option (Option ℚ × CpuStatics) := getCpuUsage p.text s

/-- No counter decreases. -/
structure Le (p q : ProcStat) : Prop where
  user : p.user ≤ q.user
  nice : p.nice ≤ q.nice
  system : p.system ≤ q.system
  idle : p.idle ≤ q.idle

/-- One of the counters has grown. -/
def Moved (p q : ProcStat) : Prop :=
  p.user < q.user ∨ p.nice < q.nice ∨ p.system < q.system ∨ p.idleRead < q.idleRead

/-- One of the counters is not 0. -/
def Started (p : ProcStat) : Prop := 0 < p.user ∨ 0 < p.nice ∨ 0 < p.system ∨ 0 < p.idleRead

theorem Le.idleRead {p q : ProcStat} (h : p.Le q) : p.idleRead ≤ q.idleRead :=
  min_le_min_right _ (Nat.cast_le.mpr h.idle)

theorem Le.moved_iff {p q : ProcStat} (h : p.Le q) : p.Moved q ↔ p.total < q.total := by
  have hidle := h.idleRead
  obtain ⟨huser, hnice, hsystem, -⟩ := h
  rw [Moved, ← sum_eq, ← sum_eq]
  omega

theorem started_iff (p : ProcStat) : p.Started ↔ 0 < p.total := by
  have hidle := p.idleRead_le.1
  rw [Started, ← sum_eq]
  omega

end ProcStat

/-- A call divides by a positive difference of totals and returns a percentage. -/
def Percentage (s : CpuStatics) (r : Option (Option ℚ × CpuStatics)) : Prop :=
  ∃ q s', r = some (some q, s') ∧ s.prevTotal < s'.prevTotal ∧ 0 ≤ q ∧ q ≤ 100

section
variable {p : ProcStat} {s : CpuStatics}

/-- Either all variables are set, or `nice`, `system` or `idle` is not because
one before it is too large. -/
theorem cpuVars_cases (p : ProcStat) {v : Option Int × Option Int × Option Int × Option Int}
    (hv : (cpuVars.run (.ofText ((getline p.text).head?.getD []))).1 = v) :
    (longMax < p.total ∧ (v.2.1 = none ∨ v.2.2.1 = none ∨ v.2.2.2 = none)) ∨
      v = (some (p.user : Int), some (p.nice : Int), some (p.system : Int), some p.idleRead) := by
  have hlarge (h : 2 ^ 63 ≤ p.user ∨ 2 ^ 63 ≤ p.nice ∨ 2 ^ 63 ≤ p.system) : longMax < p.total := by
    rw [ProcStat.total, ProcStat.busy, ProcStat.idleRead, longMax]
    omega
  have hready := ready_ofText ((getline p.text).head?.getD [])
  rw [p.words_eq] at hready
  obtain ⟨s₁, e₁, h₁⟩ := hready.extractString []
  obtain ⟨s₂, e₂, h₂⟩ := h₁.extractLong_cases none
  simp only [cpuVars, Stateful.run_bind, e₁, e₂, Stateful.run_pure] at hv
  rcases h₂ with ⟨hu, h₂⟩ | ⟨hu, h₂⟩
  · obtain ⟨s₃, e₃, h₃⟩ := h₂.extractLong_cases none
    rw [e₃] at hv
    rcases h₃ with ⟨hn, h₃⟩ | ⟨hn, h₃⟩
    · obtain ⟨s₄, e₄, h₄⟩ := h₃.extractLong_cases none
      rw [e₄] at hv
      rcases h₄ with ⟨hs, h₄⟩ | ⟨hs, h₄⟩
      · obtain ⟨s₅, e₅, -⟩ := h₄.extractLong_cases none
        rw [e₅] at hv
        refine .inr ?_
        rw [← hv, ProcStat.idleRead, longMax, min_eq_left (by omega), min_eq_left (by omega),
          min_eq_left (by omega)]
      · obtain ⟨s₅, e₅, -⟩ := run_extractLong_of_fail h₄ none
        rw [e₅] at hv
        exact .inl ⟨hlarge (.inr (.inr hs)), .inr (.inr (by rw [← hv]))⟩
    · obtain ⟨s₄, e₄, -⟩ := run_extractLong_of_fail h₃ none
      rw [e₄] at hv
      exact .inl ⟨hlarge (.inr (.inl hn)), .inr (.inl (by rw [← hv]))⟩
  · obtain ⟨s₃, e₃, -⟩ := run_extractLong_of_fail h₂ none
    rw [e₃] at hv
    exact .inl ⟨hlarge (.inl hu), .inl (by rw [← hv])⟩

/-- The static variables are those of an earlier sample, or of none. -/
structure CpuStatics.Ok (s : CpuStatics) : Prop where
  idle : 0 ≤ s.prevIdle
  busy : s.prevIdle ≤ s.prevTotal
  total : s.prevTotal ≤ longMax

theorem run_sample (hs : s.Ok) (h : p.total ≤ longMax) : p.usage s =
    some (percent (p.busy - (s.prevTotal - s.prevIdle)) (p.total - s.prevTotal), p.statics) := by
  obtain ⟨hidle, hbusy, htotal⟩ := hs
  have hread := p.idleRead_le
  have hsum := p.sum_eq
  have hnum : p.total - s.prevTotal - (p.idleRead - s.prevIdle) =
      p.busy - (s.prevTotal - s.prevIdle) := by
    rw [ProcStat.total]
    ring
  rw [ProcStat.usage, getCpuUsage, (cpuVars_cases p rfl).resolve_left fun hl => absurd hl.1 (Int.not_lt.mpr h)]
  have hb := p.busy_eq
  rw [longMax] at *
  simp only [Option.bind_eq_bind, Option.bind_some]
  rw [long_of (by rw [FitsLong, longMin, longMax]; omega), Option.bind_some,
    long_of (by rw [FitsLong, longMin, longMax]; omega), Option.bind_some, hsum,
    long_of (by rw [FitsLong, longMin, longMax]; omega), Option.bind_some,
    long_of (by rw [FitsLong, longMin, longMax]; omega), Option.bind_some,
    long_of (by rw [FitsLong, longMin, longMax]; omega), Option.bind_some, hnum,
    long_of (by rw [FitsLong, longMin, longMax]; omega), Option.bind_some]
  rfl

/-- A sample that does not fit. -/
theorem run_large (h : longMax < p.total) : p.usage s = none := by
  have hsum := p.sum_eq
  rw [ProcStat.usage, getCpuUsage]
  generalize hv : (cpuVars.run (.ofText ((getline p.text).head?.getD []))).1 = v
  obtain ⟨user, nice, system, idle⟩ := v
  simp only [Option.bind_eq_bind]
  rcases cpuVars_cases p hv with ⟨-, rfl | rfl | rfl⟩ | e
  · simp
  · simp
  · simp
  · cases e
    simp only [Option.bind_some]
    by_cases h₁ : (p.user : Int) + p.nice ≤ longMax
    · rw [long_of ⟨by rw [longMin]; omega, h₁⟩, Option.bind_some]
      by_cases h₂ : (p.user : Int) + p.nice + p.system ≤ longMax
      · rw [long_of ⟨by rw [longMin]; omega, h₂⟩, Option.bind_some, hsum, long_of_lt h, Option.bind_none]
      · rw [long_of_lt (Int.not_le.mp h₂), Option.bind_none]
    · rw [long_of_lt (Int.not_le.mp h₁), Option.bind_none]

/-- One call: what it returns is a percentage iff the total fits and grows. -/
theorem percentage_iff (hs : s.Ok) (hbusy : s.prevTotal - s.prevIdle ≤ p.busy)
    (hidle : s.prevIdle ≤ p.idleRead) :
    Percentage s (p.usage s) ↔ s.prevTotal < p.total ∧ p.total ≤ longMax := by
  by_cases h : p.total ≤ longMax
  · rw [Percentage, run_sample hs h, percent]
    constructor
    · rintro ⟨q, s', e, hlt, -⟩
      obtain ⟨-, rfl⟩ := Prod.mk.inj (Option.some.inj e)
      exact ⟨hlt, h⟩
    · rintro ⟨hlt, -⟩
      have hd : (0 : ℚ) < ((p.total - s.prevTotal : Int) : ℚ) := by
        exact_mod_cast Int.sub_pos.mpr hlt
      have hb : (0 : ℚ) ≤ ((p.busy - (s.prevTotal - s.prevIdle) : Int) : ℚ) := by
        exact_mod_cast Int.sub_nonneg.mpr hbusy
      have hle : ((p.busy - (s.prevTotal - s.prevIdle) : Int) : ℚ) ≤
          ((p.total - s.prevTotal : Int) : ℚ) := by
        have : (p.busy : Int) - (s.prevTotal - s.prevIdle) ≤ p.total - s.prevTotal := by
          rw [ProcStat.total]
          omega
        exact_mod_cast this
      rw [if_neg (Int.sub_pos.mpr hlt).ne']
      refine ⟨_, _, rfl, hlt, ?_, ?_⟩
      · positivity
      · rw [div_le_iff₀ hd]
        linarith only [hle]
  · rw [run_large (Int.not_le.mp h)]
    refine iff_of_false ?_ fun hp => h hp.2
    rintro ⟨q, s', e, -⟩
    cases e

end

theorem ProcStat.statics_ok {p : ProcStat} (h : p.total ≤ longMax) : p.statics.Ok := by
  refine ⟨p.idleRead_le.1, ?_, h⟩
  have hread := p.idleRead_le.1
  show p.idleRead ≤ p.busy + p.idleRead
  omega

theorem ProcStat.Le.statics {p q : ProcStat} (h : p.Le q) :
    p.statics.prevTotal - p.statics.prevIdle ≤ q.busy ∧ p.statics.prevIdle ≤ q.idleRead := by
  have hbusy : p.busy ≤ q.busy := Nat.add_le_add (Nat.add_le_add h.user h.nice) h.system
  refine ⟨?_, h.idleRead⟩
  show (p.busy : Int) + p.idleRead - p.idleRead ≤ q.busy
  omega

/-- The totals of the samples grow, from `total` on, and fit into a `long`. -/
def TotalsGrow (total : Int) : List ProcStat → Prop
  | [] => True
  | p :: ps => total < p.total ∧ p.total ≤ longMax ∧ TotalsGrow p.total ps

/-- The calls after a sample. -/
theorem eachCall_iff {s : CpuStatics} (hs : s.Ok) {ps : List ProcStat}
    (hp : ∀ p ∈ ps.head?, s.prevTotal - s.prevIdle ≤ p.busy ∧ s.prevIdle ≤ p.idleRead)
    (h : ps.IsChain ProcStat.Le) :
    EachCall ProcStat.usage (fun _ s r => Percentage s r) s ps ↔
      TotalsGrow s.prevTotal ps := by
  induction ps generalizing s with
  | nil => exact Iff.rfl
  | cons p ps ih =>
    obtain ⟨hbusy, hidle⟩ := hp p rfl
    have hcall := percentage_iff hs hbusy hidle
    rw [TotalsGrow]
    by_cases hle : p.total ≤ longMax
    · rw [run_sample hs hle] at hcall
      rw [eachCall_cons (run_sample hs hle), hcall, and_assoc]
      refine and_congr_right fun _ => and_congr_right fun _ => ?_
      refine ih (p.statics_ok hle) (fun q hq => ?_) h.tail
      cases ps with
      | nil => cases hq
      | cons q' ps =>
        cases hq
        exact (List.isChain_cons_cons.mp h).1.statics
    · refine iff_of_false (not_eachCall_cons (run_large (Int.not_le.mp hle)) ?_) fun ht => hle ht.2.1
      rintro ⟨q, s', e, -⟩
      cases e

/-- The total grows with every sample in which some counter does. -/
theorem totalsGrow_iff {n : Int} {ps : List ProcStat} (h : ps.IsChain ProcStat.Le) :
    TotalsGrow n ps ↔ (∀ p ∈ ps.head?, n < p.total) ∧ ps.IsChain ProcStat.Moved ∧
      ∀ p ∈ ps, p.total ≤ longMax := by
  induction ps generalizing n with
  | nil => simp [TotalsGrow]
  | cons p ps ih =>
    have hmoved : (∀ q ∈ ps.head?, p.total < q.total) ↔ ∀ q ∈ ps.head?, p.Moved q :=
      forall₂_congr fun q hq => ((List.isChain_cons.mp h).1 q hq).moved_iff.symm
    rw [TotalsGrow, ih h.tail, hmoved, List.isChain_cons, List.forall_mem_cons]
    simp only [List.head?_cons, Option.mem_some_iff, forall_eq']
    tauto

/-- Over samples that never decrease, from the static variables at 0 on, every
call divides by a positive difference and returns a percentage iff each sample has
a counter that has grown since the one before, or is not 0 at the first call, and
its total fits into a `long`. -/
theorem usage_iff {ps : List ProcStat} (h : ps.IsChain ProcStat.Le) :
    EachCall ProcStat.usage (fun _ s r => Percentage s r) ⟨0, 0⟩ ps ↔
      (∀ p ∈ ps.head?, p.Started) ∧ ps.IsChain ProcStat.Moved ∧ ∀ p ∈ ps, p.total ≤ longMax := by
  have hmax : (0 : Int) ≤ longMax := by
    rw [longMax]
    omega
  simp only [ProcStat.started_iff]
  rw [← totalsGrow_iff h]
  refine eachCall_iff ⟨le_rfl, le_rfl, hmax⟩ (fun p _ => ⟨?_, ?_⟩) h
  · show (0 : Int) - 0 ≤ p.busy
    omega
  · exact p.idleRead_le.1

def ProcStat.early : ProcStat where
  text := "cpu  4 0 2 94 0 0 0\ncpu0 4 0 2 94 0 0 0\n".toList
  user := 4
  nice := 0
  system := 2
  idle := 94
  rest := ["0", "0", "0"].map String.toList
  words_eq := by decide +kernel

def ProcStat.late : ProcStat where
  text := "cpu  6 0 3 111 0 0 0\ncpu0 6 0 3 111 0 0 0\n".toList
  user := 6
  nice := 0
  system := 3
  idle := 111
  rest := ["0", "0", "0"].map String.toList
  words_eq := by decide +kernel

theorem usage_iff_two :
    EachCall ProcStat.usage (fun _ s r => Percentage s r) ⟨0, 0⟩ [.early, .late] := by
  have h : [ProcStat.early, .late].IsChain ProcStat.Le :=
    List.isChain_pair.mpr ⟨by decide, by decide, by decide, by decide⟩
  refine (usage_iff h).mpr ⟨fun p hp => ?_, List.isChain_pair.mpr (.inl (by decide)), ?_⟩
  · rw [← Option.some.inj hp]
    exact .inl (by decide)
  · exact List.forall_mem_cons.mpr ⟨by decide, List.forall_mem_singleton.mpr (by decide)⟩

/-- The same sample twice: the second call divides 0 by 0. -/
theorem not_usage : [ProcStat.early, .early].IsChain ProcStat.Le ∧
    ProcStat.early.usage ProcStat.early.statics = some (none, ProcStat.early.statics) ∧
    ¬ EachCall ProcStat.usage (fun _ s r => Percentage s r) ⟨0, 0⟩
      [.early, .early] := by
  have hle : ProcStat.early.total ≤ longMax := by decide
  have hagain : ProcStat.early.usage ProcStat.early.statics =
      some (none, ProcStat.early.statics) := by
    rw [run_sample (ProcStat.statics_ok hle) hle]
    rfl
  have hzero : CpuStatics.Ok ⟨0, 0⟩ := ⟨le_rfl, le_rfl, by decide⟩
  refine ⟨List.isChain_pair.mpr ⟨le_rfl, le_rfl, le_rfl, le_rfl⟩, hagain, fun h => ?_⟩
  rw [eachCall_cons (run_sample hzero hle)] at h
  obtain ⟨q, s', e, -⟩ := h.2.1
  have e' := hagain.symm.trans e
  cases e'

end OJ.CompileServer
