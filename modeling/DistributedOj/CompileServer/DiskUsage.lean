import DistributedOj.Comm.Lines
import DistributedOj.CompileServer.HostStatus
import DistributedOj.Framework.Meter

/-!
# `get_disk_io_usage`

Of a row of `/proc/diskstats`, a call takes the sectors read, and in the place of
the sectors written the number of writes merged (`run_diskVars`). Calls in turn
return the growth of the disk's bytes iff each reads a row where the sum of these
two happens to have grown as much, up to the rounding (`disk_io_usage_iff`).
-/

namespace OJ.CompileServer

open OJ.Comm OJ.Framework Stream

/-! ## `/proc/diskstats` -/

structure DiskRow where
  line : Str
  major : Nat
  minor : Nat
  name : Str
  readsCompleted : Nat
  readsMerged : Nat
  sectorsRead : Nat
  msReading : Nat
  writesCompleted : Nat
  writesMerged : Nat
  sectorsWritten : Nat
  rest : List Nat
  words_eq : words line = toStringU major :: toStringU minor :: name ::
    (readsCompleted :: readsMerged :: sectorsRead :: msReading :: writesCompleted ::
      writesMerged :: sectorsWritten :: rest).map toStringU

def DiskRow.bytes (r : DiskRow) : Int := 512 * (r.sectorsRead + r.sectorsWritten)

/-- The contents of `/proc/diskstats`, with the row of the device. -/
structure DiskStats where
  text : Str
  rows : List DiskRow
  own : DiskRow
  own_mem : own ∈ rows
  own_name : own.name = "sda".toList
  lines_eq : getline text = rows.map DiskRow.line

namespace DiskStats

/-- The first row of a device with `sda` in its name. -/
def found (d : DiskStats) : Option DiskRow := d.rows.find? fun r => contains r.name "sda".toList

/-- The bytes of the sectors that stand at the two places that are read, in the
row that is found. -/
def counted (d : DiskStats) : Option Int :=
  d.found.bind fun r =>
    if 512 * r.sectorsRead ≤ longMax ∧ 512 * r.writesMerged ≤ longMax then
      some (512 * (r.sectorsRead + r.writesMerged))
    else none

end DiskStats

/-! ## What a call reads -/

/-- Digits have no letters. -/
theorem not_contains_toStringU {part : Str} {c : Char} (hc : c ∈ part) (hdigit : c.isDigit = false)
    (n : Nat) : ¬ part <:+: toStringU n := fun h => by
  have := isDigit_of_mem_toStringU (h.subset hc)
  rw [hdigit] at this
  cases this

theorem contains_line (r : DiskRow) : contains r.line "sda".toList = contains r.name "sda".toList := by
  have hnum (n : Nat) : ¬ "sda".toList <:+: toStringU n :=
    not_contains_toStringU (by decide : 's' ∈ "sda".toList) rfl n
  rw [contains, contains, decide_eq_decide, infix_iff_words (by decide) (by decide), r.words_eq]
  constructor
  · rintro ⟨w, hw, h⟩
    rcases List.mem_cons.mp hw with rfl | hw
    · exact absurd h (hnum _)
    · rcases List.mem_cons.mp hw with rfl | hw
      · exact absurd h (hnum _)
      · rcases List.mem_cons.mp hw with rfl | hw
        · exact h
        · obtain ⟨n, -, rfl⟩ := List.mem_map.mp hw
          exact absurd h (hnum n)
  · intro h
    exact ⟨_, .tail _ (.tail _ (.head _)), h⟩

/-- A row: its sectors read and its writes merged. -/
theorem run_diskVars (r : DiskRow) (h : r.sectorsRead < 2 ^ 63) : (diskVars.run (.ofText r.line)).1 =
    (some (r.sectorsRead : Int), some (min (r.writesMerged : Int) longMax)) := by
  have hready := ready_ofText r.line
  rw [r.words_eq] at hready
  obtain ⟨x₁, s₁, e₁, h₁⟩ := Ready.extractStrings (l := [_, _, _, _, _]) hready []
  obtain ⟨s₂, e₂, h₂⟩ := h₁.extractLong h none
  obtain ⟨x₃, s₃, e₃, h₃⟩ := Ready.extractStrings (l := [_, _]) h₂ x₁
  obtain ⟨s₄, e₄, -⟩ := h₃.extractLong_cases (some 0)
  simp only [List.length_cons, List.length_nil, Nat.zero_add, Nat.reduceAdd] at e₁ e₃
  simp only [diskVars, Stateful.run_bind, e₁, e₂, e₃, e₄, Stateful.run_pure]

theorem run_diskVars_of_le (r : DiskRow) (h : 2 ^ 63 ≤ r.sectorsRead) :
    (diskVars.run (.ofText r.line)).1.1 = some longMax := by
  have hready := ready_ofText r.line
  rw [r.words_eq] at hready
  obtain ⟨x₁, s₁, e₁, h₁⟩ := Ready.extractStrings (l := [_, _, _, _, _]) hready []
  obtain ⟨s₂, e₂, -⟩ := h₁.extractLong_of_le h none
  simp only [List.length_cons, List.length_nil, Nat.zero_add, Nat.reduceAdd] at e₁
  simp only [diskVars, Stateful.run_bind, e₁, e₂, Stateful.run_pure]

/-! ## Calls -/

section
variable {d : DiskStats} {r : DiskRow} {s v : DiskStatics}

theorem find_disk (d : DiskStats) :
    (getline d.text).find? (contains · "sda".toList) = d.found.map DiskRow.line := by
  rw [d.lines_eq, List.find?_map, DiskStats.found]
  simp only [Function.comp_def, contains_line]

theorem exists_found (d : DiskStats) : ∃ r, d.found = some r := by
  refine Option.isSome_iff_exists.mp (List.find?_isSome.mpr ⟨d.own, d.own_mem, ?_⟩)
  rw [d.own_name]
  decide +kernel

/-- The statics after a call. -/
def DiskStats.read (d : DiskStats) : Option DiskStatics :=
  d.found.bind fun r =>
    if 512 * r.sectorsRead ≤ longMax ∧ 512 * r.writesMerged ≤ longMax then
      some ⟨512 * r.sectorsRead, 512 * r.writesMerged⟩
    else none

theorem sectorBytes_of_le {m n : Nat} (hm : 512 * (m : Int) ≤ longMax) (hn : 512 * (n : Int) ≤ longMax) :
    sectorBytes (some (m : Int)) (some (n : Int)) = some (512 * (m : Int), 512 * (n : Int)) := by
  have hlong {k : Nat} (hk : 512 * (k : Int) ≤ longMax) : long (k * 512) = some (512 * (k : Int)) := by
    rw [Int.mul_comm]
    exact long_of ⟨by rw [longMin]; omega, hk⟩
  simp [sectorBytes, hlong hm, hlong hn]

theorem sectorBytes_of_lt {m n : Int} (h : longMax < m * 512 ∨ longMax < n * 512) :
    sectorBytes (some m) (some n) = none := by
  rcases h with h | h
  · simp [sectorBytes, long_of_lt h]
  · simp [sectorBytes, long_of_lt h]

theorem diskLoop_eq (d : DiskStats) :
    diskLoop d.text = d.read.map fun v => (v.prevReadBytes, v.prevWriteBytes) := by
  obtain ⟨r, hfound⟩ := exists_found d
  rw [diskLoop, find_disk, DiskStats.read, hfound, Option.bind_some]
  show sectorBytes (diskVars.run (.ofText r.line)).1.1 (diskVars.run (.ofText r.line)).1.2 = _
  have hmax : longMax = 2 ^ 63 - 1 := rfl
  by_cases hlt : r.sectorsRead < 2 ^ 63
  · rw [run_diskVars r hlt]
    split
    · next h =>
      rw [min_eq_left (by omega), sectorBytes_of_le h.1 h.2]
      rfl
    · next h =>
      refine sectorBytes_of_lt ?_
      by_contra hle
      exact h (by omega)
  · rw [run_diskVars_of_le r (Nat.le_of_not_lt hlt), if_neg (by omega)]
    cases (diskVars.run (.ofText r.line)).1.2 with
    | some w => exact sectorBytes_of_lt (.inl (by omega))
    | none =>
      show sectorBytes (some longMax) none = none
      simp [sectorBytes]

/-- What calls have read. -/
structure DiskStatics.Ok (s : DiskStatics) : Prop where
  read : 0 ≤ s.prevReadBytes ∧ s.prevReadBytes ≤ longMax
  write : 0 ≤ s.prevWriteBytes ∧ s.prevWriteBytes ≤ longMax

theorem DiskStatics.ok_zero : DiskStatics.Ok ⟨0, 0⟩ := ⟨⟨le_rfl, by decide⟩, le_rfl, by decide⟩

def DiskStatics.sum (s : DiskStatics) : Int := s.prevReadBytes + s.prevWriteBytes

theorem read_eq_some (h : d.read = some v) : ∃ r, d.found = some r ∧
    512 * (r.sectorsRead : Int) ≤ longMax ∧ 512 * (r.writesMerged : Int) ≤ longMax ∧
    v = ⟨512 * r.sectorsRead, 512 * r.writesMerged⟩ := by
  obtain ⟨r, hfound, hv⟩ := Option.bind_eq_some_iff.mp h
  split at hv
  · next hle => exact ⟨r, hfound, hle.1, hle.2, (Option.some.inj hv).symm⟩
  · cases hv

theorem DiskStats.read_ok (h : d.read = some v) : v.Ok := by
  obtain ⟨r, -, hr, hw, rfl⟩ := read_eq_some h
  have hbytes (n : Nat) : 0 ≤ 512 * (n : Int) := by omega
  exact ⟨⟨hbytes _, hr⟩, hbytes _, hw⟩

/-- What a call makes of what it has read. -/
theorem getDiskIoUsage_of_read (h : d.read = some v) (hs : s.Ok) : getDiskIoUsage d.text s =
    (long (v.sum - s.sum)).map fun sum => (kilobytes sum, v) := by
  have hv := DiskStats.read_ok h
  rw [getDiskIoUsage, diskLoop_eq, h]
  simp only [Option.bind_eq_bind, Option.map_some, Option.bind_some]
  rw [long_sub hs.read hv.read, Option.bind_some, long_sub hs.write hv.write, Option.bind_some]
  have hsum : v.prevReadBytes - s.prevReadBytes + (v.prevWriteBytes - s.prevWriteBytes) =
      v.sum - s.sum := by
    rw [DiskStatics.sum, DiskStatics.sum]
    ring
  rw [hsum]
  cases long (v.sum - s.sum) with
  | none => rfl
  | some n => rfl

theorem getDiskIoUsage_of_none (h : d.read = none) : getDiskIoUsage d.text s = none := by
  rw [getDiskIoUsage, diskLoop_eq, h]
  rfl

end

/-- A call, as one that measures growth. -/
def diskMeter : Meter DiskStats DiskStatics ℚ where
  call d := getDiskIoUsage d.text
  read := DiskStats.read
  sum := DiskStatics.sum
  shown := kilobytes
  Fits := FitsLong
  Ok := DiskStatics.Ok
  ok_read := DiskStats.read_ok
  call_none _ := getDiskIoUsage_of_none
  call_some hs h hfits := by
    rw [getDiskIoUsage_of_read h hs, long_of hfits]
    rfl
  call_large hs h hfits := by
    rw [getDiskIoUsage_of_read h hs, long_of_not hfits]
    rfl

theorem diskStats_map_read_sum (d : DiskStats) : d.read.map DiskStatics.sum = d.counted := by
  rw [DiskStats.read, DiskStats.counted]
  cases d.found with
  | none => rfl
  | some r =>
    rw [Option.bind_some, Option.bind_some]
    split
    · rw [Option.map_some, DiskStatics.sum, mul_add]
    · rfl

/-- Calls in turn, from the statics at 0 on, return the growth of the bytes of
`sda`, over 1024, iff each of them counts something, and this has the rate of
these bytes. -/
theorem disk_io_usage_iff (ds : List DiskStats) :
    calls (fun d : DiskStats => getDiskIoUsage d.text) ⟨0, 0⟩ ds =
        some (growths kilobytes 0 (ds.map fun d => d.own.bytes)) ↔
      ∃ ns : List Int, ds.map DiskStats.counted = ns.map some ∧
        ((0, 0) :: ns.zip (ds.map fun d => d.own.bytes)).IsChain SameRate := by
  rw [← funext diskStats_map_read_sum]
  exact diskMeter.calls_iff DiskStatics.ok_zero (fun d => d.own.bytes) 0 ds

def DiskRow.sda : DiskRow where
  line := "   8       0 sda 40 2 640 31 90 7 512 44 0 60 75 0 0 0 0".toList
  major := 8
  minor := 0
  name := "sda".toList
  readsCompleted := 40
  readsMerged := 2
  sectorsRead := 640
  msReading := 31
  writesCompleted := 90
  writesMerged := 7
  sectorsWritten := 512
  rest := [44, 0, 60, 75, 0, 0, 0, 0]
  words_eq := by decide +kernel

def DiskStats.early : DiskStats where
  text := [DiskRow.sda.line].flatMap (· ++ ['\n'])
  rows := [.sda]
  own := .sda
  own_mem := .head _
  own_name := rfl
  lines_eq := getline_flatMap (by decide +kernel)

/-- 640 sectors read, 512 written and 7 writes merged: the call counts 640 + 7
sectors, not 640 + 512. -/
theorem not_disk_io_usage :
    getDiskIoUsage DiskStats.early.text ⟨0, 0⟩ = some (647 / 2, ⟨327680, 3584⟩) ∧
      calls (fun d : DiskStats => getDiskIoUsage d.text) ⟨0, 0⟩ [.early] ≠
        some (growths kilobytes 0 ([DiskStats.early].map fun d => d.own.bytes)) := by
  have hread : DiskStats.early.read = some ⟨327680, 3584⟩ := by decide +kernel
  have hcall : getDiskIoUsage DiskStats.early.text ⟨0, 0⟩ = some (647 / 2, ⟨327680, 3584⟩) := by
    rw [getDiskIoUsage_of_read hread DiskStatics.ok_zero, long_of (by decide)]
    show some (kilobytes 331264, _) = _
    rw [kilobytes_of_lt (by decide)]
    norm_num
  refine ⟨hcall, fun h => ?_⟩
  rw [calls, hcall] at h
  have hrate : 647 / 2 = kilobytes 589824 := (List.cons.inj (Option.some.inj h)).1
  rw [kilobytes_of_lt (by decide)] at hrate
  norm_num at hrate

end OJ.CompileServer
