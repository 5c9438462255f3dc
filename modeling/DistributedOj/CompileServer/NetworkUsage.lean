import DistributedOj.Comm.Lines
import DistributedOj.CompileServer.HostStatus
import DistributedOj.Framework.Meter

/-!
# `get_network_usage`

Of a row of `/proc/net/dev`, a call takes the first and the last receive counter
(`run_netVars`), and not the transmitted bytes; which row, is decided by the
first line with the interface's name in it. Calls in turn return the growth of
the interface's bytes iff each reads a line where the sum of these two happens to
have grown as much, up to the rounding (`network_usage_iff`).
-/

namespace OJ.CompileServer

open OJ.Comm OJ.Framework Stream

/-! ## `/proc/net/dev` -/

def netHeaders : List Str := [
  "Inter-|   Receive                                                |  Transmit",
  " face |bytes    packets errs drop fifo frame compressed multicast|bytes    packets errs drop fifo colls carrier compressed"
  ].map String.toList

/-- A row: the counters that are named, and seven others after each of them. -/
structure NetRow where
  line : Str
  name : Str
  rxBytes : Nat
  receive : List Nat
  txBytes : Nat
  transmit : List Nat
  receive_length : receive.length = 7
  transmit_length : transmit.length = 7
  words_eq : words line =
    (name ++ [':']) :: (rxBytes :: (receive ++ txBytes :: transmit)).map toStringU

namespace NetRow

def bytes (r : NetRow) : Int := r.rxBytes + r.txBytes

/-- The last receive counter, with the greatest `long` for what is too large. -/
def lastReceive (r : NetRow) : Int :=
  if ∃ n ∈ r.receive, 2 ^ 63 ≤ n then longMax else (r.receive.getLast?.getD 0 : Nat)

end NetRow

/-- The contents of `/proc/net/dev`, with the row of the interface. -/
structure NetDev (iface : Str) where
  text : Str
  rows : List NetRow
  own : NetRow
  own_mem : own ∈ rows
  own_name : own.name = iface
  lines_eq : getline text = netHeaders ++ rows.map NetRow.line

namespace NetDev

variable {iface : Str}

/-- The row of the first line with the name in it, unless that is a header. -/
def found (d : NetDev iface) : Option NetRow :=
  if netHeaders.any (contains · iface) then none else d.rows.find? fun r => contains r.line iface

/-- The sum of what stands at the two places that are read, if the first line with
the name in it is a row. -/
def counted (d : NetDev iface) : Option Int :=
  d.found.bind fun r => if r.rxBytes < 2 ^ 63 then some (r.rxBytes + r.lastReceive) else none

end NetDev

/-! ## What a call reads -/

theorem exists_getLast_receive (r : NetRow) : ∃ n ∈ r.receive, r.receive.getLast? = some n := by
  cases e : r.receive.getLast? with
  | none =>
    have hlength := r.receive_length
    rw [List.getLast?_eq_none_iff.mp e] at hlength
    cases hlength
  | some n => exact ⟨n, List.mem_of_getLast? e, rfl⟩

theorem lastReceive_le (r : NetRow) : 0 ≤ r.lastReceive ∧ r.lastReceive ≤ longMax := by
  rw [NetRow.lastReceive]
  split
  · rw [longMax]
    omega
  · next h =>
    obtain ⟨n, hmem, hn⟩ := exists_getLast_receive r
    have hlt : n < 2 ^ 63 := Nat.lt_of_not_le fun hle => h ⟨n, hmem, hle⟩
    rw [hn, longMax]
    refine ⟨Int.natCast_nonneg _, ?_⟩
    show (n : Int) ≤ _
    omega

theorem lastOf_receive (r : NetRow) : lastOf r.receive none = some r.lastReceive := by
  rw [lastOf, NetRow.lastReceive]
  split
  · rfl
  · obtain ⟨n, -, hn⟩ := exists_getLast_receive r
    rw [hn]
    rfl

/-- A row: its first and its last receive counter. -/
theorem run_netVars (r : NetRow) : (netVars.run (.ofText r.line)).1 =
    if r.rxBytes < 2 ^ 63 then (some (r.rxBytes : Int), some r.lastReceive)
    else (some longMax, none) := by
  have hready := ready_ofText r.line
  rw [r.words_eq, List.map_cons, List.map_append] at hready
  obtain ⟨s₁, e₁, h₁⟩ := hready.extractString []
  simp only [netVars, Stateful.run_bind, e₁]
  split
  · next h =>
    obtain ⟨s₂, e₂, h₂⟩ := h₁.extractLong h none
    obtain ⟨s₃, e₃⟩ := h₂.extractLongs none
    rw [r.receive_length, lastOf_receive] at e₃
    rw [e₂, e₃]
    rfl
  · next h =>
    obtain ⟨s₂, e₂, h₂⟩ := h₁.extractLong_of_le (Nat.le_of_not_lt h) none
    obtain ⟨s₃, e₃, -⟩ := run_extractLongs_of_fail h₂ 7 none
    rw [e₂, e₃]
    rfl

/-- A header has no numbers. -/
theorem run_netHeaders : ∀ line ∈ netHeaders, (netVars.run (.ofText line)).1.2 = none := by
  decide +kernel

/-- The statics after a call. -/
def NetDev.read {iface : Str} (d : NetDev iface) : Option NetStatics :=
  d.found.bind fun r => if r.rxBytes < 2 ^ 63 then some ⟨r.rxBytes, r.lastReceive⟩ else none

/-- What calls have read: numbers that a `long` can hold. -/
structure NetStatics.Ok (s : NetStatics) : Prop where
  rx : 0 ≤ s.prevRxBytes ∧ s.prevRxBytes ≤ longMax
  tx : 0 ≤ s.prevTxBytes ∧ s.prevTxBytes ≤ longMax

theorem NetStatics.ok_zero : NetStatics.Ok ⟨0, 0⟩ := ⟨⟨le_rfl, by decide⟩, le_rfl, by decide⟩

def NetStatics.sum (s : NetStatics) : Int := s.prevRxBytes + s.prevTxBytes

section
variable {iface : Str} {d : NetDev iface} {s v : NetStatics}

theorem find_netDev (d : NetDev iface) : (getline d.text).find? (contains · iface) =
    (netHeaders.find? (contains · iface)).or
      ((d.rows.find? fun r => contains r.line iface).map NetRow.line) := by
  rw [d.lines_eq, List.find?_append, List.find?_map]
  rfl

theorem find_of_found {r : NetRow} (h : d.found = some r) :
    (getline d.text).find? (contains · iface) = some r.line := by
  rw [NetDev.found] at h
  split at h
  · cases h
  · next hany =>
    have hnone : netHeaders.find? (contains · iface) = none :=
      List.find?_eq_none.mpr fun line hline hc => hany (List.any_eq_true.mpr ⟨line, hline, hc⟩)
    rw [find_netDev, hnone, h]
    rfl

theorem find_of_not_found (h : d.found = none) :
    (∃ line ∈ netHeaders, (getline d.text).find? (contains · iface) = some line) ∨
      (getline d.text).find? (contains · iface) = none := by
  rw [find_netDev]
  cases hheader : netHeaders.find? (contains · iface) with
  | some line => exact .inl ⟨line, List.mem_of_find?_eq_some hheader, rfl⟩
  | none =>
    right
    have hany : ¬ (netHeaders.any (contains · iface)) = true := fun hany => by
      obtain ⟨line, hline, hc⟩ := List.any_eq_true.mp hany
      exact List.find?_eq_none.mp hheader line hline hc
    rw [NetDev.found, if_neg hany] at h
    rw [h]
    rfl

theorem netLoop_of_read (h : d.read = some v) :
    netLoop iface d.text = (some v.prevRxBytes, some v.prevTxBytes) := by
  obtain ⟨r, hfound, hv⟩ := Option.bind_eq_some_iff.mp h
  split at hv
  · next hrx =>
    rw [netLoop, find_of_found hfound, ← Option.some.inj hv]
    show (netVars.run (.ofText r.line)).1 = _
    rw [run_netVars, if_pos hrx]
  · cases hv

theorem netLoop_of_none (h : d.read = none) : (netLoop iface d.text).2 = none := by
  rw [netLoop]
  cases hfound : d.found with
  | none =>
    rcases find_of_not_found hfound with ⟨line, hline, e⟩ | e
    · rw [e]
      exact run_netHeaders line hline
    · rw [e]
  | some r =>
    rw [find_of_found hfound]
    show (netVars.run (.ofText r.line)).1.2 = none
    rw [NetDev.read, hfound, Option.bind_some] at h
    split at h
    · cases h
    · next hrx => rw [run_netVars, if_neg hrx]

/-- What a call makes of what it has read. -/
theorem getNetworkUsage_of_loop
    (h : netLoop iface d.text = (some v.prevRxBytes, some v.prevTxBytes)) (hs : s.Ok) (hv : v.Ok) :
    getNetworkUsage iface d.text s =
      (long (v.sum - s.sum)).map fun sum => (kilobytes sum, v) := by
  rw [getNetworkUsage, h]
  simp only [Option.bind_eq_bind, Option.bind_some]
  rw [long_sub hs.rx hv.rx, Option.bind_some, long_sub hs.tx hv.tx, Option.bind_some]
  have hsum : v.prevRxBytes - s.prevRxBytes + (v.prevTxBytes - s.prevTxBytes) = v.sum - s.sum := by
    rw [NetStatics.sum, NetStatics.sum]
    ring
  rw [hsum]
  cases long (v.sum - s.sum) with
  | none => rfl
  | some n => rfl

theorem getNetworkUsage_of_none (h : d.read = none) : getNetworkUsage iface d.text s = none := by
  rw [getNetworkUsage]
  obtain ⟨rx, htx⟩ : ∃ rx, netLoop iface d.text = (rx, none) := ⟨_, Prod.ext rfl (netLoop_of_none h)⟩
  rw [htx]
  simp

theorem NetDev.read_ok (h : d.read = some v) : v.Ok := by
  obtain ⟨r, -, hv⟩ := Option.bind_eq_some_iff.mp h
  split at hv
  · next hrx =>
    rw [← Option.some.inj hv]
    refine ⟨⟨Int.natCast_nonneg _, ?_⟩, lastReceive_le r⟩
    show (r.rxBytes : Int) ≤ _
    rw [longMax]
    omega
  · cases hv

end

/-- A call, as one that measures growth. -/
def netMeter (iface : Str) : Meter (NetDev iface) NetStatics ℚ where
  call d := getNetworkUsage iface d.text
  read := NetDev.read
  sum := NetStatics.sum
  shown := kilobytes
  Fits := FitsLong
  Ok := NetStatics.Ok
  ok_read := NetDev.read_ok
  call_none _ := getNetworkUsage_of_none
  call_some hs h hfits := by
    rw [getNetworkUsage_of_loop (netLoop_of_read h) hs (NetDev.read_ok h), long_of hfits]
    rfl
  call_large hs h hfits := by
    rw [getNetworkUsage_of_loop (netLoop_of_read h) hs (NetDev.read_ok h), long_of_not hfits]
    rfl

theorem map_read_sum {iface : Str} (d : NetDev iface) : d.read.map NetStatics.sum = d.counted := by
  rw [NetDev.read, NetDev.counted]
  cases d.found with
  | none => rfl
  | some r =>
    rw [Option.bind_some, Option.bind_some]
    split
    · rfl
    · rfl

/-- Calls in turn, from the statics at 0 on, return the growth of the interface's
received and transmitted bytes, over 1024, iff each of them counts something, and
this has the rate of these bytes. -/
theorem network_usage_iff (iface : Str) (ds : List (NetDev iface)) :
    calls (fun d : NetDev iface => getNetworkUsage iface d.text) ⟨0, 0⟩ ds =
        some (growths kilobytes 0 (ds.map fun d => d.own.bytes)) ↔
      ∃ ns : List Int, ds.map NetDev.counted = ns.map some ∧
        ((0, 0) :: ns.zip (ds.map fun d => d.own.bytes)).IsChain SameRate := by
  rw [← funext map_read_sum]
  exact (netMeter iface).calls_iff NetStatics.ok_zero (fun d => d.own.bytes) 0 ds

def NetRow.lo : NetRow where
  line := "    lo: 776 9 0 0 0 0 0 0 776 9 0 0 0 0 0 0".toList
  name := "lo".toList
  rxBytes := 776
  receive := [9, 0, 0, 0, 0, 0, 0]
  txBytes := 776
  transmit := [9, 0, 0, 0, 0, 0, 0]
  receive_length := rfl
  transmit_length := rfl
  words_eq := by decide +kernel

def NetRow.eth0 : NetRow where
  line := "  eth0: 2048 14 0 0 0 0 0 0 1024 11 0 0 0 0 0 0".toList
  name := "eth0".toList
  rxBytes := 2048
  receive := [14, 0, 0, 0, 0, 0, 0]
  txBytes := 1024
  transmit := [11, 0, 0, 0, 0, 0, 0]
  receive_length := rfl
  transmit_length := rfl
  words_eq := by decide +kernel

def NetDev.early : NetDev "eth0".toList where
  text := (netHeaders ++ [NetRow.lo.line, NetRow.eth0.line]).flatMap (· ++ ['\n'])
  rows := [.lo, .eth0]
  own := .eth0
  own_mem := .tail _ (.head _)
  own_name := rfl
  lines_eq := getline_flatMap (by decide +kernel)

/-- 2048 bytes received and 1024 transmitted: the call returns 2, not 3. -/
theorem not_network_usage :
    getNetworkUsage "eth0".toList NetDev.early.text ⟨0, 0⟩ = some (2, ⟨2048, 0⟩) ∧
      calls (fun d : NetDev "eth0".toList => getNetworkUsage "eth0".toList d.text) ⟨0, 0⟩ [.early] ≠
        some (growths kilobytes 0 ([NetDev.early].map fun d => d.own.bytes)) := by
  have hread : NetDev.early.read = some ⟨2048, 0⟩ := by decide +kernel
  have hcall : getNetworkUsage "eth0".toList NetDev.early.text ⟨0, 0⟩ = some (2, ⟨2048, 0⟩) := by
    rw [getNetworkUsage_of_loop (netLoop_of_read hread) NetStatics.ok_zero (NetDev.read_ok hread),
      long_of (by decide)]
    show some (kilobytes 2048, _) = _
    rw [kilobytes_of_lt (by decide)]
    norm_num
  refine ⟨hcall, fun h => ?_⟩
  rw [calls, hcall] at h
  have hrate : 2 = kilobytes 3072 := (List.cons.inj (Option.some.inj h)).1
  rw [kilobytes_of_lt (by decide)] at hrate
  norm_num at hrate

end OJ.CompileServer
