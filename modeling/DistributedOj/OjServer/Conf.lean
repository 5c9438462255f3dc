import DistributedOj.Comm.Digits
import DistributedOj.Comm.Lines
import DistributedOj.OjServer.Lists

/-!
# The configuration file

`LoadConf` registers the lines that are a text, one or more `:` and a text, in
their order, and looks at nothing else (`loadConf_registers`): an address may be
empty, and a port is what `atoi` makes of a text (`not_well_formed`).
-/

namespace OJ.Server

open OJ.Comm

/-- The machine that a line registers. -/
def registered (line : Str) : Option Machine :=
  match splitString line ":".toList with
  | [ip, port] => some ⟨ip, atoi port, 0⟩
  | _ => none

/-- A text, a run of `:` and a text: an address and what `atoi` makes of the
port. -/
def Registers (line : Str) (m : Machine) : Prop :=
  ∃ ip port n, line = ip ++ List.replicate (n + 1) ':' ++ port ∧ ':' ∉ ip ∧ ':' ∉ port ∧
    m = ⟨ip, atoi port, 0⟩

/-- `host:port` with a port between 1 and 65535. -/
def HostPort (line : Str) (m : Machine) : Prop :=
  ∃ host port, line = host ++ ':' :: port ∧ host ≠ [] ∧ ':' ∉ host ∧ isValidNumber port = true ∧
    1 ≤ digitsVal 0 port ∧ digitsVal 0 port ≤ 65535 ∧ m = ⟨host, digitsVal 0 port, 0⟩

theorem registered_iff {line : Str} {m : Machine} : registered line = some m ↔ Registers line m := by
  have hcolon : ":".toList = [':'] := rfl
  unfold registered
  constructor
  · intro h
    split at h
    · next ip port hs =>
      rw [hcolon] at hs
      obtain ⟨hip, hport, n, rfl⟩ := splitString_pair_iff.mp hs
      exact ⟨ip, port, n, rfl, hip, hport, (Option.some.inj h).symm⟩
    · cases h
  · rintro ⟨ip, port, n, rfl, hip, hport, rfl⟩
    rw [hcolon, splitString_pair_iff.mpr ⟨hip, hport, n, rfl⟩]

theorem HostPort.registers {line : Str} {m : Machine} (h : HostPort line m) : Registers line m := by
  obtain ⟨host, port, rfl, -, hhost, hport, -, hle, rfl⟩ := h
  refine ⟨host, port, 0, ?_, hhost, colon_notMem_of_valid hport, ?_⟩
  · rw [List.replicate_one, List.append_assoc, List.singleton_append]
  · rw [atoi_of_valid hport (by omega)]

/-! ## The whole file -/

namespace LoadBalance

/-- The load balancer with further machines online. -/
def add (lb : LoadBalance) (ms : List Machine) : LoadBalance :=
  { lb with
    machines := lb.machines ++ ms
    online := lb.online ++ (List.range ms.length).map fun i => ((lb.machines.length + i : Nat) : Int) }

theorem loadLine_eq (lb : LoadBalance) (line : Str) :
    lb.loadLine line = lb.add (registered line).toList := by
  unfold loadLine registered
  generalize splitString line ":".toList = tokens
  match tokens with
  | [ip, port] => rfl
  | [] | [_] | _ :: _ :: _ :: _ => simp [add]

theorem add_add (lb : LoadBalance) (ms ms' : List Machine) : (lb.add ms).add ms' = lb.add (ms ++ ms') := by
  simp [add, List.range_add, Nat.add_assoc, Function.comp_def]

theorem foldl_loadLine (lines : List Str) (lb : LoadBalance) :
    lines.foldl loadLine lb = lb.add (lines.filterMap registered) := by
  induction lines generalizing lb with
  | nil => simp [add]
  | cons line lines ih =>
    rw [List.foldl_cons, ih, loadLine_eq, add_add]
    cases h : registered line with
    | none => rw [List.filterMap_cons_none h, Option.toList_none, List.nil_append]
    | some m => rw [List.filterMap_cons_some h, Option.toList_some, List.singleton_append]

end LoadBalance

/-- `LoadConf` registers, in line order, the lines that are a text, a run of `:`
and a text; every `host:port` among them with that address and port. -/
theorem loadConf_registers (lb : LoadBalance) (file : Str) :
    lb.loadConf (some file) = (lb.add ((getline file).filterMap registered), true) ∧
    (∀ line m, registered line = some m ↔ Registers line m) ∧
    ∀ line m, HostPort line m → registered line = some m :=
  ⟨Prod.ext (LoadBalance.foldl_loadLine _ _) rfl, fun _ _ => registered_iff,
    fun _ _ h => registered_iff.mpr h.registers⟩

/-- No address and no number. -/
theorem not_well_formed :
    (LoadBalance.new.loadConf (some ":8080\nhost:abc\n".toList)).1.machines =
      [⟨[], 8080, 0⟩, ⟨"host".toList, 0, 0⟩] ∧
    ∀ line ∈ getline ":8080\nhost:abc\n".toList, ∀ m, ¬ HostPort line m := by
  refine ⟨by decide, fun line hl m h => ?_⟩
  have hr := registered_iff.mpr h.registers
  obtain ⟨host, port, -, hne, -, -, hport, -, rfl⟩ := h
  have hlines : getline ":8080\nhost:abc\n".toList = [":8080".toList, "host:abc".toList] := by decide
  rw [hlines, List.mem_pair] at hl
  rcases hl with rfl | rfl
  · have : registered ":8080".toList = some ⟨[], 8080, 0⟩ := by decide
    rw [this] at hr
    injection hr with hr
    injection hr with hip
    exact hne hip.symm
  · have : registered "host:abc".toList = some ⟨"host".toList, 0, 0⟩ := by decide
    rw [this] at hr
    injection hr with hr
    injection hr with _ hp
    omega

end OJ.Server
