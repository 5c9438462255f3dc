import DistributedOj.CompileServer.StatusAnswer
import DistributedOj.OjServer.Stopped

/-!
# The dispatcher and what backends say of themselves

Each backend answers `/status` from its files and static variables. Nothing guards
these variables, and the server's handlers run in parallel: here each backend takes
its `/status` requests one at a time. `UpdateStatus` reads the answer under the lock,
where a negative reading throws. A rate is negative iff the sum of its counters has
fallen since the answer before. So of a dispatcher with its backends, an exception
leaves `SmartChoice` iff a probe met such an answer (`Feed.threw_iff`).
-/

namespace OJ.Server

open OJ.Comm OJ.Framework OJ.CompileServer

/-! ## What is read of an answer -/

/-- What jsoncpp does with a `float` or a `double` on its way: of a rate, an
unsigned number can be read back iff it is not negative. -/
structure Wire (J : JsonCpp) (real : Option ℚ → Json) : Prop where
  index : ∀ v key, J.index v key = v.index key
  rate : ∀ n : Int, FitsLong n → ((∃ k, J.asUInt64 (real (some (kilobytes n))) = .ok k) ↔ 0 ≤ kilobytes n)
  count : ∀ n : Nat, n < 2 ^ 31 → ∃ k, J.asUInt64 (.int n) = .ok k
  asDouble : ∀ q, ∃ x, J.asDouble (real (some q)) = .ok x
  asFloat : ∀ q, ∃ x, J.asFloat (real (some q)) = .ok x

/-- Neither sum has fallen since the answer before, and the percentages can be
read as unsigned numbers. -/
structure Rises (J : JsonCpp) (real : Option ℚ → Json) (s : HostStatics) (r : Readings) (s' : HostStatics) :
    Prop where
  cpuUsage : ∃ n, J.asUInt64 (real r.cpuUsage) = .ok n
  memoryUsage : ∃ n, J.asUInt64 (real r.memoryUsage) = .ok n
  net : s.net.sum ≤ s'.net.sum
  disk : s.disk.sum ≤ s'.disk.sum

theorem exists_ok_bind {ε α β : Type} {x : Except ε α} {f : α → Except ε β} :
    (∃ b, (x >>= f) = .ok b) ↔ ∃ a, x = .ok a ∧ ∃ b, f a = .ok b := by
  cases x with
  | ok a => simp [bind, Except.bind]
  | error e => simp [bind, Except.bind]

section
variable {J : JsonCpp} {real : Option ℚ → Json}

/-- The members of the answer. -/
theorem statusLoad_statusJson (h : Wire J real) (r : Readings) :
    (∃ load, statusLoad J (statusJson real r) = .ok load) ↔
      (∃ n, J.asUInt64 (real r.cpuUsage) = .ok n) ∧ (∃ n, J.asUInt64 (real r.memoryUsage) = .ok n) ∧
      (∃ n, J.asUInt64 (real (some r.networkUsage)) = .ok n) ∧
      (∃ n, J.asUInt64 (real (some r.diskIoUsage)) = .ok n) ∧
      ∃ n, J.asUInt64 (.int r.activeConnections) = .ok n := by
  have hindex : J.index = Json.index := funext fun v => funext fun key => h.index v key
  have hcpu : (statusJson real r).index "cpu_usage".toList = .ok (real r.cpuUsage) := rfl
  have hmemory : (statusJson real r).index "memory_usage".toList = .ok (real r.memoryUsage) := rfl
  have hnet : (statusJson real r).index "network_usage".toList = .ok (real (some r.networkUsage)) := rfl
  have hdisk : (statusJson real r).index "disk_io_usage".toList = .ok (real (some r.diskIoUsage)) := rfl
  have hcount : (statusJson real r).index "active_connections".toList = .ok (.int r.activeConnections) := rfl
  have htime : (statusJson real r).index "response_time".toList = .ok (real (some r.responseTime)) := rfl
  let load : Json := .obj [("15min".toList, real (some r.loadAverage.2.2)),
    ("1min".toList, real (some r.loadAverage.1)), ("5min".toList, real (some r.loadAverage.2.1))]
  have hload : (statusJson real r).index "load_average".toList = .ok load := rfl
  have hload₁ : load.index "1min".toList = .ok (real (some r.loadAverage.1)) := rfl
  have hload₅ : load.index "5min".toList = .ok (real (some r.loadAverage.2.1)) := rfl
  have hload₁₅ : load.index "15min".toList = .ok (real (some r.loadAverage.2.2)) := rfl
  obtain ⟨x₁, h₁⟩ := h.asDouble r.loadAverage.1
  obtain ⟨x₂, h₂⟩ := h.asDouble r.loadAverage.2.1
  obtain ⟨x₃, h₃⟩ := h.asDouble r.loadAverage.2.2
  obtain ⟨x₄, h₄⟩ := h.asFloat r.responseTime
  simp only [statusLoad, hindex, hload, hload₁, hload₅, hload₁₅, hcpu, hmemory, hnet, hdisk, hcount, htime,
    h₁, h₂, h₃, h₄, exists_ok_bind, Except.ok.injEq, exists_eq_left']
  constructor
  · rintro ⟨n₁, e₁, n₂, e₂, n₃, e₃, n₄, e₄, n₅, e₅, -⟩
    exact ⟨⟨n₁, e₁⟩, ⟨n₂, e₂⟩, ⟨n₃, e₃⟩, ⟨n₄, e₄⟩, n₅, e₅⟩
  · rintro ⟨⟨n₁, e₁⟩, ⟨n₂, e₂⟩, ⟨n₃, e₃⟩, ⟨n₄, e₄⟩, n₅, e₅⟩
    exact ⟨n₁, e₁, n₂, e₂, n₃, e₃, n₄, e₄, n₅, e₅, _, rfl⟩

theorem statusLoad_ok_iff (h : Wire J real) {f : HostFiles} {u u' : HostStatics} {r : Readings}
    (hf : handleStatus f u = some (r, u')) :
    (∃ load, statusLoad J (statusJson real r) = .ok load) ↔ Rises J real u r u' := by
  obtain ⟨⟨hnet, hnet_fits⟩, hdisk, hdisk_fits⟩ := rates_of_status hf
  rw [statusLoad_statusJson h, hnet, hdisk, h.rate _ hnet_fits, h.rate _ hdisk_fits, kilobytes_nonneg_iff,
    kilobytes_nonneg_iff, Int.sub_nonneg, Int.sub_nonneg]
  constructor
  · rintro ⟨hcpu, hmemory, hnet, hdisk, -⟩
    exact ⟨hcpu, hmemory, hnet, hdisk⟩
  · intro hrises
    exact ⟨hrises.cpuUsage, hrises.memoryUsage, hrises.net, hrises.disk, h.count _ (connections_of_status hf)⟩

/-- The answer throws iff a sum has fallen, or a percentage cannot be read. -/
theorem updateStatus_threw (h : Wire J real) {f : HostFiles} {u u' : HostStatics} {r : Readings}
    (hf : handleStatus f u = some (r, u')) {body : Str} (hbody : J.parse body = .ok (some (statusJson real r))) :
    updateStatus J (some ⟨200, body⟩) = .threw ↔ ¬ Rises J real u r u' := by
  rw [updateStatus_threw_iff, ← statusLoad_ok_iff h hf]
  constructor
  · rintro ⟨res, hres, -, hmalformed⟩ ⟨load, hl⟩
    obtain rfl := Option.some.inj hres
    rcases hmalformed with ⟨e, hp⟩ | ⟨status, hp, e, he⟩
    · rw [hbody] at hp
      cases hp
    · obtain rfl : statusJson real r = status := Option.some.inj (Except.ok.inj (hbody.symm.trans hp))
      rw [hl] at he
      cases he
  · intro hno
    refine ⟨_, rfl, rfl, .inr ⟨_, hbody, ?_⟩⟩
    cases he : statusLoad J (statusJson real r) with
    | error e => exact ⟨e, rfl⟩
    | ok load => exact absurd ⟨load, he⟩ hno

end

/-! ## The dispatcher with its backends -/

/-- The dispatcher, and the static variables of each backend. -/
structure Feed where
  sys : Sys
  hosts : Nat → HostStatics

/-- An event: a probe of machine `m` by call `t`, which is answered with `body`
from these files or not at all; someone else's request for `/status`, which the backend
takes before or after a probe; or a step of the dispatcher that is no probe. -/
inductive FeedEvent where
  | probe (t m : Nat) (answer : Option (HostFiles × Str))
  | status (m : Nat) (f : HostFiles)
  | other (e : Event)

def Event.isProbe : Event → Bool
  | .call _ (.probe ..) => true
  | _ => false

namespace Feed

variable (J : JsonCpp)

def step (s : Feed) : FeedEvent → Option Feed
  | .probe t m none => (s.sys.step (.call t (.probe m .failed))).map fun sys => { s with sys := sys }
  | .probe t m (some (f, body)) => do
    let (_, u) ← handleStatus f (s.hosts m)
    let sys ← s.sys.step (.call t (.probe m (updateStatus J (some ⟨200, body⟩))))
    return ⟨sys, Function.update s.hosts m u⟩
  | .status m f => (handleStatus f (s.hosts m)).map fun x => { s with hosts := Function.update s.hosts m x.2 }
  | .other e => if e.isProbe then none else (s.sys.step e).map fun sys => { s with sys := sys }

variable (real : Option ℚ → Json)

/-- What is read of an answer is what the backend wrote. -/
def Delivers (s : Feed) : FeedEvent → Prop
  | .probe _ m (some (f, body)) =>
    ∀ r u, handleStatus f (s.hosts m) = some (r, u) → J.parse body = .ok (some (statusJson real r))
  | _ => True

/-- A probe is answered, and since the backend's answer before a sum has fallen,
or a percentage cannot be read. -/
def Fell (s : Feed) (e : FeedEvent) : Prop :=
  ∃ t m f body r u, e = .probe t m (some (f, body)) ∧ handleStatus f (s.hosts m) = some (r, u) ∧
    ¬ Rises J real (s.hosts m) r u

/-- An exception has left `SmartChoice`. -/
def Threw (s : Feed) : Prop := ∃ (t : Nat) (c : Call), s.sys.calls[t]? = some c ∧ c.pc = .threw

section
variable {J : JsonCpp} {real : Option ℚ → Json} {s s' : Feed} {e : FeedEvent}

theorem not_threw_iff : ¬ s.Threw ↔ s.sys.NoneThrew := by
  simp only [Threw, Sys.NoneThrew, not_exists, not_and]

/-- What a step does in the dispatcher: nothing, or a step that does not throw
unless the probed backend's answer has fallen. -/
theorem sys_of_step (hw : Wire J real) (hd : Delivers J real s e) (hs : s.step J e = some s') :
    s'.sys = s.sys ∨ ∃ e', s.sys.step e' = some s'.sys ∧ (NoThrow s.sys e' ∨ s.Fell J real e) := by
  cases e with
  | probe t m answer =>
    rcases answer with _ | ⟨f, body⟩
    · obtain ⟨sys, hsys, rfl⟩ := Option.map_eq_some_iff.mp hs
      exact .inr ⟨_, hsys, .inl fun e => by cases e⟩
    · obtain ⟨⟨r, u⟩, hf, hs⟩ := Option.bind_eq_some_iff.mp hs
      obtain ⟨sys, hsys, hs⟩ := Option.bind_eq_some_iff.mp hs
      cases hs
      refine .inr ⟨_, hsys, ?_⟩
      by_cases hrises : Rises J real (s.hosts m) r u
      · exact .inl fun hthrew => (updateStatus_threw hw hf (hd r u hf)).mp hthrew hrises
      · exact .inr ⟨t, m, f, body, r, u, rfl, hf, hrises⟩
  | status m f =>
    obtain ⟨x, -, rfl⟩ := Option.map_eq_some_iff.mp hs
    exact .inl rfl
  | other e =>
    rw [step, Option.ite_none_left_eq_some] at hs
    obtain ⟨hprobe, hs⟩ := hs
    obtain ⟨sys, hsys, rfl⟩ := Option.map_eq_some_iff.mp hs
    refine .inr ⟨e, hsys, .inl ?_⟩
    cases e with
    | call t a =>
      cases a with
      | probe => exact absurd rfl hprobe
      | tau | post => trivial
    | recover => trivial

/-- What an exception has left stays so. -/
theorem Threw.step (h : s.Threw) (hw : Wire J real) (hd : Delivers J real s e)
    (hs : s.step J e = some s') : s'.Threw := by
  obtain ⟨t, c, hc, hpc⟩ := h
  rcases sys_of_step hw hd hs with hsys | ⟨e', hsys, -⟩
  · exact ⟨t, c, hsys ▸ hc, hpc⟩
  · obtain ⟨u, a, d, lb', d', rfl, hud, hcs, hs'⟩ | ⟨u, rfl, -, hs'⟩ := Sys.step_cases hsys
    · have hut : u ≠ t := by
        rintro rfl
        obtain rfl : c = d := Option.some.inj (hc.symm.trans hud)
        exact hcs.not_threw hpc
      refine ⟨t, c, ?_, hpc⟩
      rw [hs']
      exact (getElem?_set_of_ne (Ne.symm hut)).trans hc
    · exact ⟨t, c, by rw [hs']; exact hc, hpc⟩

/-- A probe of a backend whose answer has fallen throws. -/
theorem Fell.threw (h : s.Fell J real e) (hw : Wire J real) (hd : Delivers J real s e)
    (hs : s.step J e = some s') : s'.Threw := by
  obtain ⟨t, m, f, body, r, u, rfl, hf, hrises⟩ := h
  obtain ⟨x, hx, hs⟩ := Option.bind_eq_some_iff.mp hs
  obtain ⟨sys, hsys, hs⟩ := Option.bind_eq_some_iff.mp hs
  cases hs
  rw [(updateStatus_threw hw hf (hd r u hf)).mpr hrises] at hsys
  obtain ⟨v, a, c, lb', c', he, hc, hcs, hs'⟩ | ⟨v, he, -⟩ := Sys.step_cases hsys
  · cases he
    cases hcs with
    | probeThrew =>
      refine ⟨t, { c with pc := .threw }, ?_, rfl⟩
      rw [hs']
      exact getElem?_set_self_of_some hc
    | probe _ _ _ hp => exact absurd rfl hp
  · cases he

end

end Feed

/-! A dispatcher with one machine, whose interface counted more bytes at its
answer before: it has been set to 0 since. -/

namespace Feed

def files : HostFiles where
  procStat := "cpu 6 0 4 90 0\n".toList
  memInfo := ⟨1024, 512, 4096⟩
  netDev := NetDev.early.text
  diskStat := []
  netstat := []
  load := (0, 0, 0)
  duration := 10

def before : HostStatics := ⟨⟨0, 0⟩, ⟨4096, 0⟩, ⟨0, 0⟩⟩

def readings : Readings := ⟨some 10, some 50, -2, 0, 0, (0, 0, 0), 10⟩

def body : Str :=
  ("\x7b\"active_connections\":0,\"cpu_usage\":10.0,\"disk_io_usage\":0.0,\"load_average\":" ++
    "\x7b\"15min\":0.0,\"1min\":0.0,\"5min\":0.0\x7d,\"memory_usage\":50.0,\"network_usage\":-2.0," ++
    "\"response_time\":10.0\x7d").toList

/-- Numbers without their fraction, and null for what is no number. -/
def whole : Option ℚ → Json
  | some q => .int ⌊q⌋
  | none => .null

def reader : JsonCpp := .documented fun s => .ok (if s = body then some (statusJson whole readings) else none)

theorem asUInt64_int (n : Int) : (∃ k, Json.asUInt64 (.int n) = .ok k) ↔ 0 ≤ n ∧ n < 2 ^ 64 := by
  rw [Json.asUInt64]
  split
  · next h => exact iff_of_true ⟨_, rfl⟩ h
  · next h => exact iff_of_false (fun ⟨k, hk⟩ => by cases hk) h

theorem asUInt64_whole {n : Int} (h : FitsLong n) :
    (∃ k, Json.asUInt64 (whole (some (kilobytes n))) = .ok k) ↔ 0 ≤ kilobytes n := by
  rw [whole, asUInt64_int, Int.floor_nonneg]
  refine and_iff_left_of_imp fun hnonneg => Int.floor_lt.mpr ?_
  have hle : kilobytes n ≤ n := kilobytes_le (kilobytes_nonneg_iff.mp hnonneg)
  have hlt : (n : ℚ) < ((2 ^ 64 : Int) : ℚ) := Int.cast_lt.mpr (by
    have hmax := h.2
    rw [Stream.longMax] at hmax
    omega)
  exact hle.trans_lt hlt

theorem reader_asUInt64 : reader.asUInt64 = Json.asUInt64 := rfl

theorem wire_whole : Wire reader whole where
  index _ _ := rfl
  rate _ hn := asUInt64_whole hn
  count n hn := by
    have hlt : (n : Int) < 2 ^ 64 := by omega
    rw [reader_asUInt64]
    exact (asUInt64_int n).mpr ⟨Int.natCast_nonneg n, hlt⟩
  asDouble _ := ⟨_, rfl⟩
  asFloat _ := ⟨_, rfl⟩

theorem handleStatus_files : ∃ u, handleStatus files before = some (readings, u) ∧ u.net = ⟨2048, 0⟩ := by
  have h : (handleStatus files before).map (fun x => (x.1, x.2.net)) = some (readings, ⟨2048, 0⟩) := by
    decide +kernel
  obtain ⟨⟨r, u⟩, hx, he⟩ := Option.map_eq_some_iff.mp h
  obtain ⟨rfl, hnet⟩ := Prod.mk.inj he
  exact ⟨u, hx, hnet⟩

theorem parse_body : reader.parse body = .ok (some (statusJson whole readings)) := by
  simp only [reader, JsonCpp.documented, if_true]

/-- A probe that is answered. -/
theorem step_probe {J : JsonCpp} {s : Feed} {t m : Nat} {f : HostFiles} {body : Str} {r : Readings}
    {u : HostStatics} {sys : Sys} (hf : handleStatus f (s.hosts m) = some (r, u))
    (hs : s.sys.step (.call t (.probe m (updateStatus J (some ⟨200, body⟩)))) = some sys) :
    s.step J (.probe t m (some (f, body))) = some ⟨sys, Function.update s.hosts m u⟩ := by
  rw [step, hf, Option.bind_eq_bind, Option.bind_some, hs]
  rfl

end Feed

end OJ.Server
