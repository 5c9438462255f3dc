import DistributedOj.Comm.Text
import DistributedOj.Framework.Run
import DistributedOj.Framework.Threads

/-!
# Unique file names

`FileUtil::UniqFileName` (`util.hpp`) increments a counter of its process,
reads the clock, and then reads the counter once more: three steps, which the
calls of all threads and of all processes interleave (`Namer.step`). The name
is `ms_id`, and both parts can be read off it (`uniqName_inj`). So two names are
the same iff their calls read the same millisecond and their last reads see
the same number of increments (`names_distinct_iff`).
-/

namespace OJ.Comm

open OJ.Framework

/-- `struct timeval`. -/
structure Timeval where
  tvSec : Int
  tvUsec : Int
  deriving DecidableEq, Repr

def Timeval.ms (t : Timeval) : Int := t.tvSec * 1000 + t.tvUsec.tdiv 1000

/-- `TimeUtil::GetTimeMs`, from what `gettimeofday` stores. -/
def getTimeMs (t : Timeval) : Str := toStringI t.ms

/-- Where a call of `UniqFileName` is. -/
inductive NamePc where
  | start
  | incremented
  | timed (ms : Str)
  | returned (name : Str)
  deriving DecidableEq, Repr

/-- Whether a call here has incremented the counter. -/
def NamePc.begun : NamePc → Bool
  | .start => false
  | _ => true

/-- A call of `UniqFileName`, in some thread of a process. -/
structure NameCall where
  proc : Nat
  pc : NamePc
  deriving DecidableEq, Repr

inductive NameAct where
  | inc
  | clock (t : Timeval)
  | load
  deriving DecidableEq, Repr

def NameAct.isInc : NameAct → Bool
  | .inc => true
  | _ => false

/-- A step of call `t`. -/
abbrev NameEvent := Nat × NameAct

/-- `ms + "_" + uniq_id`. -/
def uniqName (ms : Str) (id : UInt32) : Str := ms ++ "_".toList ++ toStringU id.toNat

/-- The parts of a name can be read off it. -/
theorem uniqName_inj {x y : Int} {i j : UInt32} :
    uniqName (toStringI x) i = uniqName (toStringI y) j ↔ x = y ∧ i = j := by
  refine ⟨fun h => ?_, fun h => by rw [h.1, h.2]⟩
  rw [uniqName, uniqName, List.append_assoc, List.append_assoc] at h
  obtain ⟨hx, -, hi⟩ := (List.append_cons_inj_of_notMem (underscore_notMem_toStringI x)
    (underscore_notMem_toStringU i.toNat)).mp h
  exact ⟨toStringI_inj.mp hx, UInt32.toNat_inj.mp (toStringU_inj.mp hi)⟩

/-- The counter `id` of each process, and the calls. -/
structure Namer where
  ids : List UInt32
  calls : List NameCall
  deriving DecidableEq, Repr

namespace NameCall

/-- The next step of a call. -/
def step (ids : List UInt32) (c : NameCall) (a : NameAct) : Option (List UInt32 × NamePc) :=
  match c.pc, a with
  | .start, .inc => some (ids.modify c.proc (· + 1), .incremented)
  | .incremented, .clock t => some (ids, .timed (getTimeMs t))
  | .timed ms, .load => ids[c.proc]?.map fun id => (ids, .returned (uniqName ms id))
  | _, _ => none

end NameCall

namespace Namer

/-- `n` processes, and a call in each of the processes `procs`. -/
def start (n : Nat) (procs : List Nat) : Namer :=
  ⟨List.replicate n 0, procs.map (⟨·, .start⟩)⟩

def step (s : Namer) (e : NameEvent) : Option Namer := do
  let c ← s.calls[e.1]?
  let (ids, pc) ← c.step s.ids e.2
  return ⟨ids, s.calls.set e.1 { c with pc := pc }⟩

/-- The name that call `t` has returned. -/
def name (s : Namer) (t : Nat) : Option Str :=
  match s.calls[t]?.map NameCall.pc with
  | some (.returned name) => some name
  | _ => none

end Namer

/-! ## What a call has seen -/

/-- The millisecond that call `t` reads. -/
def clockOf (t : Nat) (es : List NameEvent) : Option Int :=
  es.findSome? fun
    | (u, .clock tv) => if u = t then some tv.ms else none
    | _ => none

/-- The increments in process `p`, where call `t` runs in `procs[t]`. -/
def incs (procs : List Nat) (p : Nat) (es : List NameEvent) : Nat :=
  es.countP fun e => e.2.isInc && procs[e.1]? == some p

/-- The increments in the process of call `t` before the last read of `t`. -/
def seen (procs : List Nat) (t : Nat) (es : List NameEvent) : Nat :=
  incs procs (procs.getD t 0) (es.takeWhile (· ≠ (t, .load)))

/-- What the events so far say of call `t`. -/
def NamePc.Traced (procs : List Nat) (t : Nat) (es : List NameEvent) : NamePc → Prop
  | .start | .incremented => (t, .load) ∉ es ∧ clockOf t es = none
  | .timed ms => (t, .load) ∉ es ∧ ∃ x, clockOf t es = some x ∧ ms = toStringI x
  | .returned name => (t, .load) ∈ es ∧
    ∃ x, clockOf t es = some x ∧ name = uniqName (toStringI x) (.ofNat (seen procs t es))

theorem clockOf_concat (t : Nat) (es : List NameEvent) (e : NameEvent) :
    clockOf t (es ++ [e]) = (clockOf t es).or (clockOf t [e]) := by
  rw [clockOf, List.findSome?_append]
  rfl

theorem clockOf_single_of_ne {t u : Nat} (h : u ≠ t) (a : NameAct) : clockOf t [(u, a)] = none := by
  cases a with
  | clock tv => exact (List.findSome?_cons_of_isNone (by simp [h])).trans rfl
  | _ => rfl

theorem seen_concat {procs : List Nat} {t : Nat} {es : List NameEvent} (h : (t, .load) ∈ es)
    (e : NameEvent) : seen procs t (es ++ [e]) = seen procs t es := by
  rw [seen, seen, List.takeWhile_append, if_neg]
  intro hl
  have he := (List.takeWhile_prefix _).eq_of_length hl
  have := List.mem_takeWhile_imp (he.symm ▸ h)
  simp at this

theorem seen_of_notMem {procs : List Nat} {t : Nat} {es : List NameEvent} (h : (t, .load) ∉ es) :
    seen procs t (es ++ [(t, .load)]) = incs procs (procs.getD t 0) es := by
  have hall : ∀ e ∈ es, decide (e ≠ (t, NameAct.load)) = true := fun e he =>
    decide_eq_true fun heq => h (heq ▸ he)
  rw [seen, List.takeWhile_append_of_pos hall, List.takeWhile_cons_of_neg (by simp), List.append_nil]

/-- A step of another call. -/
theorem NamePc.Traced.other {procs : List Nat} {t u : Nat} {es : List NameEvent} {pc : NamePc}
    (h : pc.Traced procs t es) (hu : u ≠ t) (a : NameAct) : pc.Traced procs t (es ++ [(u, a)]) := by
  have hc : clockOf t (es ++ [(u, a)]) = clockOf t es := by
    rw [clockOf_concat, clockOf_single_of_ne hu, Option.or_none]
  have hn : (t, .load) ∈ es ++ [(u, a)] ↔ (t, NameAct.load) ∈ es := by
    rw [List.mem_append, List.mem_singleton, or_iff_left]
    exact fun e => hu (congrArg Prod.fst e).symm
  cases pc with
  | start | incremented | timed => simpa only [Traced, hc, hn] using h
  | returned name =>
    obtain ⟨hm, h⟩ := h
    simpa only [Traced, hc, hn, seen_concat hm] using ⟨hm, h⟩

/-- What a step of a call does. -/
inductive NameStep (ids : List UInt32) (c : NameCall) : NameAct → List UInt32 → NamePc → Prop
  | inc : c.pc = .start → NameStep ids c .inc (ids.modify c.proc (· + 1)) .incremented
  | clock (t : Timeval) : c.pc = .incremented → NameStep ids c (.clock t) ids (.timed (getTimeMs t))
  | load {ms : Str} {id : UInt32} : c.pc = .timed ms → ids[c.proc]? = some id →
      NameStep ids c .load ids (.returned (uniqName ms id))

theorem Namer.step_cases {s s' : Namer} {e : NameEvent} (h : s.step e = some s') :
    ∃ c ids pc, s.calls[e.1]? = some c ∧ NameStep s.ids c e.2 ids pc ∧
      s' = ⟨ids, s.calls.set e.1 { c with pc := pc }⟩ := by
  obtain ⟨t, a⟩ := e
  simp only [step, Option.bind_eq_bind, Option.bind_eq_some_iff] at h
  obtain ⟨c, hc, ⟨ids, pc⟩, hs, h⟩ := h
  cases h
  refine ⟨c, ids, pc, hc, ?_, rfl⟩
  unfold NameCall.step at hs
  split at hs
  · next hpc => cases hs; exact .inc hpc
  · next tv hpc => cases hs; exact .clock tv hpc
  · next ms hpc =>
    obtain ⟨id, hid, hs⟩ := Option.map_eq_some_iff.mp hs
    cases hs
    exact .load hpc hid
  · cases hs

/-- The counters and the calls, after the events `es`. -/
structure Namer.Traced (procs : List Nat) (es : List NameEvent) (s : Namer) : Prop where
  procs_eq : s.calls.map NameCall.proc = procs
  ids : ∀ (p : Nat) (id : UInt32), s.ids[p]? = some id → id = .ofNat (incs procs p es)
  calls : ∀ (t : Nat) (c : NameCall), s.calls[t]? = some c → c.pc.Traced procs t es
  count : (es.countP fun e => e.2.isInc) = s.calls.countP fun c => c.pc.begun

theorem Namer.Traced.start (n : Nat) (procs : List Nat) : (Namer.start n procs).Traced procs [] where
  procs_eq := by simp [Namer.start, Function.comp_def]
  ids p id h := by
    simp only [Namer.start, List.getElem?_replicate] at h
    split at h
    · cases h; rfl
    · cases h
  calls t c h := by
    simp only [Namer.start, List.getElem?_map, Option.map_eq_some_iff] at h
    obtain ⟨_, -, rfl⟩ := h
    exact ⟨nofun, rfl⟩
  count := by
    rw [Namer.start, List.countP_map]
    exact (List.countP_eq_zero.mpr fun _ _ => Bool.false_ne_true).symm

theorem incs_concat (procs : List Nat) (p : Nat) (es : List NameEvent) (e : NameEvent) :
    incs procs p (es ++ [e]) =
      incs procs p es + if (e.2.isInc && procs[e.1]? == some p) = true then 1 else 0 := by
  simp only [incs, List.countP_append, List.countP_singleton]

namespace NameStep

variable {procs : List Nat} {t : Nat} {es : List NameEvent} {ids ids' : List UInt32} {c : NameCall}
  {a : NameAct} {pc : NamePc}

/-- The counters after a step of call `t`. -/
theorem ids_eq (h : NameStep ids c a ids' pc) (hproc : procs[t]? = some c.proc)
    (hids : ∀ (p : Nat) (id : UInt32), ids[p]? = some id → id = .ofNat (incs procs p es))
    (p : Nat) (id : UInt32) (hid : ids'[p]? = some id) :
    id = .ofNat (incs procs p (es ++ [(t, a)])) := by
  rw [incs_concat, hproc]
  cases h with
  | inc hpc =>
    rw [List.getElem?_modify] at hid
    obtain ⟨i, hi, rfl⟩ := Option.map_eq_some_iff.mp hid
    rw [hids p i hi]
    by_cases hp : c.proc = p
    · simp [hp, NameAct.isInc]
    · simp [hp]
  | clock | load => exact hids p id hid

/-- The call itself after its step. -/
theorem traced (h : NameStep ids c a ids' pc) (hproc : procs[t]? = some c.proc)
    (hids : ∀ (p : Nat) (id : UInt32), ids[p]? = some id → id = .ofNat (incs procs p es))
    (ht : c.pc.Traced procs t es) : pc.Traced procs t (es ++ [(t, a)]) := by
  have hnot {b : NameAct} (hb : b ≠ .load) (h : (t, NameAct.load) ∉ es) :
      (t, NameAct.load) ∉ es ++ [(t, b)] := by
    rw [List.mem_append, List.mem_singleton, not_or]
    exact ⟨h, fun e => hb (congrArg Prod.snd e).symm⟩
  cases h with
  | inc hpc =>
    rw [hpc] at ht
    exact ⟨hnot (by decide) ht.1, by rw [clockOf_concat, ht.2]; rfl⟩
  | clock tv hpc =>
    rw [hpc] at ht
    refine ⟨hnot (by simp) ht.1, tv.ms, ?_, rfl⟩
    rw [clockOf_concat, ht.2]
    simp [clockOf]
  | @load ms id hpc hid =>
    rw [hpc] at ht
    obtain ⟨hl, x, hx, rfl⟩ := ht
    refine ⟨List.mem_append_right _ (List.mem_singleton_self _), x, ?_, ?_⟩
    · rw [clockOf_concat, hx]; rfl
    · rw [seen_of_notMem hl, hids _ _ hid, List.getD_eq_getElem?_getD, hproc]; rfl

/-- An increment is what begins a call. -/
theorem begun (h : NameStep ids c a ids' pc) :
    c.pc.begun.toNat + (if a.isInc = true then 1 else 0) = pc.begun.toNat := by
  cases h with
  | inc hpc | clock _ hpc | load hpc => rw [hpc]; rfl

end NameStep

theorem Namer.Traced.step {procs : List Nat} {es : List NameEvent} {s s' : Namer} {e : NameEvent}
    (h : s.Traced procs es) (hs : s.step e = some s') : s'.Traced procs (es ++ [e]) := by
  obtain ⟨t, a⟩ := e
  obtain ⟨c, ids, pc, hc, hcs, rfl⟩ := step_cases hs
  have hproc : procs[t]? = some c.proc := by
    rw [← h.procs_eq, List.getElem?_map, hc]
    rfl
  constructor
  · exact (map_set_of_eq (y := { c with pc := pc }) hc rfl).trans h.procs_eq
  · exact hcs.ids_eq hproc h.ids
  · intro u d hd
    obtain ⟨rfl, rfl⟩ | ⟨hu, hd⟩ := getElem?_set_cases hd
    · exact hcs.traced hproc h.ids (h.calls u c hc)
    · exact (h.calls u d hd).other (Ne.symm hu) a
  · have hn : (s.calls.set t { c with pc := pc }).countP (fun c => c.pc.begun) + c.pc.begun.toNat =
        s.calls.countP (fun c => c.pc.begun) + pc.begun.toNat := countP_set_add hc
    have he := h.count
    have hb : c.pc.begun.toNat + (if a.isInc = true then 1 else 0) = pc.begun.toNat := hcs.begun
    rw [List.countP_append, List.countP_singleton]
    dsimp only
    omega

/-! ## Names -/

theorem Namer.Traced.seen_lt {procs : List Nat} {es : List NameEvent} {s : Namer}
    (h : s.Traced procs es) (hlt : procs.length < 2 ^ 32) (t : Nat) :
    seen procs t es < 2 ^ 32 := by
  have h₁ : seen procs t es ≤ incs procs (procs.getD t 0) es :=
    (List.takeWhile_prefix _).sublist.countP_le
  have h₂ : incs procs (procs.getD t 0) es ≤ es.countP fun e => e.2.isInc :=
    List.countP_mono_left fun e _ he => (Bool.and_eq_true_iff.mp he).1
  have h₃ : (s.calls.countP fun c => c.pc.begun) ≤ s.calls.length := List.countP_le_length
  have h₄ : s.calls.length = procs.length := by rw [← h.procs_eq, List.length_map]
  have := h.count
  omega

/-- The name that a call has returned. -/
theorem Namer.Traced.name {procs : List Nat} {es : List NameEvent} {s : Namer} {t : Nat} {a : Str}
    (h : s.Traced procs es) (ha : s.name t = some a) :
    ∃ x, clockOf t es = some x ∧ a = uniqName (toStringI x) (.ofNat (seen procs t es)) := by
  unfold Namer.name at ha
  split at ha
  · next hpc =>
    obtain ⟨c, hc, hpc⟩ := Option.map_eq_some_iff.mp hpc
    cases ha
    have := h.calls t c hc
    rw [hpc] at this
    exact this.2
  · cases ha

/-- While fewer than `2 ^ 32` calls are made, the names returned are pairwise
distinct iff any two calls that read the same millisecond see different
numbers of increments, each in its own process before its last read. -/
theorem names_distinct_iff {n : Nat} {procs : List Nat} (hlt : procs.length < 2 ^ 32)
    {es : List NameEvent} {s : Namer} (h : Run Namer.step Free (.start n procs) es s) :
    (∀ t u a b, t ≠ u → s.name t = some a → s.name u = some b → a ≠ b) ↔
      ∀ t u, t ≠ u → (s.name t).isSome → (s.name u).isSome → clockOf t es = clockOf u es →
        seen procs t es ≠ seen procs u es := by
  have ht : s.Traced procs es :=
    h.inv_trace (fun _ _ _ _ h _ hs => h.step hs) (.start n procs)
  constructor
  · intro hd t u htu hat hau hclock hseen
    obtain ⟨a, ha⟩ := Option.isSome_iff_exists.mp hat
    obtain ⟨b, hb⟩ := Option.isSome_iff_exists.mp hau
    obtain ⟨x, hx, rfl⟩ := ht.name ha
    obtain ⟨y, hy, rfl⟩ := ht.name hb
    rw [hx, hy] at hclock
    cases hclock
    exact hd t u _ _ htu ha hb (by rw [hseen])
  · intro hd t u a b htu ha hb hab
    obtain ⟨x, hx, rfl⟩ := ht.name ha
    obtain ⟨y, hy, rfl⟩ := ht.name hb
    obtain ⟨rfl, hseen⟩ := uniqName_inj.mp hab
    have hseen := congrArg UInt32.toNat hseen
    rw [UInt32.toNat_ofNat_of_lt' (ht.seen_lt hlt t), UInt32.toNat_ofNat_of_lt' (ht.seen_lt hlt u)] at hseen
    exact hd t u htu (by rw [ha]; rfl) (by rw [hb]; rfl) (hx.trans hy.symm) hseen

/-- Two threads of a process: both increment before either reads the counter
again. -/
def twoThreads : List NameEvent :=
  [(0, .inc), (1, .inc), (0, .clock ⟨1700000000, 5000⟩), (1, .clock ⟨1700000000, 5999⟩),
    (0, .load), (1, .load)]

/-- Two calls within a millisecond, one after the other. -/
def inTurn : List NameEvent :=
  [(0, .inc), (0, .clock ⟨1700000000, 5000⟩), (0, .load),
    (1, .inc), (1, .clock ⟨1700000000, 5999⟩), (1, .load)]

theorem names_collide :
    (∃ s, Run Namer.step Free (.start 1 [0, 0]) twoThreads s ∧
      s.name 0 = some "1700000000005_2".toList ∧ s.name 1 = some "1700000000005_2".toList) ∧
    ∃ s, Run Namer.step Free (.start 2 [0, 1]) inTurn s ∧
      s.name 0 = some "1700000000005_1".toList ∧ s.name 1 = some "1700000000005_1".toList := by
  refine ⟨⟨⟨[2], [⟨0, .returned "1700000000005_2".toList⟩, ⟨0, .returned "1700000000005_2".toList⟩]⟩,
    .of_replay (by decide), by decide, by decide⟩,
    ⟨[1, 1], [⟨0, .returned "1700000000005_1".toList⟩, ⟨1, .returned "1700000000005_1".toList⟩]⟩,
    .of_replay (by decide), by decide, by decide⟩

/-- In threads of one process, calls one after the other. -/
theorem names_distinct_two : ∃ s, Run Namer.step Free (.start 1 [0, 0]) inTurn s ∧
    ∀ t u a b, t ≠ u → s.name t = some a → s.name u = some b → a ≠ b := by
  have h : Run Namer.step Free (.start 1 [0, 0]) inTurn
      ⟨[2], [⟨0, .returned "1700000000005_1".toList⟩, ⟨0, .returned "1700000000005_2".toList⟩]⟩ :=
    .of_replay (by decide)
  refine ⟨_, h, (names_distinct_iff (by decide) h).mpr fun t u htu ht hu _ => ?_⟩
  match t, u with
  | 0, 0 | 1, 1 => exact absurd rfl htu
  | 0, 1 | 1, 0 => decide
  | t + 2, _ => cases ht
  | _, u + 2 => cases hu

end OJ.Comm
