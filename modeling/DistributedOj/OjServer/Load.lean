import DistributedOj.OjServer.JudgeInv
import DistributedOj.OjServer.Choice

/-!
# Loads and the calls in flight

A call of `Judge` counts itself in the load of its machine from `IncLoad` to
`DecLoad`, or to `OfflineMachine`, which clears the load instead. In between it
is in flight on the machine (`Sys.inFlight`). `CallStep.count` says what a step
does to the load of a machine and to the calls in flight on it. The load can
miss a call in flight, where the machine was taken offline or a status
overwrote the load meanwhile, and can count one that is gone:

* `DecLoad` finds a load of at least 1 while no call in flight is missed
  (`decLoad_pos`);
* an offline machine has load 0 once no call is in flight on it, while no call
  that was missed is answered and none that was counted is lost
  (`load_offline`).
-/

namespace OJ.Server

open OJ.Comm OJ.Framework LoadBalance

/-- Between `IncLoad` and `DecLoad` or `OfflineMachine` on machine `m`. -/
def Pc.inFlight (m : Nat) : Pc → Bool
  | .posting _ k | .answered _ k _ | .failed _ k => k == m
  | _ => false

/-- The number of calls in flight on machine `m`. -/
def Sys.inFlight (m : Nat) (s : Sys) : Nat := s.calls.countP fun c => c.pc.inFlight m

/-- What a step of call `c` does to machine `m`: whether the call was in flight
on it and whether it is, and the new load. -/
inductive Count (m : Nat) (lb : LoadBalance) (c : Call) : Act → Bool → Bool → UInt64 → Prop
  | inc {id : Int} : c.pc = .chosen id m → Count m lb c .tau false true (lb.load m + 1)
  | dec {id : Int} {retry : Bool} : c.pc = .answered id m retry →
      Count m lb c .tau true false (lb.load m - 1)
  | reset {id : Int} : c.pc = .failed id m → (m : Int) ∈ lb.online → Count m lb c .tau true false 0
  | late {id : Int} : c.pc = .failed id m → (m : Int) ∉ lb.online →
      Count m lb c .tau true false (lb.load m)
  | stored (load : UInt64) : Count m lb c (.probe m (.stored load)) false false load
  | same (a : Act) (b : Bool) : Count m lb c a b b (lb.load m)

theorem toNat_add_one {x : UInt64} (h : x.toNat + 1 < 2 ^ 64) : (x + 1).toNat = x.toNat + 1 := by
  rw [UInt64.toNat_add, UInt64.toNat_one, Nat.mod_eq_of_lt h]

theorem toNat_add_one_le (x : UInt64) : (x + 1).toNat ≤ x.toNat + 1 := by
  rw [UInt64.toNat_add, UInt64.toNat_one]
  exact Nat.mod_le _ _

theorem toNat_sub_one {x : UInt64} (h : 1 ≤ x.toNat) : (x - 1).toNat = x.toNat - 1 :=
  UInt64.toNat_sub_of_le x 1 (UInt64.le_iff_toNat_le.mpr h)

namespace LoadBalance

variable {lb : LoadBalance} {m : Nat}

theorem load_eq (hm : m < lb.machines.length) : lb.load m = lb.machines[m].load := by
  simp [load, hm]

theorem load_updateStatus (hm : m < lb.machines.length) (p : Probe) :
    (lb.modify m (·.updateStatus p)).load m =
      match p with
      | .stored load => load
      | _ => lb.load m := by
  rw [load_modify_self hm, load_eq hm]
  cases p <;> rfl

theorem load_incLoad (hm : m < lb.machines.length) :
    (lb.modify m Machine.incLoad).load m = lb.load m + 1 := by
  rw [load_modify_self hm, load_eq hm]
  rfl

theorem load_decLoad (hm : m < lb.machines.length) :
    (lb.modify m Machine.decLoad).load m = lb.load m - 1 := by
  rw [load_modify_self hm, load_eq hm]
  rfl

theorem load_takeOffline_self (hm : m < lb.machines.length) (h : (m : Int) ∈ lb.online) :
    (lb.takeOffline m).load m = 0 := by
  rw [takeOffline, if_pos h]
  exact load_modify_self hm Machine.resetLoad

theorem takeOffline_of_notMem {which : Int} (h : which ∉ lb.online) : lb.takeOffline which = lb :=
  if_neg h

theorem load_takeOffline_of_ne {k : Nat} (e : k ≠ m) : (lb.takeOffline k).load m = lb.load m := by
  by_cases h : (k : Int) ∈ lb.online
  · rw [takeOffline, if_pos h]
    exact load_modify_of_ne e Machine.resetLoad lb
  · rw [takeOffline_of_notMem h]

end LoadBalance

theorem CallStep.count {t : Nat} {lb lb' : LoadBalance} {c c' : Call} {a : Act}
    (h : CallStep t lb c a lb' c') (hl : lb.Listed) (hf : c.pc.Fits lb) (m : Nat) :
    Count m lb c a (c.pc.inFlight m) (c'.pc.inFlight m) (lb'.load m) := by
  cases h with
  | giveUp hpc | enter hpc | probeThrew hpc | first hpc | better hpc | worse hpc | leave hpc
  | shown hpc => rw [hpc]; exact .same _ false
  | @probe n i id p hpc hi hid hp =>
    rw [hpc]
    by_cases e : id.toNat = m
    · subst e
      rw [load_updateStatus (hl.mem_ids (List.mem_of_getElem? hid)).2]
      cases p with
      | failed => exact .same _ false
      | stored load => exact .stored load
      | threw => exact absurd rfl hp
    · rw [load_modify_of_ne e]
      exact .same _ false
  | @incLoad id k hpc =>
    rw [hpc] at hf ⊢
    show Count m lb c .tau false (k == m) _
    by_cases e : k = m
    · subst e
      rw [load_incLoad hf.2, beq_self_eq_true]
      exact .inc hpc
    · rw [load_modify_of_ne e, beq_false_of_ne e]
      exact .same _ false
  | postOk hpc | postBad hpc | postLost hpc => rw [hpc]; exact .same _ _
  | @decLoad id k retry hpc =>
    rw [hpc] at hf ⊢
    have after : (if retry then Pc.choose else .done).inFlight m = false := by cases retry <;> rfl
    show Count m lb c .tau (k == m) ((if retry then Pc.choose else .done).inFlight m) _
    rw [after]
    by_cases e : k = m
    · subst e
      rw [load_decLoad hf.2, beq_self_eq_true]
      exact .dec hpc
    · rw [load_modify_of_ne e, beq_false_of_ne e]
      exact .same _ false
  | @offline id k hpc hm =>
    rw [hpc] at hf ⊢
    obtain ⟨rfl, hk⟩ := hf
    show Count m lb c .tau (k == m) false _
    by_cases e : k = m
    · subst e
      rw [beq_self_eq_true]
      by_cases h : (k : Int) ∈ lb.online
      · rw [load_takeOffline_self hk h]
        exact .reset hpc h
      · rw [takeOffline_of_notMem h]
        exact .late hpc h
    · rw [load_takeOffline_of_ne e, beq_false_of_ne e]
      exact .same _ false

namespace Sys

/-- What a step does to machine `m`, for the system. -/
theorem inFlight_call {s : Sys} {t : Nat} {c : Call} (hc : s.calls[t]? = some c) (c' : Call)
    (lb' : LoadBalance) (m : Nat) :
    (Sys.mk lb' (s.calls.set t c')).inFlight m + (c.pc.inFlight m).toNat =
      s.inFlight m + (c'.pc.inFlight m).toNat :=
  countP_set_add hc

theorem inFlight_start (lb : LoadBalance) (reqs : List Str) (m : Nat) :
    (start lb reqs).inFlight m = 0 := by
  rw [inFlight, List.countP_eq_zero]
  intro c hc
  obtain ⟨t, hc⟩ := List.mem_iff_getElem?.mp hc
  rw [(start_calls hc).1]
  nofun

theorem inFlight_pos {s : Sys} {t : Nat} {c : Call} {m : Nat} (hc : s.calls[t]? = some c)
    (h : c.pc.inFlight m = true) : 0 < s.inFlight m :=
  List.countP_pos_iff.mpr ⟨c, List.mem_of_getElem? hc, h⟩

end Sys

/-! ## No call in flight is missed -/

/-- `IncLoad` does not overflow, and `OfflineMachine` clears the load for no
other call than its own. -/
def Pc.Counted (s : Sys) : Pc → Prop
  | .chosen _ m => (s.lb.load m).toNat + 1 < 2 ^ 64
  | .failed _ m => (m : Int) ∈ s.lb.online → s.inFlight m = 1
  | _ => True

/-- A step after which the load counts every call in flight that it counted: a
status stores at least their number. -/
def Counted (s : Sys) : Event → Prop
  | .call _ (.probe m (.stored load)) => s.inFlight m ≤ load.toNat
  | .call t .tau => ∀ c ∈ s.calls[t]?, c.pc.Counted s
  | _ => True

instance (s : Sys) (p : Pc) : Decidable (p.Counted s) :=
  match p with
  | .chosen .. => inferInstanceAs (Decidable (_ < _))
  | .failed .. => inferInstanceAs (Decidable (_ → _))
  | .choose | .probing .. | .scanning .. | .posting .. | .answered .. | .showing | .done
  | .threw => isTrue trivial

instance (s : Sys) (e : Event) : Decidable (Counted s e) :=
  match e with
  | .call _ (.probe _ (.stored _)) => inferInstanceAs (Decidable (_ ≤ _))
  | .call t .tau => inferInstanceAs (Decidable (∀ c ∈ s.calls[t]?, c.pc.Counted s))
  | .call _ (.probe _ .failed) | .call _ (.probe _ .threw) | .call _ (.post ..)
  | .recover _ => isTrue trivial

namespace Sys

/-- The load of every machine counts the calls in flight on it. -/
structure Covered (s : Sys) : Prop extends s.Ok where
  covered : ∀ m, s.inFlight m ≤ (s.lb.load m).toNat

theorem Covered.step {s s' : Sys} {e : Event} (h : s.Covered) (hC : Counted s e)
    (hs : s.step e = some s') : s'.Covered := by
  refine ⟨h.toOk.step hs, fun m => ?_⟩
  have hm := h.covered m
  obtain ⟨t, a, c, lb', c', rfl, hc, hcs, rfl⟩ | ⟨t, rfl, -, rfl⟩ := step_cases hs
  · have hn := inFlight_call hc c' lb' m
    show _ ≤ (lb'.load m).toNat
    have hcount := hcs.count h.listed (h.fits t c hc) m
    generalize c.pc.inFlight m = was, c'.pc.inFlight m = is, lb'.load m = load at *
    cases hcount with
    | inc hpc =>
      have hC : c.pc.Counted s := hC c hc
      rw [hpc] at hC
      rw [toNat_add_one hC]
      simp only [Bool.toNat_false, Bool.toNat_true] at hn
      omega
    | dec hpc =>
      simp only [Bool.toNat_false, Bool.toNat_true] at hn
      rw [toNat_sub_one (by omega)]
      omega
    | reset hpc ho =>
      have hC : c.pc.Counted s := hC c hc
      rw [hpc] at hC
      have := hC ho
      simp only [Bool.toNat_false, Bool.toNat_true] at hn
      omega
    | late hpc ho =>
      simp only [Bool.toNat_false, Bool.toNat_true] at hn
      omega
    | stored load =>
      have hC : s.inFlight m ≤ load.toNat := hC
      omega
    | same b => omega
  · exact hm

end Sys

/-- Along a run in which every status of a machine stores at least the number
of calls in flight on it, no call takes offline a machine on which another is
in flight, and no `IncLoad` overflows: every `DecLoad` finds a load of at
least 1. -/
theorem decLoad_pos {lb : LoadBalance} (hl : lb.Listed) (hm : lb.mtx = none) (reqs : List Str)
    {es : List Event} {s : Sys} (h : Run Sys.step Counted (.start lb reqs) es s) {t m : Nat}
    {id : Int} {retry : Bool} {c : Call} (hc : s.calls[t]? = some c)
    (hpc : c.pc = .answered id m retry) : 1 ≤ s.lb.load m := by
  have h₀ : (Sys.start lb reqs).Covered :=
    ⟨.start hl hm reqs, fun m => by rw [Sys.inFlight_start]; exact Nat.zero_le _⟩
  have hs : s.Covered := h.inv (fun _ _ _ h hC hs => h.step hC hs) h₀
  have hpos := Sys.inFlight_pos (m := m) hc (by rw [hpc]; exact beq_self_eq_true m)
  have := hs.covered m
  exact UInt64.le_iff_toNat_le.mpr (show 1 ≤ (s.lb.load m).toNat by omega)

/-- The steps of call `t` up to `IncLoad`, with one machine that gives no
status. -/
def pick (t : Nat) : List Event := [.tau, .probe 0 .failed, .tau, .tau, .tau].map (.call t)

/-- And up to its POST. -/
def reach (t : Nat) : List Event := pick t ++ [.call t .tau]

/-- Two calls are in flight on the machine. One is lost and takes it offline,
then the other is answered. -/
def overtaken : List Event :=
  reach 0 ++ reach 1 ++
    [.call 0 (.post 0 [] none), .call 0 .tau, .call 1 (.post 0 [] (some ⟨200, []⟩))]

theorem decLoad_wraps : ∃ s, Run Sys.step Free (.start oneMachine [[], []]) overtaken s ∧
    s.calls[1]?.map Call.pc = some (.answered 0 0 false) ∧ s.lb.load 0 = 0 ∧
    (s.step (.call 1 .tau)).map (fun s => (s.lb.load 0).toNat) = some (2 ^ 64 - 1) :=
  ⟨⟨⟨oneMachine.machines, [], [0], none⟩,
    [⟨[], .showing, none⟩, ⟨[], .answered 0 0 false, some []⟩]⟩, .of_replay (by decide), by decide⟩

theorem decLoad_pos_one : ∃ s c, Run Sys.step Counted (.start oneMachine [[]])
    (reach 0 ++ [.call 0 (.post 0 [] (some ⟨200, []⟩))]) s ∧
    s.calls[0]? = some c ∧ c.pc = .answered 0 0 false ∧ 1 ≤ s.lb.load 0 := by
  have h : Run Sys.step Counted (.start oneMachine [[]])
      (reach 0 ++ [.call 0 (.post 0 [] (some ⟨200, []⟩))])
      ⟨⟨[⟨"127.0.0.1".toList, 8181, 1⟩], [0], [], none⟩, [⟨[], .answered 0 0 false, some []⟩]⟩ :=
    .of_replay (by decide)
  exact ⟨_, ⟨[], .answered 0 0 false, some []⟩, h, rfl, rfl,
    decLoad_pos (t := 0) (c := ⟨[], .answered 0 0 false, some []⟩) (listed_new.loadConf _)
      (by decide) [[]] h rfl rfl⟩

/-! ## No call in flight is counted for good -/

/-- `DecLoad` on an offline machine finds a call counted, and `OfflineMachine`
on one that is offline already finds a call that is not. -/
def Pc.Balanced (s : Sys) : Pc → Prop
  | .answered _ m _ => (m : Int) ∈ s.lb.offline → s.lb.load m ≠ 0
  | .failed _ m => (m : Int) ∈ s.lb.offline → (s.lb.load m).toNat < s.inFlight m
  | _ => True

/-- A step after which an offline machine counts no call that is gone, where no
status succeeds. -/
def Balanced (s : Sys) : Event → Prop
  | .call _ (.probe _ p) => ∀ load, p ≠ .stored load
  | .call t .tau => ∀ c ∈ s.calls[t]?, c.pc.Balanced s
  | _ => True

instance (s : Sys) (p : Pc) : Decidable (p.Balanced s) :=
  match p with
  | .answered .. | .failed .. => inferInstanceAs (Decidable (_ → _))
  | .choose | .probing .. | .scanning .. | .chosen .. | .posting .. | .showing | .done
  | .threw => isTrue trivial

instance (s : Sys) (e : Event) : Decidable (Balanced s e) :=
  match e with
  | .call _ (.probe _ (.stored load)) => isFalse fun h => h load rfl
  | .call _ (.probe _ .failed) | .call _ (.probe _ .threw) => isTrue (by simp [Balanced])
  | .call t .tau => inferInstanceAs (Decidable (∀ c ∈ s.calls[t]?, c.pc.Balanced s))
  | .call _ (.post ..) | .recover _ => isTrue trivial

namespace Sys

/-- An offline machine has no higher load than calls in flight on it. -/
structure Bounded (s : Sys) : Prop extends s.Ok where
  bounded : ∀ m : Nat, (m : Int) ∈ s.lb.offline → (s.lb.load m).toNat ≤ s.inFlight m

theorem Bounded.step {s s' : Sys} {e : Event} (h : s.Bounded) (hC : Balanced s e)
    (hs : s.step e = some s') : s'.Bounded := by
  refine ⟨h.toOk.step hs, fun m hoff => ?_⟩
  obtain ⟨t, a, c, lb', c', rfl, hc, hcs, rfl⟩ | ⟨t, rfl, -, rfl⟩ := step_cases hs
  · have hn := inFlight_call hc c' lb' m
    show (lb'.load m).toNat ≤ _
    have hcount := hcs.count h.listed (h.fits t c hc) m
    obtain hoff | ⟨hon, ⟨k, hpc⟩, rfl⟩ := hcs.mem_offline hoff
    · have old := h.bounded m hoff
      generalize c.pc.inFlight m = was, c'.pc.inFlight m = is, lb'.load m = load at *
      cases hcount with
      | inc hpc =>
        have := toNat_add_one_le (s.lb.load m)
        simp only [Bool.toNat_false, Bool.toNat_true] at hn
        omega
      | dec hpc =>
        have hC : c.pc.Balanced s := hC c hc
        rw [hpc] at hC
        have : (s.lb.load m).toNat ≠ 0 := fun e => hC hoff (UInt64.toNat_inj.mp e)
        rw [toNat_sub_one (by omega)]
        simp only [Bool.toNat_false, Bool.toNat_true] at hn
        omega
      | reset => exact Nat.zero_le _
      | late hpc =>
        have hC : c.pc.Balanced s := hC c hc
        rw [hpc] at hC
        have := hC hoff
        simp only [Bool.toNat_false, Bool.toNat_true] at hn
        omega
      | stored load => exact absurd rfl (hC load)
      | same b => omega
    · have hf := h.fits t c hc
      rw [hpc] at hf
      obtain ⟨e, hk⟩ := hf
      obtain rfl : m = k := Int.ofNat.inj e
      rw [load_takeOffline_self hk hon]
      exact Nat.zero_le _
  · cases hoff

end Sys

/-- Along a run from a configuration file in which no status succeeds, every
`DecLoad` on an offline machine finds its load at least 1, and every
`OfflineMachine` on one finds its load below the number of calls in flight: a
machine that is offline with no call in flight on it has load 0, and so it has
when `OnlineMachine` puts it back. -/
theorem load_offline (file : Str) (reqs : List Str) {es : List Event} {s : Sys}
    (h : Run Sys.step Balanced (.start (new.loadConf (some file)).1 reqs) es s) {m : Nat}
    (hoff : (m : Int) ∈ s.lb.offline) (hidle : s.inFlight m = 0) :
    s.lb.load m = 0 ∧ ∀ t s', s.step (.recover t) = some s' →
      (m : Int) ∈ s'.lb.online ∧ s'.lb.load m = 0 := by
  have hl := listed_new.loadConf (some file)
  obtain ⟨ho, hm⟩ := loadConf_rest new (some file)
  have h₀ : (Sys.start (new.loadConf (some file)).1 reqs).Bounded := by
    refine ⟨.start hl hm reqs, fun m hm => ?_⟩
    rw [show (Sys.start (new.loadConf (some file)).1 reqs).lb.offline = [] from ho] at hm
    cases hm
  have hs : s.Bounded := h.inv (fun _ _ _ h hC hs => h.step hC hs) h₀
  have hle := hs.bounded m hoff
  have hload : s.lb.load m = 0 := UInt64.toNat_inj.mp (show (s.lb.load m).toNat = 0 by omega)
  refine ⟨hload, fun t s' hs' => ?_⟩
  obtain ⟨_, _, _, _, _, e, -⟩ | ⟨t, -, -, rfl⟩ := Sys.step_cases hs'
  · cases e
  · exact ⟨List.mem_append_right _ hoff, hload⟩

/-- Two calls have chosen the machine. One is lost and takes it offline, then
the other begins its request and is lost too. -/
def leaked : List Event :=
  pick 0 ++ pick 1 ++ [.call 0 .tau, .call 0 (.post 0 [] none), .call 0 .tau,
    .call 1 .tau, .call 1 (.post 0 [] none), .call 1 .tau]

theorem load_offline_leaks : ∃ s, Run Sys.step Free (.start oneMachine [[], []]) leaked s ∧
    0 ∈ s.lb.offline ∧ s.inFlight 0 = 0 ∧ s.lb.load 0 = 1 ∧
    (s.step (.recover 2)).map (fun s => (s.lb.online, s.lb.load 0)) = some ([0], 1) :=
  ⟨⟨⟨[⟨"127.0.0.1".toList, 8181, 1⟩], [], [0], none⟩,
    [⟨[], .showing, none⟩, ⟨[], .showing, none⟩]⟩, .of_replay (by decide), by decide⟩

theorem load_offline_one : ∃ s, Run Sys.step Balanced (.start oneMachine [[]])
    (reach 0 ++ [.call 0 (.post 0 [] none), .call 0 .tau]) s ∧ 0 ∈ s.lb.offline ∧
    s.lb.load 0 = 0 := by
  have h : Run Sys.step Balanced (.start oneMachine [[]])
      (reach 0 ++ [.call 0 (.post 0 [] none), .call 0 .tau])
      ⟨⟨oneMachine.machines, [], [0], none⟩, [⟨[], .showing, none⟩]⟩ := .of_replay (by decide)
  exact ⟨_, h, by decide, (load_offline _ [[]] h (m := 0) (by decide) (by decide)).1⟩

end OJ.Server
