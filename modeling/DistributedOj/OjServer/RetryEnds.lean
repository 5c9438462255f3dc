import DistributedOj.OjServer.Retry

/-!
# The loop of `Judge` ends

While no machine online answers with a bad status, every step of a call lowers
its fuel (`CallStep.fuel_lt`), and no step of another thread raises it
(`Pc.fuel_mono`): the way once around the loop is bounded by the number of
machines, and the loop goes around only after a machine has left the online
list. So every run is bounded, and where no status throws each call that is
not done can take a step (`Sys.Good.progress`): the calls end
(`Sys.Good.ends`).
-/

namespace OJ.Server

open OJ.Comm OJ.Framework

variable {o : Nat → Outcome}

/-- A bound on the steps once around the loop, for `N` machines. -/
def lap (N : Nat) : Nat := 2 * N + 7

/-- A bound on the steps left to a call, with the machines `L` online. -/
def Pc.fuel (N : Nat) (L : List Int) : Pc → Nat
  | .choose => lap N * L.length + 1
  | .probing n i => lap N * (n - 1) + 7 + n + (n - i)
  | .scanning n i _ _ _ => lap N * (n - 1) + 6 + (n - i)
  | .chosen id _ => lap N * (L.erase id).length + 5
  | .posting id _ => lap N * (L.erase id).length + 4
  | .failed id _ => lap N * (L.erase id).length + 3
  | .showing => lap N * L.length + 2
  | .answered .. => 1
  | .done | .threw => 0

theorem Pc.fuel_mono {L L' : List Int} (h : L'.Sublist L) (N : Nat) (p : Pc) :
    p.fuel N L' ≤ p.fuel N L := by
  have hl := Nat.mul_le_mul_left (lap N) h.length_le
  have he (id : Int) := Nat.mul_le_mul_left (lap N) (h.erase id).length_le
  cases p with
  | choose | showing => exact Nat.add_le_add_right hl _
  | chosen id | posting id | failed id => exact Nat.add_le_add_right (he id) _
  | _ => exact Nat.le_refl _

theorem lap_mul {n : Nat} (hn : 0 < n) (N : Nat) : lap N * n = lap N * (n - 1) + lap N := by
  rw [← Nat.mul_succ, Nat.succ_eq_add_one, Nat.sub_add_cancel hn]

theorem LoadBalance.Listed.length_le {lb : LoadBalance} (h : lb.Listed) :
    lb.online.length ≤ lb.machines.length := by
  have hp : (lb.online ++ lb.offline).length = (ids lb.machines.length).length := List.Perm.length_eq h
  rw [List.length_append, ids, List.length_map, List.length_range] at hp
  omega

theorem CallStep.fuel_lt {t : Nat} {lb lb' : LoadBalance} {c c' : Call} {a : Act}
    (h : CallStep t lb c a lb' c') (ha : a.Answers o) (hl : lb.Listed) (hf : c.pc.Fits lb)
    (hs : c.pc.Sound o) :
    c'.pc.fuel lb.machines.length lb'.online < c.pc.fuel lb.machines.length lb.online := by
  have hN := hl.length_le
  cases h with
  | giveUp hpc => rw [hpc]; exact Nat.succ_pos _
  | enter hpc _ h0 =>
    rw [hpc]
    simp only [Pc.fuel, lap_mul (List.length_pos_of_ne_nil h0)]
    simp only [lap]
    omega
  | probeThrew hpc hi => rw [hpc]; simp only [Pc.fuel]; omega
  | probe hpc hi => rw [hpc]; simp only [Pc.fuel]; omega
  | first hpc hi =>
    rw [hpc] at hf ⊢
    have := hf.2.1
    simp only [Pc.fuel]
    omega
  | better hpc hi | worse hpc hi => rw [hpc]; simp only [Pc.fuel]; omega
  | leave hpc hi =>
    rw [hpc] at hf ⊢
    obtain ⟨rfl, -, hid, rfl⟩ := hf
    simp only [Pc.fuel]
    rw [show lb.unlock.online = lb.online from rfl, List.length_erase_of_mem hid]
    omega
  | incLoad hpc => rw [hpc]; exact Nat.lt_succ_self _
  | postOk hpc => rw [hpc]; simp only [Pc.fuel]; omega
  | postBad hpc h200 =>
    rw [hpc] at hs
    exact absurd (ha.symm.trans (Outcome.of_badStatus h200)) hs
  | postLost hpc => rw [hpc]; exact Nat.lt_succ_self _
  | decLoad hpc =>
    rw [hpc] at hs ⊢
    obtain ⟨-, rfl⟩ := hs
    exact Nat.zero_lt_one
  | offline hpc => rw [hpc, LoadBalance.online_takeOffline]; exact Nat.lt_succ_self _
  | shown hpc => rw [hpc]; exact Nat.lt_succ_self _

namespace Sys

/-- A bound on the steps left to all calls. -/
def fuel (s : Sys) : Nat := (s.calls.map fun c => c.pc.fuel s.lb.machines.length s.lb.online).sum

theorem Good.fuel_lt {s s' : Sys} {e : Event} (h : s.Good o) (ha : Answers o s e)
    (hs : s.step e = some s') : s'.fuel < s.fuel := by
  obtain ⟨t, a, c, lb', c', rfl, hc, hcs, rfl⟩ | ⟨t, rfl, -, -⟩ := step_cases hs
  · rw [fuel, fuel, hcs.length_machines]
    exact sum_map_set_lt hc (fun d _ => d.pc.fuel_mono hcs.online_sublist _)
      (hcs.fuel_lt ha h.listed (h.fits t c hc) (h.sound t c hc))
  · exact ha.elim

theorem Good.run {s s' : Sys} {es : List Event} {C : Sys → Event → Prop}
    (hC : ∀ s e, C s e → Answers o s e) (h : s.Good o) (hr : Run Sys.step C s es s') : s'.Good o :=
  hr.inv (fun _ _ _ h hc hs => h.step (hC _ _ hc) hs) h

end Sys

/-! ## Progress -/

def Act.NoThrow : Act → Prop
  | .probe _ p => p ≠ .threw
  | _ => True

/-- No status throws. -/
def NoThrow (_ : Sys) : Event → Prop
  | .call _ a => a.NoThrow
  | .recover _ => True

instance (a : Act) : Decidable a.NoThrow :=
  match a with
  | .probe _ p => inferInstanceAs (Decidable (p ≠ .threw))
  | .tau | .post .. => isTrue trivial

instance (s : Sys) (e : Event) : Decidable (NoThrow s e) :=
  match e with
  | .call _ a => inferInstanceAs (Decidable a.NoThrow)
  | .recover _ => isTrue trivial

/-- What a backend that answers as `o` may answer. -/
def Outcome.answer : Outcome → Option Response
  | .ok => some ⟨200, []⟩
  | .badStatus => some ⟨500, []⟩
  | .noResponse => none

theorem Outcome.of_answer (x : Outcome) : of x.answer = x := by cases x <;> decide

/-- A call can take a step, of any backends, if it holds the lock or the lock
is free. -/
theorem CallStep.exists_step (o : Nat → Outcome) {t : Nat} {lb : LoadBalance} {c : Call}
    (hf : c.pc.Fits lb) (hm : c.pc.holds = true ∨ lb.mtx = none) (hd : c.pc ≠ .done)
    (ht : c.pc ≠ .threw) : ∃ a lb' c', CallStep t lb c a lb' c' ∧ a.Answers o ∧
      a.NoThrow := by
  have free (h : c.pc.holds = false) : lb.mtx = none := by
    rw [h] at hm
    simpa using hm
  cases hpc : c.pc with
  | choose =>
    have hm := free (by rw [hpc]; rfl)
    by_cases h0 : lb.online = []
    · exact ⟨_, _, _, .giveUp hpc hm h0, trivial, trivial⟩
    · exact ⟨_, _, _, .enter hpc hm h0, trivial, trivial⟩
  | probing n i =>
    rw [hpc] at hf
    obtain ⟨rfl, -, h0⟩ := hf
    by_cases hi : i < lb.online.length
    · exact ⟨_, _, _, .probe (p := .failed) hpc hi (List.getElem?_eq_getElem hi) nofun, trivial,
        nofun⟩
    · exact ⟨_, _, _, .first hpc (Nat.le_of_not_lt hi) (List.getElem?_eq_getElem h0), trivial, trivial⟩
  | scanning n i minLoad id m =>
    rw [hpc] at hf
    obtain ⟨rfl, -⟩ := hf
    by_cases hi : i < lb.online.length
    · by_cases hl : minLoad > lb.load lb.online[i].toNat
      · exact ⟨_, _, _, .better hpc hi (List.getElem?_eq_getElem hi) hl, trivial, trivial⟩
      · exact ⟨_, _, _, .worse hpc hi (List.getElem?_eq_getElem hi) hl, trivial, trivial⟩
    · exact ⟨_, _, _, .leave hpc (Nat.le_of_not_lt hi), trivial, trivial⟩
  | chosen id m => exact ⟨_, _, _, .incLoad hpc, trivial, trivial⟩
  | posting id m =>
    have ho := Outcome.of_answer (o m)
    cases hr : (o m).answer with
    | none => exact ⟨_, _, _, .postLost hpc, (hr ▸ ho :), trivial⟩
    | some r =>
      by_cases h200 : r.status = 200
      · exact ⟨_, _, _, .postOk hpc h200, (hr ▸ ho :), trivial⟩
      · exact ⟨_, _, _, .postBad hpc h200, (hr ▸ ho :), trivial⟩
  | answered id m retry => exact ⟨_, _, _, .decLoad hpc, trivial, trivial⟩
  | failed id m => exact ⟨_, _, _, .offline hpc (free (by rw [hpc]; rfl)), trivial, trivial⟩
  | showing => exact ⟨_, _, _, .shown hpc (free (by rw [hpc]; rfl)), trivial, trivial⟩
  | done => exact absurd hpc hd
  | threw => exact absurd hpc ht

namespace Sys

/-- No exception has left `SmartChoice`. -/
def NoneThrew (s : Sys) : Prop := ∀ (t : Nat) (c : Call), s.calls[t]? = some c → c.pc ≠ .threw

theorem NoneThrew.step {s s' : Sys} {e : Event} (h : s.NoneThrew) (hn : NoThrow s e)
    (hs : s.step e = some s') : s'.NoneThrew := by
  obtain ⟨t, a, c, lb', c', rfl, hc, hcs, rfl⟩ | ⟨t, rfl, -, rfl⟩ := step_cases hs
  · intro u d hd
    obtain ⟨rfl, rfl⟩ | ⟨-, hd⟩ := getElem?_set_cases hd
    · cases hcs with
      | probeThrew => exact absurd rfl hn
      | @decLoad _ _ retry => cases retry <;> nofun
      | _ => nofun
    · exact h u d hd
  · exact h

/-- The calls are all done. -/
def Done (s : Sys) : Prop := ∀ c ∈ s.calls, c.pc = .done

/-- Unless all calls are done, one of them can take a step: the one that holds
the lock, or any. -/
theorem Ok.progress {s : Sys} (h : s.Ok) (hn : s.NoneThrew) (hd : ¬ s.Done) (o : Nat → Outcome) :
    ∃ e s', (Answers o s e ∧ NoThrow s e) ∧ s.step e = some s' := by
  have go {t : Nat} {c : Call} (hc : s.calls[t]? = some c)
      (hm : c.pc.holds = true ∨ s.lb.mtx = none) (hpc : c.pc ≠ .done) :
      ∃ e s', (Answers o s e ∧ NoThrow s e) ∧ s.step e = some s' := by
    obtain ⟨a, lb', c', hcs, ha, ht⟩ := CallStep.exists_step o (h.fits t c hc) hm hpc (hn t c hc)
    exact ⟨.call t a, _, ⟨ha, ht⟩, Sys.step_call hc hcs⟩
  cases hm : s.lb.mtx with
  | none =>
    simp only [Done, not_forall] at hd
    obtain ⟨c, hc, hpc⟩ := hd
    obtain ⟨t, hc⟩ := List.mem_iff_getElem?.mp hc
    exact go hc (.inr hm) hpc
  | some t =>
    obtain ⟨c, hc, hp⟩ := h.holder t hm
    exact go hc (.inl hp) fun e => by rw [e] at hp; cases hp

/-- The calls end, in any order of steps. -/
theorem Good.ends {s : Sys} (h : s.Good o) (hn : s.NoneThrew) :
    Ends Sys.step (fun s e => Answers o s e ∧ NoThrow s e) s Done := by
  refine Ends.of_measure (I := fun s => s.Good o ∧ s.NoneThrew) fuel ?_ ⟨h, hn⟩ ?_ ?_
  · exact fun s e s' h hC hs => ⟨h.1.step hC.1 hs, h.2.step hC.2 hs⟩
  · exact fun s e s' h hC hs => h.1.fuel_lt hC.1 hs
  · intro s h hstuck
    by_contra hd
    obtain ⟨e, s', hC, hs⟩ := h.1.progress h.2 hd o
    exact hstuck e s' hC hs

end Sys

end OJ.Server
