import DistributedOj.OjServer.Choice
import DistributedOj.OjServer.RetryEnds

/-!
# After a status that cannot be read

`SmartChoice` probes the machines under the lock, and nothing gives the lock
back when `UpdateStatus` throws. From then on the dispatcher stands still
(`Sys.stands_still`): a call that has chosen its machine may still end, every
other one stays where it is, no machine goes offline or comes back, and no call
takes more than three steps.
-/

namespace OJ.Server

open OJ.Comm OJ.Framework

/-- The steps that a call can take without the lock. -/
def Pc.leeway : Pc → Nat
  | .chosen .. => 3
  | .posting .. => 2
  | .answered .. => 1
  | _ => 0

theorem Pc.leeway_le (p : Pc) : p.leeway ≤ 3 := by cases p <;> simp [leeway]

/-- A step of call `u`. -/
def Event.isOf (u : Nat) : Event → Bool
  | .call t _ => t = u
  | .recover _ => false

/-- What a call can do while another one holds the lock. -/
theorem CallStep.beside {t : Nat} {lb lb' : LoadBalance} {c c' : Call} {a : Act}
    (h : CallStep t lb c a lb' c') (hm : lb.mtx ≠ none) (hh : c.pc.holds = false) :
    lb'.roster = lb.roster ∧ lb'.mtx = lb.mtx ∧ c'.pc.leeway < c.pc.leeway := by
  cases h with
  | giveUp _ h0 | enter _ h0 | offline _ h0 | shown _ h0 => exact absurd h0 hm
  | probeThrew hpc | probe hpc | first hpc | better hpc | worse hpc | leave hpc =>
    rw [hpc] at hh
    cases hh
  | incLoad hpc => exact ⟨LoadBalance.roster_modify .., rfl, by rw [hpc]; simp [Pc.leeway]⟩
  | postOk hpc | postBad hpc | postLost hpc => exact ⟨rfl, rfl, by rw [hpc]; simp [Pc.leeway]⟩
  | @decLoad id m retry hpc =>
    refine ⟨LoadBalance.roster_modify .., rfl, ?_⟩
    rw [hpc]
    cases retry with
    | false => exact Nat.zero_lt_one
    | true => exact Nat.zero_lt_one

/-- Nothing goes on in a call that an exception has left. -/
theorem CallStep.not_threw {t : Nat} {lb lb' : LoadBalance} {c c' : Call} {a : Act}
    (h : CallStep t lb c a lb' c') : c.pc ≠ .threw := fun hthrew => by
  cases h with
  | giveUp hpc | enter hpc | probeThrew hpc | probe hpc | first hpc | better hpc | worse hpc | leave hpc
  | incLoad hpc | postOk hpc | postBad hpc | postLost hpc | decLoad hpc | offline hpc | shown hpc =>
    rw [hthrew] at hpc
    cases hpc

namespace Sys

/-- An exception has left `SmartChoice` in call `t`. -/
structure Stopped (t : Nat) (s : Sys) : Prop extends s.Ok where
  threw : ∃ c, s.calls[t]? = some c ∧ c.pc = .threw

/-- The steps that the calls can take without the lock. -/
def leeway (s : Sys) : Nat := (s.calls.map fun c => c.pc.leeway).sum

/-- Those of one call. -/
def leewayOf (u : Nat) (s : Sys) : Nat := (s.calls[u]?).elim 0 fun c => c.pc.leeway

theorem leewayOf_le (u : Nat) (s : Sys) : s.leewayOf u ≤ 3 := by
  rw [leewayOf]
  cases s.calls[u]? with
  | none => exact Nat.zero_le 3
  | some c => exact c.pc.leeway_le

/-- A state after which no call that needs the lock has gone on. -/
structure StandsStill (t : Nat) (s s' : Sys) : Prop where
  stopped : s'.Stopped t
  roster : s'.lb.roster = s.lb.roster
  calls : ∀ (u : Nat) (c : Call), s.calls[u]? = some c → c.pc.leeway = 0 → s'.calls[u]? = some c

variable {t : Nat} {s s' s₀ : Sys} {e : Event}

theorem Stopped.mtx (h : s.Stopped t) : s.lb.mtx = some t := by
  obtain ⟨c, hc, hpc⟩ := h.threw
  exact h.holds t c hc (by rw [hpc]; rfl)

/-- A step of the others. -/
theorem Stopped.step (h : s.Stopped t) (hs : s.step e = some s') :
    s'.Stopped t ∧ s'.lb.roster = s.lb.roster ∧ ∃ u a c c', e = .call u a ∧ s.calls[u]? = some c ∧
      c'.pc.leeway < c.pc.leeway ∧ s'.calls = s.calls.set u c' := by
  have hok := h.toOk.step hs
  have hmtx : s.lb.mtx ≠ none := by
    rw [h.mtx]
    exact Option.some_ne_none t
  obtain ⟨u, a, c, lb', c', rfl, hc, hcs, rfl⟩ | ⟨u, -, hm, -⟩ := step_cases hs
  · obtain ⟨d, hd, hdpc⟩ := h.threw
    have hut : u ≠ t := by
      rintro rfl
      obtain rfl : c = d := Option.some.inj (hc.symm.trans hd)
      exact hcs.not_threw hdpc
    have hholds : c.pc.holds = false := by
      by_contra hp
      have hu := h.holds u c hc (Bool.eq_true_of_not_eq_false hp)
      rw [h.mtx] at hu
      exact hut (Option.some.inj hu).symm
    obtain ⟨hroster, -, hlt⟩ := hcs.beside hmtx hholds
    exact ⟨⟨hok, d, (getElem?_set_of_ne (Ne.symm hut)).trans hd, hdpc⟩, hroster, u, a, c, c', rfl, hc, hlt, rfl⟩
  · exact absurd hm hmtx

theorem Stopped.leeway_lt (h : s.Stopped t) (hs : s.step e = some s') : s'.leeway < s.leeway := by
  obtain ⟨-, -, u, a, c, c', -, hc, hlt, e⟩ := h.step hs
  rw [leeway, leeway, e]
  exact sum_map_set_lt hc (fun _ _ => Nat.le_refl _) hlt

theorem Stopped.leewayOf_le (h : s.Stopped t) (hs : s.step e = some s') (u : Nat) :
    s'.leewayOf u + (e.isOf u).toNat ≤ s.leewayOf u := by
  obtain ⟨-, -, v, a, c, c', rfl, hc, hlt, hcalls⟩ := h.step hs
  rw [leewayOf, leewayOf, hcalls, Event.isOf]
  by_cases huv : v = u
  · subst huv
    rw [getElem?_set_self_of_some hc, hc, decide_eq_true rfl]
    exact hlt
  · rw [getElem?_set_of_ne (Ne.symm huv), decide_eq_false huv]
    exact le_rfl

/-- There are as many calls as requests. -/
theorem calls_length {lb : LoadBalance} {reqs : List Str} {es : List Event}
    (h : Run Sys.step Free (Sys.start lb reqs) es s) : s.calls.length = reqs.length := by
  refine h.inv (I := fun s => s.calls.length = reqs.length) (fun s e s' hs _ hstep => ?_) (List.length_map ..)
  obtain ⟨u, a, c, lb', c', rfl, -, -, rfl⟩ | ⟨u, rfl, -, rfl⟩ := step_cases hstep
  · exact (List.length_set ..).trans hs
  · exact hs

theorem StandsStill.step (h : StandsStill t s₀ s) (hs : s.step e = some s') : StandsStill t s₀ s' := by
  obtain ⟨hstopped, hroster, u, a, c, c', -, hc, hlt, hcalls⟩ := h.stopped.step hs
  refine ⟨hstopped, hroster.trans h.roster, fun v d hd h0 => ?_⟩
  rw [hcalls]
  have hv := h.calls v d hd h0
  by_cases e : v = u
  · subst e
    obtain rfl : d = c := Option.some.inj (hv.symm.trans hc)
    rw [h0] at hlt
    exact absurd hlt (Nat.not_lt_zero _)
  · exact (getElem?_set_of_ne e).trans hv

/-- A probe that throws stops the system. -/
theorem Ok.stopped {m : Nat} (h : s.Ok) (hs : s.step (.call t (.probe m .threw)) = some s') :
    s'.Stopped t ∧ s'.lb = s.lb := by
  have hok := h.step hs
  obtain ⟨u, a, c, lb', c', he, hc, hcs, rfl⟩ | ⟨u, he, -⟩ := step_cases hs
  · cases he
    cases hcs with
    | probeThrew => exact ⟨⟨hok, _, getElem?_set_self_of_some hc, rfl⟩, rfl⟩
    | probe _ _ _ hp => exact absurd rfl hp
  · cases he

/-- In any run: once a probe has met a status that `UpdateStatus` cannot read,
the lock is held for good by the call that made it, no machine goes offline or
is recovered, each call that needs the lock stays where it is, and every other one
takes at most three steps. -/
theorem stands_still {lb : LoadBalance} (hl : lb.Listed) (hm : lb.mtx = none) {reqs : List Str}
    {J : JsonCpp} {res : Option Response} (hres : Malformed J res) {es₁ es₂ : List Event} {s₁ s₂ s₃ : Sys} {m : Nat}
    (h₁ : Run Sys.step Free (Sys.start lb reqs) es₁ s₁)
    (hprobe : s₁.step (.call t (.probe m (updateStatus J res))) = some s₂)
    (h₂ : Run Sys.step Free s₂ es₂ s₃) :
    s₃.lb.mtx = some t ∧ s₃.lb.online = s₁.lb.online ∧ s₃.lb.offline = s₁.lb.offline ∧
    es₂.length ≤ 3 * reqs.length ∧ (∀ u, es₂.countP (Event.isOf u) ≤ 3) ∧ (∀ u, .recover u ∉ es₂) ∧
    ∀ (u : Nat) (c : Call), s₂.calls[u]? = some c → c.pc.leeway = 0 → s₃.calls[u]? = some c := by
  rw [(updateStatus_threw_iff J res).mpr hres] at hprobe
  have hok : s₁.Ok := h₁.inv (fun _ _ _ h _ hs => h.step hs) (.start hl hm reqs)
  obtain ⟨hstopped, hlb⟩ := hok.stopped hprobe
  have hstill : StandsStill t s₂ s₃ :=
    h₂.inv (fun _ _ _ h _ hs => h.step hs) ⟨hstopped, rfl, fun _ _ hc _ => hc⟩
  have hrun : Run Sys.step (fun s _ => s.Stopped t ∧ Free s _) s₂ es₂ s₃ :=
    h₂.with_inv (fun _ _ _ h _ hs => (h.step hs).1) hstopped
  have hlength : s₂.calls.length = reqs.length := calls_length (h₁.append (.single trivial hprobe))
  have hbound : s₂.leeway ≤ 3 * reqs.length := by
    rw [← hlength, leeway]
    refine (List.sum_le_card_nsmul _ 3 ?_).trans ?_
    · intro n hn
      obtain ⟨c, -, rfl⟩ := List.mem_map.mp hn
      exact c.pc.leeway_le
    · rw [List.length_map, smul_eq_mul, Nat.mul_comm]
  have hle := hrun.length_le leeway fun _ _ _ h hs => h.1.leeway_lt hs
  have hcount (u : Nat) := hrun.countP_le (leewayOf u) (Event.isOf u) fun _ _ _ h hs => h.1.leewayOf_le hs u
  refine ⟨hstill.stopped.mtx, ?_, ?_, by omega, fun u => ?_, fun u hu => ?_, hstill.calls⟩
  · rw [← hlb]
    exact congrArg Roster.active hstill.roster
  · rw [← hlb]
    exact congrArg Roster.away hstill.roster
  · have hle₂ := s₂.leewayOf_le u
    have := hcount u
    omega
  · obtain ⟨es, es', rfl⟩ := List.append_of_mem hu
    obtain ⟨s, -, h⟩ := hrun.split
    cases h with
    | cons hC hs _ =>
      obtain ⟨-, -, v, a, -, -, he, -⟩ := hC.1.step hs
      cases he

/-- Of two calls, the second has chosen its machine when the first meets a
status that it cannot read. -/
theorem stands_still_two : ∃ s₂ s₃ : Sys,
    Run Sys.step Free s₂ ([.tau, .post 0 [] (some ⟨200, "ok".toList⟩), .tau].map (.call 1)) s₃ ∧
      s₃.lb.mtx = some 0 ∧ s₃.calls.map Call.outJson = [none, some "ok".toList] := by
  have h₁ : Run Sys.step Free (Sys.start LoadBalance.oneMachine [[], []])
      (([.tau, .probe 0 .failed, .tau, .tau, .tau].map (.call 1)) ++ [.call 0 .tau])
      ⟨{ LoadBalance.oneMachine with mtx := some 0 }, [⟨[], .probing 1 0, none⟩, ⟨[], .chosen 0 0, none⟩]⟩ :=
    .of_replay (by decide)
  have h₂ : Run Sys.step Free
      ⟨{ LoadBalance.oneMachine with mtx := some 0 }, [⟨[], .threw, none⟩, ⟨[], .chosen 0 0, none⟩]⟩
      ([.tau, .post 0 [] (some ⟨200, "ok".toList⟩), .tau].map (.call 1))
      ⟨{ LoadBalance.oneMachine with mtx := some 0 }, [⟨[], .threw, none⟩, ⟨[], .done, some "ok".toList⟩]⟩ :=
    .of_replay (by decide)
  have hres : Malformed (.documented LoadBalance.parseStatus) (some ⟨200, "[]".toList⟩) :=
    ⟨_, rfl, rfl, .inr ⟨.arr [], rfl, .notObject, rfl⟩⟩
  obtain ⟨hmtx, -⟩ := stands_still (t := 0) (m := 0) (LoadBalance.listed_new.loadConf _) (by decide) hres h₁
    (by rw [(updateStatus_threw_iff _ _).mpr hres]; decide) h₂
  exact ⟨_, _, h₂, hmtx, rfl⟩

end Sys

end OJ.Server
