import DistributedOj.Framework.Threads
import DistributedOj.OjServer.Judge
import DistributedOj.OjServer.Lists

/-!
# What holds in every state of the calls of `Judge`

`Sys.Ok`: the lists are a permutation of the ids, the call that holds the lock
is the only one inside `SmartChoice`, its indices are within the online list,
and every call has in `*m` the machine of its `id`. Every step keeps it
(`Sys.Ok.step`). What a step changes is said once: the lists change only in
`OfflineMachine` and `OnlineMachine` (`CallStep.roster`).
-/

namespace OJ.Server

open OJ.Comm OJ.Framework

namespace Pc

/-- Whether a call here holds the lock; it keeps it where an exception has
left `SmartChoice`. -/
def holds : Pc → Bool
  | .probing .. | .scanning .. | .threw => true
  | _ => false

/-- What is true of the variables of a call here. -/
def Fits (lb : LoadBalance) : Pc → Prop
  | .probing n i => n = lb.online.length ∧ i ≤ n ∧ 0 < n
  | .scanning n i _ id m => n = lb.online.length ∧ i ≤ n ∧ id ∈ lb.online ∧ id.toNat = m
  | .chosen id m | .posting id m | .answered id m _ | .failed id m =>
    id = m ∧ m < lb.machines.length
  | _ => True

theorem Fits.congr {lb lb' : LoadBalance} {p : Pc} (h : p.Fits lb) (ho : lb'.online = lb.online)
    (hm : lb'.machines.length = lb.machines.length) : p.Fits lb' := by
  cases p <;> first | trivial | (simp only [Fits, ho, hm]; exact h)

theorem Fits.of_not_holds {lb lb' : LoadBalance} {p : Pc} (h : p.Fits lb) (hp : p.holds = false)
    (hm : lb'.machines.length = lb.machines.length) : p.Fits lb' := by
  cases p with
  | probing | scanning | threw => cases hp
  | choose | showing | done => trivial
  | chosen | posting | answered | failed => simp only [Fits, hm]; exact h

end Pc

open LoadBalance

namespace CallStep

variable {t : Nat} {lb lb' : LoadBalance} {c c' : Call} {a : Act}

/-- A call changes the lists in `OfflineMachine` only. -/
theorem roster (h : CallStep t lb c a lb' c') :
    lb'.roster = lb.roster ∨
      ∃ id m, c.pc = .failed id m ∧ lb.mtx = none ∧ lb' = lb.takeOffline id := by
  cases h with
  | offline hpc hm => exact .inr ⟨_, _, hpc, hm, rfl⟩
  | _ => exact .inl rfl

theorem online_sublist (h : CallStep t lb c a lb' c') : lb'.online.Sublist lb.online := by
  obtain e | ⟨id, m, -, -, rfl⟩ := h.roster
  · have e : lb'.online = lb.online := congrArg Roster.active e
    rw [e]
  · rw [online_takeOffline]
    exact List.erase_sublist

/-- A call takes offline the machine that it failed on, and no other. -/
theorem mem_online (h : CallStep t lb c a lb' c') {x : Int} (hx : x ∈ lb.online)
    (hc : ∀ m, c.pc ≠ .failed x m) : x ∈ lb'.online := by
  obtain e | ⟨id, m, hpc, -, rfl⟩ := h.roster
  · have e : lb'.online = lb.online := congrArg Roster.active e
    rwa [e]
  · rw [online_takeOffline]
    have hne : x ≠ id := fun e => hc m (by rw [e]; exact hpc)
    exact (List.mem_erase_of_ne hne).mpr hx

/-- What a call takes offline was online. -/
theorem mem_offline (h : CallStep t lb c a lb' c') {x : Int} (hx : x ∈ lb'.offline) :
    x ∈ lb.offline ∨ x ∈ lb.online ∧ (∃ m, c.pc = .failed x m) ∧ lb' = lb.takeOffline x := by
  obtain e | ⟨id, m, hpc, -, rfl⟩ := h.roster
  · have e : lb'.offline = lb.offline := congrArg Roster.away e
    exact .inl (e ▸ hx)
  · have e : (lb.takeOffline id).offline = (lb.roster.retire id).away :=
      congrArg Roster.away (roster_takeOffline id lb)
    rcases Roster.mem_away_retire (e ▸ hx) with hx | ⟨rfl, hid⟩
    · exact .inl hx
    · exact .inr ⟨hid, ⟨m, hpc⟩, rfl⟩

theorem length_machines (h : CallStep t lb c a lb' c') :
    lb'.machines.length = lb.machines.length := by
  cases h with
  | offline => exact length_machines_takeOffline ..
  | probe | incLoad | decLoad => exact length_machines_modify ..
  | _ => rfl

/-- A call outside `SmartChoice` may take a free lock, a call inside gives it
back or keeps it. -/
theorem mtx (h : CallStep t lb c a lb' c') :
    (lb'.mtx = lb.mtx ∧ c'.pc.holds = c.pc.holds) ∨
      (lb.mtx = none ∧ lb'.mtx = some t ∧ c'.pc.holds = true) ∨
      (c.pc.holds = true ∧ lb'.mtx = none ∧ c'.pc.holds = false) := by
  cases h with
  | enter hpc hm => exact .inr (.inl ⟨hm, rfl, rfl⟩)
  | leave hpc => exact .inr (.inr ⟨by rw [hpc]; rfl, rfl, rfl⟩)
  | giveUp hpc | probeThrew hpc | probe hpc | first hpc | better hpc | worse hpc | incLoad hpc
  | postOk hpc | postBad hpc | postLost hpc | shown hpc => exact .inl ⟨rfl, by rw [hpc]; rfl⟩
  | @decLoad _ _ retry hpc => exact .inl ⟨rfl, by cases retry <;> rw [hpc] <;> rfl⟩
  | offline hpc => exact .inl ⟨mtx_takeOffline .., by rw [hpc]; rfl⟩

theorem fits (h : CallStep t lb c a lb' c') (hl : lb.Listed) (hf : c.pc.Fits lb) :
    c'.pc.Fits lb' := by
  cases h with
  | giveUp | probeThrew | offline | shown => trivial
  | enter _ _ h0 => exact ⟨rfl, Nat.zero_le _, List.length_pos_of_ne_nil h0⟩
  | probe hpc hi =>
    rw [hpc] at hf
    exact ⟨hf.1, hi, hf.2.2⟩
  | first hpc hi hid =>
    rw [hpc] at hf
    exact ⟨hf.1, Nat.zero_le _, List.mem_of_getElem? hid, rfl⟩
  | better hpc hi hx =>
    rw [hpc] at hf
    exact ⟨hf.1, hi, List.mem_of_getElem? hx, rfl⟩
  | worse hpc hi hx =>
    rw [hpc] at hf
    exact ⟨hf.1, hi, hf.2.2⟩
  | leave hpc =>
    rw [hpc] at hf
    obtain ⟨-, -, hid, rfl⟩ := hf
    exact ⟨(Int.toNat_of_nonneg (hl.mem_ids hid).1).symm, (hl.mem_ids hid).2⟩
  | incLoad hpc =>
    rw [hpc] at hf
    exact ⟨hf.1, hf.2.trans_eq (length_machines_modify ..).symm⟩
  | postOk hpc | postBad hpc | postLost hpc => rw [hpc] at hf; exact hf
  | @decLoad _ _ retry => cases retry <;> trivial

end CallStep

namespace Sys

/-- The states of the system. -/
structure Ok (s : Sys) : Prop where
  listed : s.lb.Listed
  fits : ∀ (t : Nat) (c : Call), s.calls[t]? = some c → c.pc.Fits s.lb
  holds : ∀ (t : Nat) (c : Call), s.calls[t]? = some c → c.pc.holds = true → s.lb.mtx = some t
  holder : ∀ t : Nat, s.lb.mtx = some t → ∃ c : Call, s.calls[t]? = some c ∧ c.pc.holds = true

theorem Ok.start {lb : LoadBalance} (hl : lb.Listed) (hm : lb.mtx = none) (reqs : List Str) :
    (start lb reqs).Ok where
  listed := hl
  fits t c hc := by rw [(start_calls hc).1]; trivial
  holds t c hc hp := by rw [(start_calls hc).1] at hp; cases hp
  holder t ht := by simp [Sys.start, hm] at ht

/-- No call is inside `SmartChoice` while the lock is free. -/
theorem Ok.not_holds {s : Sys} (h : s.Ok) (hm : s.lb.mtx = none) {t : Nat} {c : Call}
    (hc : s.calls[t]? = some c) : c.pc.holds = false := by
  cases hp : c.pc.holds with
  | false => rfl
  | true =>
    have := h.holds t c hc hp
    rw [hm] at this
    cases this

theorem Ok.step_call {s : Sys} (h : s.Ok) {t : Nat} {a : Act} {c c' : Call} {lb' : LoadBalance}
    (hc : s.calls[t]? = some c) (hs : CallStep t s.lb c a lb' c') :
    Ok ⟨lb', s.calls.set t c'⟩ where
  listed := by
    obtain hr | ⟨id, m, -, -, rfl⟩ := hs.roster
    · exact h.listed.congr hr hs.length_machines
    · exact h.listed.takeOffline id
  fits u d h' := by
    obtain ⟨rfl, rfl⟩ | ⟨hu, hd⟩ := getElem?_set_cases h'
    · exact hs.fits h.listed (h.fits _ _ hc)
    · obtain hr | ⟨id, m, -, hm, rfl⟩ := hs.roster
      · exact (h.fits _ _ hd).congr (congrArg Roster.active hr) hs.length_machines
      · exact (h.fits _ _ hd).of_not_holds (h.not_holds hm hd) hs.length_machines
  holds u d h' hp := by
    obtain ⟨rfl, rfl⟩ | ⟨hu, hd⟩ := getElem?_set_cases h'
    · obtain ⟨e, e'⟩ | ⟨-, e, -⟩ | ⟨-, -, e⟩ := hs.mtx
      · exact e.trans (h.holds _ _ hc (e' ▸ hp))
      · exact e
      · rw [e] at hp; cases hp
    · have hu' := h.holds _ _ hd hp
      obtain ⟨e, -⟩ | ⟨e, -⟩ | ⟨e, -⟩ := hs.mtx
      · exact e.trans hu'
      · rw [e] at hu'; cases hu'
      · have := (h.holds _ _ hc e).symm.trans hu'
        cases this
        exact absurd rfl hu
  holder u hu := by
    obtain ⟨e, e'⟩ | ⟨-, e, e'⟩ | ⟨-, e, -⟩ := hs.mtx
    · obtain ⟨d, hd, hp⟩ := h.holder u (e.symm.trans hu)
      by_cases hut : u = t
      · subst hut
        cases hc.symm.trans hd
        exact ⟨c', getElem?_set_self_of_some hc, e'.trans hp⟩
      · exact ⟨d, (getElem?_set_of_ne hut).trans hd, hp⟩
    · cases e.symm.trans hu
      exact ⟨c', getElem?_set_self_of_some hc, e'⟩
    · cases e.symm.trans hu

theorem Ok.recover {s : Sys} (h : s.Ok) (hm : s.lb.mtx = none) :
    Ok { s with lb := s.lb.putOnline } where
  listed := h.listed.putOnline
  fits t c hc := (h.fits t c hc).of_not_holds (h.not_holds hm hc) rfl
  holds t c hc hp := by rw [h.not_holds hm hc] at hp; cases hp
  holder t ht := by rw [show s.lb.putOnline.mtx = s.lb.mtx from rfl, hm] at ht; cases ht

/-- Every step keeps `Ok`. -/
theorem Ok.step {s s' : Sys} {e : Event} (h : s.Ok) (hs : s.step e = some s') : s'.Ok := by
  obtain ⟨t, a, c, lb', c', -, hc, hcs, rfl⟩ | ⟨t, -, hm, rfl⟩ := step_cases hs
  · exact h.step_call hc hcs
  · exact h.recover hm

/-! ## A machine that responds stays online -/

/-- No call is about to take machine `m` offline. -/
structure Spares (m : Nat) (s : Sys) : Prop extends s.Ok where
  spared : ∀ (t : Nat) (c : Call), s.calls[t]? = some c → ∀ id, c.pc ≠ .failed id m

/-- A POST to machine `m` has a response, of whatever status. -/
def Responds (m : Nat) (_ : Sys) : Event → Prop
  | .call _ (.post k _ res) => k = m → res.isSome
  | _ => True

theorem Spares.start {lb : LoadBalance} (hl : lb.Listed) (hm : lb.mtx = none) (reqs : List Str)
    (m : Nat) : (Sys.start lb reqs).Spares m :=
  ⟨.start hl hm reqs, fun t c hc id => by rw [(start_calls hc).1]; nofun⟩

theorem Spares.step {m : Nat} {s s' : Sys} {e : Event} (h : s.Spares m) (hr : Responds m s e)
    (hs : s.step e = some s') : s'.Spares m := by
  have hok := h.toOk.step hs
  obtain ⟨t, a, c, lb', c', rfl, hc, hcs, rfl⟩ | ⟨t, -, hm, rfl⟩ := step_cases hs
  · refine ⟨hok, fun u d hd id hpd => ?_⟩
    obtain ⟨rfl, rfl⟩ | ⟨-, hd⟩ := getElem?_set_cases hd
    · cases hcs with
      | postLost hpc => cases hpd; exact absurd (hr rfl) (by decide)
      | @decLoad _ _ retry => cases retry <;> cases hpd
      | _ => cases hpd
    · exact h.spared u d hd id hpd
  · exact ⟨hok, h.spared⟩

theorem Spares.mem_online {m : Nat} {s s' : Sys} {e : Event} (h : s.Spares m)
    (hs : s.step e = some s') (ho : (m : Int) ∈ s.lb.online) : (m : Int) ∈ s'.lb.online := by
  obtain ⟨t, a, c, lb', c', -, hc, hcs, rfl⟩ | ⟨t, -, -, rfl⟩ := step_cases hs
  · refine hcs.mem_online ho fun k hpc => ?_
    have hf := h.fits t c hc
    rw [hpc] at hf
    have : m = k := Int.ofNat.inj hf.1
    exact h.spared t c hc m (this ▸ hpc)
  · exact List.mem_append_left _ ho

/-- A machine that responds to every POST is never taken offline. -/
theorem Spares.run {m : Nat} {s s' : Sys} {es : List Event} {C : Sys → Event → Prop}
    (hC : ∀ s e, C s e → Responds m s e) (h : s.Spares m) (hr : Run Sys.step C s es s') :
    s'.Spares m ∧ ((m : Int) ∈ s.lb.online → (m : Int) ∈ s'.lb.online) := by
  induction hr with
  | nil s => exact ⟨h, id⟩
  | cons hCs hs _ ih =>
    obtain ⟨h', ho⟩ := ih (h.step (hC _ _ hCs) hs)
    exact ⟨h', fun hm => ho (h.mem_online hs hm)⟩

end Sys

end OJ.Server
