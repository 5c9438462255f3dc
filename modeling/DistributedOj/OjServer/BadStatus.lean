import DistributedOj.OjServer.RetryEnds
import DistributedOj.OjServer.Solo

/-!
# Backends that answer with a bad status

After an answer of a bad status `Judge` goes back to `SmartChoice` with the
machine still online, and may find the same one (`Sys.again`). So a call posts
to each machine at most once, and its loop ends, iff no machine online answers
with a bad status (`eachOnce_iff`).
-/

namespace OJ.Server

open OJ.Comm OJ.Framework

variable {o : Nat → Outcome}

/-- What `Judge` is to do, from `s` on: a call that begins posts to each
machine at most once, and to no more than were online, and the calls end if no
status throws. -/
def EachOnce (o : Nat → Outcome) (s : Sys) : Prop :=
  (∀ es₁ s₁ es₂ s₂ t, Run Sys.step (Answers o) s es₁ s₁ →
    (∀ c, s₁.calls[t]? = some c → c.Fresh) → Run Sys.step (Answers o) s₁ es₂ s₂ →
    (posts t es₂).Nodup ∧ (posts t es₂).length ≤ s₁.lb.online.length) ∧
  Ends Sys.step (fun s e => Answers o s e ∧ NoThrow s e) s Sys.Done

namespace Sys

theorem Good.eachOnce {s : Sys} (h : s.Good o) (hn : s.NoneThrew) : EachOnce o s := by
  refine ⟨fun es₁ s₁ es₂ s₂ t h₁ hf h₂ => ?_, h.ends hn⟩
  have h₁ := h.run (fun _ _ ha => ha) h₁
  have ht : s₂.Tried o s₁.lb.online t es₂ :=
    h₂.inv_trace (I := fun es s => s.Tried o s₁.lb.online t es)
      (fun _ _ _ _ h ha hs => h.step ha hs) (.begin h₁ hf)
  exact ⟨ht.nodup, ht.length_posts_le⟩

/-- The lock is free, call `t` is before `SmartChoice`, and machine `k` is
online. -/
structure Ready (k t : Nat) (s : Sys) : Prop where
  listed : s.lb.Listed
  free : s.lb.mtx = none
  online : (k : Int) ∈ s.lb.online
  call : ∃ c, s.calls[t]? = some c ∧ c.pc = .choose

theorem posts_of_quiet {t : Nat} {x y : LoadBalance × Call} {as : List Act}
    (h : Call.Solo t x as y) : posts t (as.map (.call t)) = [] := by
  induction h with
  | nil => rfl
  | cons ha _ _ ih =>
    rw [List.map_cons, posts, List.filterMap_cons_none, ← posts, ih]
    revert ha
    cases ‹Act› with
    | post => exact False.elim
    | _ => exact fun _ => rfl

/-- A call that finds machine `k`, which answers with a bad status, posts to it
and is where it was. -/
theorem Ready.again {k t : Nat} {s : Sys} (h : s.Ready k t) (hk : o k = .badStatus) :
    ∃ es s', Run Sys.step (Answers o) s es s' ∧ posts t es = [k] ∧ s'.Ready k t := by
  obtain ⟨c, hc, hpc⟩ := h.call
  let w (x : Int) : UInt64 := if x = k then 0 else 1
  have hw : ∀ x ∈ s.lb.online, x ≠ k → w k < w x := fun x _ hx => by
    simp only [w, if_pos, if_neg hx]
    decide
  obtain ⟨lb, hs, hr, hn, hm⟩ := LoadBalance.smartChoice_least h.listed h.free t h.online hw
  obtain ⟨as, hsolo⟩ := LoadBalance.smartChoice_solo hpc hs
  -- the call is then alone on machine `k`
  let c₁ : Call := { c with pc := .posting k k }
  let c₂ : Call := { c with pc := .answered k k true }
  let lb₁ := lb.modify k Machine.incLoad
  have inc : CallStep t lb { c with pc := .chosen k k } .tau lb₁ c₁ := .incLoad rfl
  have bad : CallStep t lb₁ c₁ (.post k c.compileString (some ⟨500, []⟩)) lb₁ c₂ :=
    .postBad rfl (by decide)
  have dec : CallStep t lb₁ c₂ .tau (lb₁.modify k Machine.decLoad) { c with pc := .choose } :=
    .decLoad (show c₂.pc = .answered k k true from rfl)
  have hquiet : ∀ (x : LoadBalance × Call) a, a.Quiet → ∀ s, Answers o s (.call t a) := by
    intro _ a ha _
    cases a with
    | post => exact ha.elim
    | _ => trivial
  have hpost : Answers o s (.call t (.post k c.compileString (some ⟨500, []⟩))) :=
    (Outcome.of_badStatus (by decide)).trans hk.symm
  have run : Run (Call.solo t) (fun _ a => Answers o s (.call t a)) (s.lb, c)
      (as ++ [.tau, .post k c.compileString (some ⟨500, []⟩), .tau])
      (lb₁.modify k Machine.decLoad, { c with pc := .choose }) :=
    (hsolo.mono fun x a ha => hquiet x a ha s).append
      (.cons trivial inc.to_step (.cons hpost bad.to_step (.single trivial dec.to_step)))
  refine ⟨_, _, run_of_solo (fun _ _ ha _ => ha) run hc, ?_, ?_, ?_, ?_, ?_⟩
  · rw [List.map_append, posts, List.filterMap_append, ← posts, ← posts, posts_of_quiet hsolo]
    exact List.filterMap_cons_some (if_pos rfl)
  · refine h.listed.congr hr ?_
    rw [LoadBalance.length_machines_modify, LoadBalance.length_machines_modify, hn]
  · exact hm
  · have ho : lb.online = s.lb.online := congrArg Roster.active hr
    exact ho ▸ h.online
  · exact ⟨_, getElem?_set_self_of_some hc, rfl⟩

end Sys

/-- A call posts to each machine at most once, and its loop ends, iff no machine
online answers with a bad status. -/
theorem eachOnce_iff {lb : LoadBalance} (hl : lb.Listed) (hm : lb.mtx = none) {reqs : List Str}
    (hreqs : reqs ≠ []) (o : Nat → Outcome) :
    EachOnce o (.start lb reqs) ↔ ∀ m : Nat, (m : Int) ∈ lb.online → o m ≠ .badStatus := by
  constructor
  · intro h k hk hbad
    obtain ⟨req, rest, rfl⟩ := List.exists_cons_of_ne_nil hreqs
    have ready : (Sys.start lb (req :: rest)).Ready k 0 := ⟨hl, hm, hk, _, rfl, rfl⟩
    obtain ⟨es, s, hr, hp, ready⟩ := ready.again hbad
    obtain ⟨fs, s', hr', hp', -⟩ := ready.again hbad
    have hn := (h.1 [] _ (es ++ fs) s' 0 (.nil _) (fun _ => Sys.start_calls) (hr.append hr')).1
    rw [posts, List.filterMap_append, ← posts, ← posts, hp, hp'] at hn
    exact absurd hn (by simp)
  · intro h
    have clean : ∀ x ∈ lb.online, o x.toNat ≠ .badStatus := fun x hx =>
      h _ ((Int.toNat_of_nonneg (hl.mem_ids hx).1).symm ▸ hx)
    exact (Sys.Good.start hl hm clean reqs).eachOnce fun _ _ hc => by
      rw [(Sys.start_calls hc).1]
      simp

/-- Two rounds of a call with one machine, which answers with 500. -/
def twoRounds : List Event :=
  let round : List Act := [.tau, .probe 0 .failed, .tau, .tau, .tau, .tau,
    .post 0 [] (some ⟨500, []⟩), .tau]
  (round ++ round).map (.call 0)

theorem not_eachOnce_oneMachine : posts 0 twoRounds = [0, 0] ∧
    ¬ EachOnce (fun _ => .badStatus) (.start LoadBalance.oneMachine [[]]) := by
  refine ⟨by decide, fun h => ?_⟩
  have hr : Run Sys.step (Answers fun _ => .badStatus) (.start LoadBalance.oneMachine [[]]) twoRounds
      (.start LoadBalance.oneMachine [[]]) := .of_replay (by decide)
  have hn := (h.1 [] _ twoRounds _ 0 (.nil _) (fun _ => Sys.start_calls) hr).1
  exact absurd hn (by decide)

theorem eachOnce_oneMachine : EachOnce (fun _ => .noResponse) (.start LoadBalance.oneMachine [[]]) :=
  (eachOnce_iff (LoadBalance.listed_new.loadConf _) (by decide) (by decide) _).mpr
    fun _ _ => by decide

end OJ.Server
