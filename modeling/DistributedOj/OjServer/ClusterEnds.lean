import DistributedOj.OjServer.ClusterAnswers
import DistributedOj.OjServer.UpDown

/-!
# The whole system ends

Where the machines in `up` answer what is posted to them and the others lose it
(`Serves`), every run is bounded: a step of the calls of `Judge` lowers their
fuel, a POST is made for a call that waits for none, and a call of `Start` has
a bounded number of steps (`Cluster.left`). As long as something is left to do
some step can be taken (`Live.progress`). So in the end every call has returned,
every machine has its files back, and if an up machine was online at first each
call has the verdict on its text (`Cluster.all_settled`).
-/

namespace OJ.Server

open OJ.Comm OJ.Framework OJ.CompileServer PathUtil

/-- A POST that no machine has taken is worth more than a call of `Start`. -/
def Stage.left : Stage → Nat
  | .sent => 25
  | .working _ | .answered _ => 0

/-- A bound on the steps left to the calls of `Start` of a machine. -/
def hostLeft (h : Host) : Nat := (h.2.map fun j => j.pc.left).sum

/-- A call that waits for no POST may make one. -/
def waits : Option Nat → Nat
  | none => 26
  | some _ => 0

namespace Cluster

/-- The machines in `up` answer every POST and the others lose every one, no
status throws, and no thread recovers machines. -/
def Serves (up : Nat → Bool) (s : Cluster) : ClusterEvent → Prop
  | .front e => UpDown up s.front e
  | .reply t => ∀ m, (s.front.calls[t]?.bind (·.pc.target)) = some m → up m = true
  | .drop t res => res = none ∧ ∀ m, (s.front.calls[t]?.bind (·.pc.target)) = some m → up m = false
  | _ => True

/-- Every step of `Start` succeeds, and the machines are up or down. -/
def Steady (J : JsonReader) (up : Nat → Bool) (fs : Nat → Fs) (s : Cluster) (e : ClusterEvent) : Prop :=
  Smooth J fs s e ∧ Serves up s e

/-- Every machine always has a base name left. -/
def Roomy (fs : Nat → Fs) : Prop :=
  ∀ (m : Nat) (used : List Str), ∃ name, BaseName name ∧ name ∉ used ∧ Absent (fs m) name

/-- What can be done is done: each call has returned, each POST has been taken,
and each call of `Start` has returned. -/
structure Finished (s : Cluster) : Prop where
  calls : s.front.Done
  posts : ∀ p ∈ s.posts, p.stage ≠ .sent
  jobs : ∀ m, ∀ j ∈ (s.hosts m).2, ∃ outJson, j.pc = .done outJson

/-- What a run of `n` machines keeps beside `Ok`. -/
structure Live (J : JsonReader) (T : Toolchain) (reqs : List Str) (fs : Nat → Fs) (up : Nat → Bool)
    (n : Nat) (s : Cluster) : Prop extends s.Ok J T reqs fs where
  good : s.front.Good (upDown up)
  noneThrew : s.front.NoneThrew
  machines : s.front.lb.machines.length = n
  targets : ∀ p ∈ s.posts, p.machine < n
  unused : ∀ m, n ≤ m → (s.hosts m).2 = []

variable {J : JsonReader} {T : Toolchain} {lb : LoadBalance} {reqs : List Str} {fs : Nat → Fs}
  {up : Nat → Bool} {n : Nat} {s s' : Cluster} {es : List ClusterEvent} {e : ClusterEvent}

theorem Live.start (hl : lb.Listed) (hm : lb.mtx = none) :
    (start lb reqs fs).Live J T reqs fs up lb.machines.length := by
  obtain ⟨hgood, hthrew⟩ := Sys.Good.start_upDown hl hm reqs up
  exact ⟨.start lb, hgood, hthrew, rfl, fun _ h => absurd h List.not_mem_nil, fun _ _ => rfl⟩

/-! ## What the calls of `Judge` see -/

theorem serves_reply {t m : Nat} {c : Call} {id : Int} {r : Response} (hc : Serves up s (.reply t))
    (hcall : s.front.calls[t]? = some c) (hpc : c.pc = .posting id m) (h200 : r.status = 200) :
    UpDown up s.front (.call t (.post m c.compileString (some r))) := by
  have hup : up m = true := hc m (by rw [hcall]; exact congrArg Pc.target hpc)
  exact ⟨(Outcome.of_ok h200).trans (upDown_eq_ok.mpr hup).symm, trivial⟩

theorem serves_drop {t m : Nat} {c : Call} {id : Int} {res : Option Response} (hc : Serves up s (.drop t res))
    (hcall : s.front.calls[t]? = some c) (hpc : c.pc = .posting id m) :
    UpDown up s.front (.call t (.post m c.compileString res)) := by
  obtain ⟨rfl, hdown⟩ := hc
  have hdown : up m = false := hdown m (by rw [hcall]; exact congrArg Pc.target hpc)
  exact ⟨(upDown_eq_noResponse.mpr hdown).symm, trivial⟩

theorem Ok.shows (h : s.Ok J T reqs fs) (hc : Serves up s e) (hstep : s.step J T e = some s') :
    Shows Sys.step (UpDown up) s.front s'.front := by
  cases step_cases hstep with
  | front _ hs => exact .inr ⟨_, hc, hs⟩
  | reply hcall hpc hi hp hr hs => exact .inr ⟨_, serves_reply hc hcall hpc (h.response hcall hi hp hr).1, hs⟩
  | drop hcall hpc _ hs => exact .inr ⟨_, serves_drop hc hcall hpc, hs⟩
  | _ => exact .inl rfl

theorem length_machines_step {s s' : Sys} {e : Event} (hs : s.step e = some s') :
    s'.lb.machines.length = s.lb.machines.length := by
  obtain ⟨t, a, c, lb', c', -, -, hcs, rfl⟩ | ⟨t, -, -, rfl⟩ := Sys.step_cases hs
  · exact hcs.length_machines
  · rfl

/-- A call posts to one of the machines. -/
theorem Live.target_lt (h : s.Live J T reqs fs up n) {t m : Nat} {c : Call} {id : Int}
    (hc : s.front.calls[t]? = some c) (hpc : c.pc = .posting id m) : m < n := by
  have hfits := h.good.fits t c hc
  rw [hpc] at hfits
  exact h.machines ▸ hfits.2

/-- Every step keeps `Live`. -/
theorem Live.step (h : s.Live J T reqs fs up n) (hreqs : ∀ text ∈ reqs, Readable J text)
    (hc : Serves up s e) (hstep : s.step J T e = some s') : s'.Live J T reqs fs up n := by
  have hok := h.toOk.step hreqs hstep
  obtain ⟨hgood, hthrew, hmachines⟩ : s'.front.Good (upDown up) ∧ s'.front.NoneThrew ∧
      s'.front.lb.machines.length = n := by
    obtain e | ⟨e, hup, hs⟩ := h.toOk.shows hc hstep
    · rw [e]
      exact ⟨h.good, h.noneThrew, h.machines⟩
    · exact ⟨h.good.step hup.1 hs, h.noneThrew.step hup.2 hs, (length_machines_step hs).trans h.machines⟩
  refine ⟨hok, hgood, hthrew, hmachines, fun p hp => ?_, fun m hm => ?_⟩
  · cases step_cases hstep with
    | @send t m c id hcall hpc _ =>
      rcases List.mem_append.mp hp with hp | hp
      · exact h.targets p hp
      · rw [List.mem_singleton.mp hp]
        exact h.target_lt hcall hpc
    | answer hq | start hq =>
      rcases List.mem_or_eq_of_mem_set hp with hp | rfl
      · exact h.targets p hp
      · have hlt := h.targets _ (List.mem_of_getElem? hq)
        exact hlt
    | front | work | reply | drop => exact h.targets p hp
  · cases step_cases hstep with
    | @start i name o p j hp _ _ =>
      have hne : m ≠ p.machine := (Nat.lt_of_lt_of_le (h.targets p (List.mem_of_getElem? hp)) hm).ne'
      dsimp only
      rw [Function.update_of_ne hne]
      exact h.unused m hm
    | @work m' k host hw =>
      by_cases hmm : m = m'
      · subst hmm
        obtain ⟨j, j', hj, -⟩ := Host.work_cases hw
        rw [h.unused m hm] at hj
        cases hj
      · dsimp only
        rw [Function.update_of_ne hmm]
        exact h.unused m hm
    | front | send | answer | reply | drop => exact h.unused m hm

/-! ## What is left to do -/

/-- A bound on the steps left, of `N` calls and `n` machines. -/
def left (N n : Nat) (s : Cluster) : Nat :=
  27 * s.front.fuel + ∑ t ∈ Finset.range N, waits (s.flights t) +
    (s.posts.map fun p => p.stage.left).sum + ∑ m ∈ Finset.range n, hostLeft (s.hosts m)

theorem left_returned {N t : Nat} {front : Sys} (ht : t < N) (hfuel : front.fuel < s.front.fuel) :
    left N n { s with front := front, flights := Function.update s.flights t none } < left N n s := by
  have hsum := sum_update_add (g := s.flights) waits ht none
  have hle : waits none = 26 := rfl
  simp only [left]
  omega

theorem Live.left_lt (h : s.Live J T reqs fs up n) (hc : Serves up s e) (hstep : s.step J T e = some s') :
    left reqs.length n s' < left reqs.length n s := by
  have call_lt {t : Nat} {c : Call} (hcall : s.front.calls[t]? = some c) : t < reqs.length :=
    (List.getElem?_eq_some_iff.mp (h.toOk.text hcall)).1
  cases step_cases hstep with
  | front _ hs =>
    have hfuel := h.good.fuel_lt hc.1 hs
    simp only [left]
    omega
  | @send t m c id hcall hpc hf =>
    have hsum := sum_update_add (g := s.flights) waits (call_lt hcall) (some s.posts.length)
    have hwaits : waits (s.flights t) = 26 := congrArg waits hf
    have hsome : waits (some s.posts.length) = 0 := rfl
    have hsent : Stage.sent.left = 25 := rfl
    simp only [left, List.map_append, List.map_singleton, List.sum_append, List.sum_singleton]
    omega
  | @answer i name o p r hp hstage _ =>
    have hsum := sum_map_set_add (f := fun p : Post => p.stage.left) (y := { p with stage := .answered r }) hp
    have hsent : p.stage.left = 25 := congrArg Stage.left hstage
    have hdone : Stage.left (Post.stage { p with stage := .answered r }) = 0 := rfl
    simp only [left]
    omega
  | @start i name o p j hp hstage hr =>
    have hsum := sum_map_set_add (f := fun p : Post => p.stage.left)
      (y := { p with stage := .working (s.hosts p.machine).2.length }) hp
    have hsent : p.stage.left = 25 := congrArg Stage.left hstage
    have hdone : Stage.left (Post.stage { p with stage := .working (s.hosts p.machine).2.length }) = 0 := rfl
    have hhosts := sum_update_add (g := s.hosts) hostLeft (h.targets p (List.mem_of_getElem? hp))
      ((s.hosts p.machine).1, (s.hosts p.machine).2 ++ [j])
    have harrive : hostLeft ((s.hosts p.machine).1, (s.hosts p.machine).2 ++ [j]) =
        hostLeft (s.hosts p.machine) + 24 := by
      rw [hostLeft, List.map_append, List.sum_append, List.map_singleton, begin_of_receive hr]
      rfl
    simp only [left]
    omega
  | @work m k host hw =>
    obtain ⟨j, j', hj, -, hlt, e⟩ := Host.work_cases hw
    have hm : m < n := by
      by_contra hm
      rw [h.unused m (Nat.le_of_not_lt hm)] at hj
      cases hj
    have hhosts := sum_update_add (g := s.hosts) hostLeft hm host
    have hhost : hostLeft host < hostLeft (s.hosts m) := by
      rw [hostLeft, e]
      exact sum_map_set_lt hj (fun _ _ => Nat.le_refl _) hlt
    simp only [left]
    omega
  | reply hcall hpc hi hp hr hs =>
    have hup := serves_reply hc hcall hpc (h.toOk.response hcall hi hp hr).1
    exact left_returned (call_lt hcall) (h.good.fuel_lt hup.1 hs)
  | drop hcall hpc _ hs => exact left_returned (call_lt hcall) (h.good.fuel_lt (serves_drop hc hcall hpc).1 hs)

/-! ## Progress -/

theorem works_exists (sub : Submission) : ∃ o : Outcomes, o.Works sub :=
  ⟨⟨some sub.code.length, some sub.input.length, true, true, true, true, true, true, true, true, true, true, true, []⟩,
    decide_eq_true (Nat.le_refl _), decide_eq_true (Nat.le_refl _), rfl, rfl, rfl, rfl, rfl, rfl⟩

/-- A POST can be taken. -/
theorem Live.takes (h : s.Live J T reqs fs up n) (hreqs : ∀ text ∈ reqs, Readable J text) (hroom : Roomy fs)
    {i : Nat} {p : Post} (hp : s.posts[i]? = some p) (hstage : p.stage = .sent) :
    ∃ e s', Steady J up fs s e ∧ s.step J T e = some s' := by
  obtain ⟨h0, sub, hsub, -⟩ := hreqs p.body
    (List.mem_of_getElem? (h.posts p (List.mem_of_getElem? hp)).text)
  obtain ⟨name, hname, hused, habsent⟩ := hroom p.machine ((s.hosts p.machine).2.map Job.name)
  obtain ⟨o, ho⟩ := works_exists sub
  have hr : receive J p.body name o = .started ⟨sub, name, o, .begin⟩ := receive_of_ok h0 hsub
  refine ⟨.receive i name o, _, ⟨⟨⟨hname, fun q hq => ?_⟩, fun q j hq hj => ?_⟩, trivial⟩,
    step_of (.start hp hstage hr)⟩
  · obtain rfl : q = p := Option.some.inj (hq.symm.trans hp)
    exact hused
  · obtain rfl : q = p := Option.some.inj (hq.symm.trans hp)
    rw [hr] at hj
    cases hj
    exact ⟨ho, habsent⟩

/-- A call that waits for its POST can go on once the machines have done all
that was posted to them. -/
theorem Live.answers (h : s.Live J T reqs fs up n) (hposts : ∀ p ∈ s.posts, p.stage ≠ .sent)
    (hjobs : ∀ m, ∀ j ∈ (s.hosts m).2, ∃ outJson, j.pc = .done outJson) {t m : Nat} {c : Call} {id : Int}
    (hc : s.front.calls[t]? = some c) (hpc : c.pc = .posting id m) :
    ∃ e s', Steady J up fs s e ∧ s.step J T e = some s' := by
  have htarget : s.front.calls[t]?.bind (·.pc.target) = some m := by
    rw [hc]
    exact congrArg Pc.target hpc
  cases hup : up m with
  | false =>
    have hserves : Serves up s (.drop t none) :=
      ⟨rfl, fun m' hm' => by rw [htarget] at hm'; cases hm'; exact hup⟩
    exact ⟨.drop t none, _, ⟨⟨trivial, trivial⟩, hserves⟩,
      step_of (.drop hc hpc rfl (Sys.step_call hc (.postLost hpc)))⟩
  | true =>
    cases hi : s.flights t with
    | none => exact ⟨.send t, _, ⟨⟨trivial, trivial⟩, trivial⟩, step_of (.send hc hpc hi)⟩
    | some i =>
      obtain ⟨p, -, -, hp, -, -, -⟩ := h.flying t i hi
      have hmem := List.mem_of_getElem? hp
      cases hstage : p.stage with
      | sent => exact absurd hstage (hposts p hmem)
      | answered r => exact absurd hstage ((h.posts p hmem).unanswered r)
      | working k =>
        obtain ⟨j, hj, -⟩ := (h.posts p hmem).working k hstage
        obtain ⟨outJson, hd⟩ := hjobs p.machine j (List.mem_of_getElem? hj)
        have hr : p.response s.hosts = some ⟨200, outJson⟩ := by
          simp only [Post.response, hstage, hj, hd, Option.bind_eq_bind, Option.bind_some]
        have hserves : Serves up s (.reply t) :=
          fun m' hm' => by rw [htarget] at hm'; cases hm'; exact hup
        exact ⟨.reply t, _, ⟨⟨trivial, trivial⟩, hserves⟩,
          step_of (.reply hc hpc hi hp hr (Sys.step_call hc (.postOk hpc rfl)))⟩

/-- As long as something is left to do, some step can be taken. -/
theorem Live.progress (h : s.Live J T reqs fs up n) (hreqs : ∀ text ∈ reqs, Readable J text) (hroom : Roomy fs)
    (hf : ¬ s.Finished) : ∃ e s', Steady J up fs s e ∧ s.step J T e = some s' := by
  by_cases hposts : ∀ p ∈ s.posts, p.stage ≠ .sent
  swap
  · simp only [not_forall, not_not] at hposts
    obtain ⟨p, hp, hstage⟩ := hposts
    obtain ⟨i, hp⟩ := List.mem_iff_getElem?.mp hp
    exact h.takes hreqs hroom hp hstage
  by_cases hjobs : ∀ m, ∀ j ∈ (s.hosts m).2, ∃ outJson, j.pc = .done outJson
  swap
  · simp only [not_forall] at hjobs
    obtain ⟨m, j, hj, hd⟩ := hjobs
    obtain ⟨k, hk⟩ := List.mem_iff_getElem?.mp hj
    obtain ⟨x, hx⟩ := Option.ne_none_iff_exists'.mp fun hnone => hd ((Job.step_eq_none T).mp hnone)
    exact ⟨.work m k, _, ⟨⟨trivial, trivial⟩, trivial⟩, step_of (.work (sharedStep_eq hk hx))⟩
  obtain ⟨e, front, hup, hs⟩ := h.good.progress h.noneThrew (fun hd => hf ⟨hd, hposts, hjobs⟩) (upDown up)
  cases he : e.isPost with
  | false => exact ⟨.front e, _, ⟨⟨trivial, trivial⟩, hup⟩, step_of (.front he hs)⟩
  | true =>
    obtain ⟨t, a, c, lb', c', rfl, hc, hcs, -⟩ | ⟨t, rfl, -⟩ := Sys.step_cases hs
    · cases hcs with
      | postOk hpc | postBad hpc | postLost hpc => exact h.answers hposts hjobs hc hpc
      | _ => cases he
    · cases he

/-! ## The end -/

/-- What a request ends with: the verdict on its text, or nothing, which
happens only if no up machine was online at first. -/
def Settled (J : JsonReader) (T : Toolchain) (up : Nat → Bool) (lb : LoadBalance) (text : Str) (c : Call) : Prop :=
  (∃ sub, readSubmission J text = .ok sub ∧ c.outJson = some (T.write (verdict T sub).outValue)) ∨
    (c.outJson = none ∧ ∀ m : Nat, up m = true → (m : Int) ∉ lb.online)

theorem settled (hT : T.Confined) (hl : lb.Listed) (hm : lb.mtx = none) (hreqs : ∀ text ∈ reqs, Readable J text)
    (h : Run (step J T) (Steady J up fs) (.start lb reqs fs) es s) (hdone : s.front.Done) {t : Nat} {text : Str}
    (ht : reqs[t]? = some text) : ∃ c : Call, s.front.calls[t]? = some c ∧ Settled J T up lb text c := by
  have hok := ok_of_run hreqs h
  obtain ⟨c, hc, htext⟩ : ∃ c, s.front.calls[t]? = some c ∧ c.compileString = text := by
    rw [← hok.texts, List.getElem?_map] at ht
    exact Option.map_eq_some_iff.mp ht
  obtain ⟨es', hfront⟩ := h.project_inv (f := Cluster.front) (D := UpDown up)
    (fun _ _ _ hs _ hstep => Ok.step hs hreqs hstep) (fun _ _ _ hs hc hstep => Ok.shows hs hc.2 hstep)
    (.start lb)
  have hgood := Sys.Good.start_upDown hl hm reqs up
  have htried := (Sys.Tried.begin hgood.1 fun _ => Sys.start_calls (t := t)).run_upDown hfront
  refine ⟨c, hc, ?_⟩
  obtain ⟨hnone, hoff⟩ | ⟨m, -, r, -, -, hout⟩ := htried.done hc (hdone c (List.mem_of_getElem? hc))
  · refine .inr ⟨hnone, fun m hup hon => ?_⟩
    have hstays := hgood.1.online_upDown hfront hup hon
    rw [hoff] at hstays
    cases hstays
  · obtain ⟨-, sub, hsub, -⟩ := hreqs text (List.mem_of_getElem? ht)
    refine .inl ⟨sub, hsub, ?_⟩
    rw [hout, answer_verdict hT hreqs (h.mono fun _ _ hc => hc.1) hc hout (htext ▸ hsub)]

/-- Every run of the whole system is bounded; and one that nothing can extend
has all calls returned, all POSTs executed, the machines' files as they were at
first, and the verdict on each text, if an up machine was online at first. The texts
can be read, base names are not used twice, their files are not there at first and
programs touch no files; and there is always a base name left. -/
theorem all_settled (hT : T.Confined) (hl : lb.Listed) (hm : lb.mtx = none)
    (hreqs : ∀ text ∈ reqs, Readable J text) (hroom : Roomy fs) :
    Ends (step J T) (Steady J up fs) (.start lb reqs fs) fun s => s.Finished ∧ (∀ m, (s.hosts m).1 = fs m) ∧
      ∀ (t : Nat) (text : Str), reqs[t]? = some text → ∃ c : Call, s.front.calls[t]? = some c ∧ Settled J T up lb text c := by
  have hends : Ends (step J T) (Steady J up fs) (.start lb reqs fs) Finished :=
    .of_measure (I := Live J T reqs fs up lb.machines.length) (left reqs.length lb.machines.length)
      (fun _ _ _ h hc hs => h.step hreqs hc.2 hs) (Live.start hl hm) (fun _ _ _ h hc hs => h.left_lt hc.2 hs)
      fun s h hstuck => by
        by_contra hf
        obtain ⟨e, s', hc, hs⟩ := h.progress hreqs hroom hf
        exact hstuck e s' hc hs
  refine ⟨hends.bound, fun es s h hstuck => ?_⟩
  have hfin := hends.last es s h hstuck
  refine ⟨hfin, fun m => funext fun p => ?_, fun t text ht => settled hT hl hm hreqs h hfin.calls ht⟩
  have hok := ok_of_run hreqs h
  have hproper := proper_of_run hreqs (fun _ _ hc => hc.1.1) h m
  have hsmooth : ∀ j ∈ (s.hosts m).2, j.outcomes.Works j.sub ∧ Absent (fs m) j.name :=
    jobs_of_run (fun _ _ hc => hc.1.2) h m
  by_contra hp
  obtain ⟨j, hj, -, hnot⟩ := (hok.hosts m).files hT hproper (fun j hj => (hsmooth j hj).2) hp
  obtain ⟨outJson, hd⟩ := hfin.jobs m j hj
  exact hnot outJson hd

end Cluster

/-- Names are left on a machine without files. -/
theorem Submitted.roomy : Cluster.Roomy fun _ _ => none := by
  intro m used
  have hinj : Function.Injective fun k : Nat => uniqName (toStringI k) 1 := fun k l e =>
    Int.ofNat.inj (uniqName_inj.mp e).1
  obtain ⟨_, ⟨k, rfl⟩, hk⟩ := (Set.infinite_range_of_injective hinj).exists_notMem_finite used.finite_toSet
  exact ⟨_, baseName_uniqName k 1, hk, fun _ _ => rfl⟩

/-- The call of the submission ends. -/
theorem Submitted.all_settled_one : ∃ B, ∀ es s, Run (Cluster.step json toolchain)
    (Cluster.Steady json (fun _ => true) fun _ _ => none)
    (.start LoadBalance.oneMachine [text] fun _ _ => none) es s → es.length ≤ B := by
  have h : Ends (Cluster.step json toolchain) (Cluster.Steady json (fun _ => true) fun _ _ => none)
      (.start LoadBalance.oneMachine [text] fun _ _ => none) _ :=
    Cluster.all_settled confined (LoadBalance.listed_new.loadConf _) (by decide) readable roomy
  exact h.bound

end OJ.Server
