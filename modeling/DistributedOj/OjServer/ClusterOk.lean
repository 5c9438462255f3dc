import DistributedOj.OjServer.Cluster
import DistributedOj.OjServer.Payload

/-!
# What holds in every state of the whole system

`Cluster.Ok`: every machine has run its calls of `Start` from its first files,
each POST carries the text of its call and is with a call of `Start` that has
read its submission from it, a call waits for a POST of its own, and an answer
that a call has is that of a call of `Start` which has returned. Every step
keeps it, where the texts can be read (`Cluster.Ok.step`). The calls of a machine
are `Host.Proper` where it takes each POST under a base name that it has not used
(`Cluster.Named`, `Cluster.proper_step`).
-/

namespace OJ.Server

open OJ.Comm OJ.Framework OJ.CompileServer

/-- A text from which `Start` reads a submission with code. -/
def Readable (J : JsonReader) (text : Str) : Prop :=
  text ≠ [] ∧ ∃ sub, readSubmission J text = .ok sub ∧ sub.code ≠ []

namespace CallStep

variable {t : Nat} {lb lb' : LoadBalance} {c c' : Call} {a : Act}

/-- The answer of a call is the body of a response. -/
theorem outJson (h : CallStep t lb c a lb' c') : c'.outJson = c.outJson ∨
    ∃ m r, a = .post m c.compileString (some r) ∧ r.status = 200 ∧ c'.outJson = some r.body := by
  cases h with
  | postOk hpc h200 => exact .inr ⟨_, _, rfl, h200, rfl⟩
  | _ => exact .inl rfl

/-- A call in `cli.Post` waits for its end. -/
theorem of_posting (h : CallStep t lb c a lb' c') {id : Int} {m : Nat} (hpc : c.pc = .posting id m) :
    ∃ res, a = .post m c.compileString res := by
  cases h with
  | postOk h | postBad h | postLost h =>
    rw [hpc] at h
    cases h
    exact ⟨_, rfl⟩
  | giveUp h | enter h | probeThrew h | probe h | first h | better h | worse h | leave h | incLoad h
  | decLoad h | offline h | shown h =>
    rw [hpc] at h
    cases h

end CallStep

/-! ## Machines take on calls and go on with them -/

/-- The calls of `Start` of each machine are still there, and those that have
returned as they were. -/
def Grows (hosts hosts' : Nat → Host) : Prop :=
  ∀ (m k : Nat) (j : Job), (hosts m).2[k]? = some j → ∃ j' : Job, (hosts' m).2[k]? = some j' ∧ j'.fresh = j.fresh ∧
    ∀ outJson, j.pc = .done outJson → j' = j

section
variable {T : Toolchain} {hosts : Nat → Host}

theorem Grows.arrive (m : Nat) (j : Job) :
    Grows hosts (Function.update hosts m ((hosts m).1, (hosts m).2 ++ [j])) := by
  intro m' k l hl
  refine ⟨l, ?_, rfl, fun _ _ => rfl⟩
  by_cases hm : m' = m
  · subst hm
    rw [Function.update_self]
    exact (List.getElem?_append_left (List.getElem?_eq_some_iff.mp hl).1).trans hl
  · rw [Function.update_of_ne hm, hl]

theorem Grows.work {m k : Nat} {h : Host} (hs : sharedStep (Job.step T) (hosts m) k = some h) :
    Grows hosts (Function.update hosts m h) := by
  intro m' k' l hl
  by_cases hm : m' = m
  · subst hm
    rw [Function.update_self]
    obtain ⟨j, j', hj, hfresh, hlt, e⟩ := Host.work_cases hs
    rw [e]
    by_cases hk : k' = k
    · subst hk
      obtain rfl : l = j := Option.some.inj (hl.symm.trans hj)
      refine ⟨j', getElem?_set_self_of_some hj, hfresh, fun outJson hd => ?_⟩
      rw [hd] at hlt
      exact absurd hlt (Nat.not_lt_zero _)
    · exact ⟨l, (getElem?_set_of_ne hk).trans hl, rfl, fun _ _ => rfl⟩
  · rw [Function.update_of_ne hm]
    exact ⟨l, hl, rfl, fun _ _ => rfl⟩

end

/-- A POST carries the text of its call, and the call of `Start` that it is with
has read it. -/
structure Post.Sound (J : JsonReader) (reqs : List Str) (hosts : Nat → Host) (p : Post) : Prop where
  text : reqs[p.call]? = some p.body
  working : ∀ k, p.stage = .working k →
    ∃ j, (hosts p.machine).2[k]? = some j ∧ readSubmission J p.body = .ok j.sub
  unanswered : ∀ r, p.stage ≠ .answered r

theorem Post.Sound.mono {J : JsonReader} {reqs : List Str} {hosts hosts' : Nat → Host} {p : Post}
    (h : p.Sound J reqs hosts) (hg : Grows hosts hosts') : p.Sound J reqs hosts' := by
  refine ⟨h.text, fun k hk => ?_, h.unanswered⟩
  obtain ⟨j, hj, hsub⟩ := h.working k hk
  obtain ⟨j', hj', hfresh, -⟩ := hg _ _ _ hj
  have hkeep : j'.fresh.sub = j.fresh.sub := congrArg Job.sub hfresh
  exact ⟨j', hj', hsub.trans (congrArg Except.ok hkeep.symm)⟩

/-- The answer that a call has is that of a call of `Start` on its text. -/
def Call.Answered (J : JsonReader) (hosts : Nat → Host) (c : Call) : Prop :=
  ∀ text, c.outJson = some text → ∃ m, ∃ j ∈ (hosts m).2,
    readSubmission J c.compileString = .ok j.sub ∧ j.pc = .done text

theorem Call.Answered.mono {J : JsonReader} {hosts hosts' : Nat → Host} {c : Call}
    (h : c.Answered J hosts) (hg : Grows hosts hosts') : c.Answered J hosts' := by
  intro text ht
  obtain ⟨m, j, hj, hsub, hd⟩ := h text ht
  obtain ⟨k, hk⟩ := List.mem_iff_getElem?.mp hj
  obtain ⟨j', hj', -, hdone⟩ := hg _ _ _ hk
  obtain rfl := hdone text hd
  exact ⟨m, j', List.mem_of_getElem? hj', hsub, hd⟩

namespace Cluster

/-- A machine takes a POST under a base name that it has not used, as
`UniqFileName` is meant to make them. -/
def Named (s : Cluster) : ClusterEvent → Prop
  | .receive i name _ =>
    BaseName name ∧ ∀ p, s.posts[i]? = some p → name ∉ (s.hosts p.machine).2.map Job.name
  | _ => True

structure Ok (J : JsonReader) (T : Toolchain) (reqs : List Str) (fs : Nat → Fs) (s : Cluster) : Prop where
  texts : s.front.calls.map Call.compileString = reqs
  hosts : ∀ m, Host.From T (fs m) (s.hosts m)
  posts : ∀ p ∈ s.posts, p.Sound J reqs s.hosts
  flying : ∀ t i, s.flights t = some i → ∃ p c id, s.posts[i]? = some p ∧ p.call = t ∧
    s.front.calls[t]? = some c ∧ c.pc = .posting id p.machine
  calls : ∀ c ∈ s.front.calls, c.Answered J s.hosts

variable {J : JsonReader} {T : Toolchain} {reqs : List Str} {fs : Nat → Fs} {s s' : Cluster}
  {e : ClusterEvent}

theorem Ok.start (lb : LoadBalance) : (start lb reqs fs).Ok J T reqs fs where
  texts := by simp [Cluster.start, Sys.start, Function.comp_def]
  hosts _ := .start
  posts _ h := absurd h List.not_mem_nil
  flying t i h := by cases h
  calls c hc text ht := by
    obtain ⟨t, hc⟩ := List.mem_iff_getElem?.mp hc
    rw [(Sys.start_calls hc).2] at ht
    cases ht

/-- The text of a call is one of `reqs`. -/
theorem Ok.text (h : s.Ok J T reqs fs) {t : Nat} {c : Call} (hc : s.front.calls[t]? = some c) :
    reqs[t]? = some c.compileString := by
  rw [← h.texts, List.getElem?_map, hc, Option.map_some]

/-- What a step of the calls of `Judge` keeps: its texts, and the answers, where
that of a response is known. -/
theorem Ok.front_calls (h : s.Ok J T reqs fs) {e : Event} {front : Sys} (hs : s.front.step e = some front)
    (hans : ∀ t m r c, e = .call t (.post m c.compileString (some r)) → s.front.calls[t]? = some c →
      r.status = 200 → ∃ m, ∃ j ∈ (s.hosts m).2, readSubmission J c.compileString = .ok j.sub ∧
        j.pc = .done r.body) :
    front.calls.map Call.compileString = reqs ∧ ∀ c ∈ front.calls, c.Answered J s.hosts := by
  obtain ⟨t, a, c, lb', c', rfl, hc, hcs, rfl⟩ | ⟨t, rfl, -, rfl⟩ := Sys.step_cases hs
  · obtain ⟨htext, -⟩ := hcs.compileString
    refine ⟨(map_set_of_eq hc htext).trans h.texts, fun d hd => ?_⟩
    rcases List.mem_or_eq_of_mem_set hd with hd | rfl
    · exact h.calls d hd
    · intro text ht
      rw [htext]
      obtain e | ⟨m, r, rfl, h200, e⟩ := hcs.outJson
      · exact h.calls c (List.mem_of_getElem? hc) text (e.symm.trans ht)
      · rw [ht] at e
        cases e
        exact hans t m r c rfl hc h200
  · exact ⟨h.texts, h.calls⟩

/-- A call that waits for a POST takes no other step. -/
theorem Ok.front_flying (h : s.Ok J T reqs fs) {e : Event} {front : Sys}
    (hs : s.front.step e = some front) {t i : Nat} (hi : s.flights t = some i)
    (hne : ∀ m body res, e ≠ .call t (.post m body res)) :
    front.calls[t]? = s.front.calls[t]? := by
  obtain ⟨p, c, id, -, -, hc, hpc⟩ := h.flying t i hi
  obtain ⟨u, a, d, lb', d', rfl, hd, hds, rfl⟩ | ⟨u, rfl, -, rfl⟩ := Sys.step_cases hs
  · refine getElem?_set_of_ne fun e => ?_
    subst e
    obtain rfl : d = c := Option.some.inj (hd.symm.trans hc)
    obtain ⟨res, rfl⟩ := hds.of_posting hpc
    exact hne _ _ _ rfl
  · rfl

/-- A response that has come back is that of a call of `Start`. -/
theorem Ok.response (h : s.Ok J T reqs fs) {t i : Nat} {c : Call} {p : Post} {r : Response}
    (hc : s.front.calls[t]? = some c) (hi : s.flights t = some i) (hp : s.posts[i]? = some p)
    (hr : p.response s.hosts = some r) :
    r.status = 200 ∧ ∃ j ∈ (s.hosts p.machine).2, readSubmission J c.compileString = .ok j.sub ∧
      j.pc = .done r.body := by
  have hsound := h.posts p (List.mem_of_getElem? hp)
  have hbody : p.body = c.compileString := by
    obtain ⟨p', c', -, hp', rfl, hc', -⟩ := h.flying t i hi
    obtain rfl : p' = p := Option.some.inj (hp'.symm.trans hp)
    exact Option.some.inj (hsound.text.symm.trans (h.text hc))
  unfold Post.response at hr
  split at hr
  · cases hr
  · next hstage => exact absurd hstage (hsound.unanswered _)
  · next k hstage =>
    obtain ⟨j, hj, hsub⟩ := hsound.working k hstage
    simp only [hj, Option.bind_eq_bind, Option.bind_some] at hr
    split at hr
    · next hd =>
      cases hr
      exact ⟨rfl, j, List.mem_of_getElem? hj, hbody ▸ hsub, hd⟩
    · cases hr

/-- The end of a POST of call `t`. -/
theorem Ok.returned (h : s.Ok J T reqs fs) {t m : Nat} {c : Call} {res : Option Response} {front : Sys}
    (hc : s.front.calls[t]? = some c)
    (hs : s.front.step (.call t (.post m c.compileString res)) = some front)
    (hans : ∀ r, res = some r → r.status = 200 → ∃ m, ∃ j ∈ (s.hosts m).2,
      readSubmission J c.compileString = .ok j.sub ∧ j.pc = .done r.body) :
    Ok J T reqs fs { s with front := front, flights := Function.update s.flights t none } := by
  obtain ⟨htexts, hcalls⟩ := h.front_calls hs fun u m' r d he hd h200 => by
    simp only [Event.call.injEq, Act.post.injEq] at he
    obtain ⟨rfl, -, -, hr⟩ := he
    obtain rfl : d = c := Option.some.inj (hd.symm.trans hc)
    exact hans r hr h200
  refine ⟨htexts, h.hosts, h.posts, fun u i hu => ?_, hcalls⟩
  by_cases e : u = t
  · subst e
    simp only [Function.update_self] at hu
    cases hu
  · simp only [Function.update_of_ne e] at hu
    obtain ⟨p, d, id, hp, hpt, hd, hpc⟩ := h.flying u i hu
    refine ⟨p, d, id, hp, hpt, (h.front_flying hs hu fun m' body res' e' => ?_).trans hd, hpc⟩
    cases e'
    exact e rfl

/-- Every step keeps `Ok`. -/
theorem Ok.step (h : s.Ok J T reqs fs) (hreqs : ∀ text ∈ reqs, Readable J text)
    (hstep : s.step J T e = some s') : s'.Ok J T reqs fs := by
  cases step_cases hstep with
  | @front e front he hs =>
    have hpost (t m : Nat) (body : Str) (res : Option Response) : e ≠ .call t (.post m body res) :=
      fun e' => by rw [e'] at he; cases he
    obtain ⟨htexts, hcalls⟩ := h.front_calls hs fun _ _ _ _ he' => (hpost _ _ _ _ he').elim
    refine ⟨htexts, h.hosts, h.posts, fun t i hi => ?_, hcalls⟩
    obtain ⟨p, c, id, hp, hpt, hc, hpc⟩ := h.flying t i hi
    exact ⟨p, c, id, hp, hpt, (h.front_flying hs hi (hpost t)).trans hc, hpc⟩
  | @send t m c id hc hpc hf =>
    refine ⟨h.texts, h.hosts, fun p hp => ?_, fun u i hu => ?_, h.calls⟩
    · rcases List.mem_append.mp hp with hp | hp
      · exact h.posts p hp
      · rw [List.mem_singleton.mp hp]
        exact ⟨h.text hc, fun k hk => (by cases hk), fun r hr => (by cases hr)⟩
    · by_cases e : u = t
      · subst e
        simp only [Function.update_self] at hu
        cases hu
        exact ⟨_, c, id, List.getElem?_concat_length, rfl, hc, hpc⟩
      · simp only [Function.update_of_ne e] at hu
        obtain ⟨p, d, id', hp, hpt, hd, hdpc⟩ := h.flying u i hu
        exact ⟨p, d, id', (List.getElem?_append_left (List.getElem?_eq_some_iff.mp hp).1).trans hp, hpt, hd, hdpc⟩
  | @answer i name o p r hp hstage hr =>
    -- The handler does not answer a text that can be read itself.
    obtain ⟨h0, sub, hsub, -⟩ := hreqs p.body
      (List.mem_of_getElem? (h.posts p (List.mem_of_getElem? hp)).text)
    rw [receive_of_ok h0 hsub] at hr
    cases hr
  | @start i name o p j hp hstage hr =>
    have hsound := h.posts p (List.mem_of_getElem? hp)
    obtain ⟨h0, sub, hsub, -⟩ := hreqs p.body (List.mem_of_getElem? hsound.text)
    rw [receive_of_ok h0 hsub] at hr
    cases hr
    have hg : Grows s.hosts _ := Grows.arrive p.machine ⟨sub, name, o, .begin⟩
    refine ⟨h.texts, fun m => ?_, fun q hq => ?_, fun u i' hu => ?_, fun c hc => (h.calls c hc).mono hg⟩
    · by_cases e : m = p.machine
      · subst e
        dsimp only
        rw [Function.update_self]
        exact (h.hosts _).arrive rfl
      · dsimp only
        rw [Function.update_of_ne e]
        exact h.hosts m
    · rcases List.mem_or_eq_of_mem_set hq with hq | rfl
      · exact (h.posts q hq).mono hg
      · refine ⟨hsound.text, fun k hk => ?_, fun r hr => (by cases hr)⟩
        cases hk
        dsimp only
        rw [Function.update_self]
        exact ⟨_, List.getElem?_concat_length, hsub⟩
    · obtain ⟨q, c, id, hq, hqt, hc, hpc⟩ := h.flying u i' hu
      by_cases e : i' = i
      · subst e
        obtain rfl : q = p := Option.some.inj (hq.symm.trans hp)
        exact ⟨_, c, id, getElem?_set_self_of_some hp, hqt, hc, hpc⟩
      · exact ⟨q, c, id, (getElem?_set_of_ne e).trans hq, hqt, hc, hpc⟩
  | @work m k host hw =>
    have hg := Grows.work hw
    refine ⟨h.texts, fun m' => ?_, fun q hq => (h.posts q hq).mono hg, h.flying,
      fun c hc => (h.calls c hc).mono hg⟩
    · by_cases e : m' = m
      · subst e
        dsimp only
        rw [Function.update_self]
        exact (h.hosts m').work hw
      · dsimp only
        rw [Function.update_of_ne e]
        exact h.hosts m'
  | @reply t i id c p m r front hc hpc hi hp hr hs =>
    refine h.returned hc hs fun r' e _ => ?_
    cases e
    obtain ⟨-, hj⟩ := h.response hc hi hp hr
    exact ⟨_, hj⟩
  | @drop t id c m res front hc hpc hres hs =>
    refine h.returned hc hs fun r e h200 => ?_
    subst e
    rw [Option.all_some, decide_eq_true_eq] at hres
    exact absurd h200 hres

/-- The calls of each machine have code and different base names. -/
theorem proper_step (h : s.Ok J T reqs fs) (hp : ∀ m, (s.hosts m).Proper)
    (hreqs : ∀ text ∈ reqs, Readable J text) (hn : Named s e) (hstep : s.step J T e = some s') :
    ∀ m, (s'.hosts m).Proper := by
  intro m
  cases step_cases hstep with
  | @start i name o p j hpost hstage hr =>
    by_cases e : m = p.machine
    · subst e
      obtain ⟨h0, sub, hsub, hcode⟩ := hreqs p.body
        (List.mem_of_getElem? (h.posts p (List.mem_of_getElem? hpost)).text)
      rw [receive_of_ok h0 hsub] at hr
      cases hr
      dsimp only
      rw [Function.update_self]
      exact (hp _).arrive hcode hn.1 (hn.2 p hpost)
    · dsimp only
      rw [Function.update_of_ne e]
      exact hp m
  | @work m' k host hw =>
    by_cases e : m = m'
    · subst e
      dsimp only
      rw [Function.update_self]
      exact (hp m).of_fresh (Host.map_fresh_work hw)
    · dsimp only
      rw [Function.update_of_ne e]
      exact hp m
  | front | send | answer | reply | drop => exact hp m

theorem proper_start (lb : LoadBalance) (m : Nat) : ((start lb reqs fs).hosts m).Proper :=
  ⟨fun _ h => absurd h List.not_mem_nil, fun _ h => absurd h List.not_mem_nil, List.nodup_nil⟩

end Cluster

end OJ.Server
