import DistributedOj.CompileServer.LogBuffer
import DistributedOj.CompileServer.Verdict
import DistributedOj.Framework.Arrivals

/-!
# A compile server with requests that arrive

The handler of `/compile_and_run` (`receive`), and a compile server that takes
requests while others are at work (`Host`). Its calls of `Start` have different
base names (`Host.Proper`) and programs are confined; so each does what it does
alone, from the files that were there at first (`Host.From.alone`): it answers what
it answers alone (`Host.From.answer`), and what differs from those files belongs to
a call that has not returned (`Host.From.files`).
-/

namespace OJ.CompileServer

open OJ.Comm OJ.Framework PathUtil

/-- What the handler makes of a request: an answer, or a call of `Start`. -/
inductive Received where
  | answered (r : Response)
  | started (j : Job)

/-- The handler of `/compile_and_run`, where `UniqFileName` would return `name`.
An empty body is answered with nothing, and an exception with 500. -/
def receive (J : JsonReader) (inJson name : Str) (o : Outcomes) : Received :=
  if inJson = [] then .answered ⟨200, []⟩
  else match readSubmission J inJson with
    | .ok sub => .started ⟨sub, name, o, .begin⟩
    | .error _ => .answered ⟨500, []⟩

theorem receive_of_ok {J : JsonReader} {inJson name : Str} {o : Outcomes} {sub : Submission}
    (h0 : inJson ≠ []) (h : readSubmission J inJson = .ok sub) :
    receive J inJson name o = .started ⟨sub, name, o, .begin⟩ := by
  rw [receive, if_neg h0, h]

/-- A compile server: its files, and the calls of `Start` in its threads. -/
abbrev Host := Fs × List Job

namespace Job

variable (T : Toolchain)

/-- The call before its first step. -/
def fresh (j : Job) : Job := { j with pc := .begin }

theorem fresh_of_begin {j : Job} (h : j.pc = .begin) : j.fresh = j := by
  cases j
  cases h
  rfl

theorem fresh_step {j : Job} {x : StateM Fs Job} (h : j.step T = some x) (fs : Fs) :
    (x.run fs).1.fresh = j.fresh := by
  obtain ⟨-, rfl⟩ := step_cases T h
  rfl

end Job

namespace Host

variable {T : Toolchain} {fs : Fs} {h h' : Host}

/-- The host has run from the files `fs`, as if all its calls had been there. -/
def From (T : Toolchain) (fs : Fs) (h : Host) : Prop :=
  ∃ es, Run (sharedStep (Job.step T)) Free (fs, h.2.map Job.fresh) es h

/-- Calls with code, whose base names are different. -/
structure Proper (h : Host) : Prop where
  code : ∀ j ∈ h.2, j.sub.code ≠ []
  base : ∀ j ∈ h.2, BaseName j.name
  nodup : (h.2.map Job.name).Nodup

theorem From.start : From T fs (fs, []) := ⟨[], .nil _⟩

theorem work_cases {k : Nat} (hs : sharedStep (Job.step T) h k = some h') :
    ∃ j j', h.2[k]? = some j ∧ j'.fresh = j.fresh ∧ j'.pc.left < j.pc.left ∧ h'.2 = h.2.set k j' := by
  obtain ⟨j, x, hj, hx, rfl⟩ := sharedStep_cases hs
  exact ⟨j, (x.run h.1).1, hj, Job.fresh_step T hx h.1, Job.left_lt T hx h.1, rfl⟩

theorem map_fresh_work {k : Nat} (hs : sharedStep (Job.step T) h k = some h') :
    h'.2.map Job.fresh = h.2.map Job.fresh := by
  obtain ⟨j, j', hj, hfresh, -, e⟩ := work_cases hs
  rw [e, map_set_of_eq hj hfresh]

theorem From.work {k : Nat} (hf : From T fs h) (hs : sharedStep (Job.step T) h k = some h') :
    From T fs h' := by
  obtain ⟨es, hr⟩ := hf
  refine ⟨es ++ [k], ?_⟩
  rw [map_fresh_work hs]
  exact hr.append (.single trivial hs)

theorem From.arrive (hf : From T fs h) {j : Job} (hj : j.pc = .begin) :
    From T fs (h.1, h.2 ++ [j]) := by
  obtain ⟨es, hr⟩ := hf
  refine ⟨es, ?_⟩
  rw [List.map_append, List.map_singleton, Job.fresh_of_begin hj]
  exact hr.arrive j

/-- What is said of the calls by their submissions and names. -/
theorem Proper.of_fresh (hp : Proper h) (e : h'.2.map Job.fresh = h.2.map Job.fresh) : Proper h' := by
  have via {β : Type} (f : Job → β) (hf : ∀ j, f j.fresh = f j) : h'.2.map f = h.2.map f := by
    have hmap (l : List Job) : l.map f = (l.map Job.fresh).map f := by
      rw [List.map_map]
      exact List.map_congr_left fun j _ => (hf j).symm
    rw [hmap h'.2, e, ← hmap h.2]
  have hsub := via Job.sub fun _ => rfl
  have hname := via Job.name fun _ => rfl
  refine ⟨fun j hj => ?_, fun j hj => ?_, hname ▸ hp.nodup⟩
  · have hmem : j.sub ∈ h.2.map Job.sub := hsub ▸ List.mem_map_of_mem hj
    obtain ⟨k, hk, e⟩ := List.mem_map.mp hmem
    exact e ▸ hp.code k hk
  · have hmem : j.name ∈ h.2.map Job.name := hname ▸ List.mem_map_of_mem hj
    obtain ⟨k, hk, e⟩ := List.mem_map.mp hmem
    exact e ▸ hp.base k hk

theorem Proper.arrive (hp : Proper h) {j : Job} (hc : j.sub.code ≠ []) (hb : BaseName j.name)
    (hn : j.name ∉ h.2.map Job.name) : Proper (h.1, h.2 ++ [j]) := by
  refine ⟨fun k hk => ?_, fun k hk => ?_, ?_⟩
  · rcases List.mem_append.mp hk with hk | hk
    · exact hp.code k hk
    · exact List.mem_singleton.mp hk ▸ hc
  · rcases List.mem_append.mp hk with hk | hk
    · exact hp.base k hk
    · exact List.mem_singleton.mp hk ▸ hb
  · rw [List.map_append, List.map_singleton]
    exact List.nodup_append.mpr ⟨hp.nodup, List.nodup_singleton _,
      fun a ha b hb e => hn (by rw [List.mem_singleton.mp hb] at e; exact e ▸ ha)⟩

theorem Proper.begins (hp : Proper h) {j : Job} (hj : j ∈ h.2) : j.fresh.Begins :=
  ⟨rfl, hp.code j hj, hp.base j hj⟩

/-- A call has come alone to where it is, with the same files of its own. -/
theorem From.alone (hT : T.Confined) (hf : From T fs h) (hp : Proper h) {t : Nat} {j : Job} (hj : h.2[t]? = some j) :
    ∃ n fs', Framework.alone (Job.step T) fs j.fresh n = some (fs', j) ∧
      Set.EqOn fs' h.1 (files j.name) := by
  obtain ⟨es, hr⟩ := hf
  have begins {u : Nat} {k : Job} (hu : (h.2.map Job.fresh)[u]? = some k) :
      ∃ l, h.2[u]? = some l ∧ k = l.fresh ∧ k.Begins := by
    rw [List.getElem?_map, Option.map_eq_some_iff] at hu
    obtain ⟨l, hl, rfl⟩ := hu
    exact ⟨l, hl, rfl, hp.begins (List.mem_of_getElem? hl)⟩
  have hd (t u : Nat) (k l : Job) (htu : t ≠ u) (ht : (h.2.map Job.fresh)[t]? = some k)
      (hu : (h.2.map Job.fresh)[u]? = some l) : Disjoint (files k.fileName) (files l.fileName) := by
    obtain ⟨k', hk', rfl, hk⟩ := begins ht
    obtain ⟨l', hl', rfl, hl⟩ := begins hu
    rw [hk.fileName, hl.fileName, Set.disjoint_left]
    intro p hkp hlp
    have hne : k'.name ≠ l'.name := fun e => by
      have hlt : t < (h.2.map Job.name).length := by
        rw [List.length_map]
        exact (List.getElem?_eq_some_iff.mp hk').1
      refine htu ((List.getElem?_inj hlt hp.nodup).mp ?_)
      rw [List.getElem?_map, List.getElem?_map, hk', hl', Option.map_some, Option.map_some, e]
    exact tempFiles_disjoint hk.name.dot_notMem hne hkp hlp
  have ht : (h.2.map Job.fresh)[t]? = some j.fresh := by rw [List.getElem?_map, hj, Option.map_some]
  have htidy (k : Job) (hk : k ∈ h.2.map Job.fresh) : k.Tidy := by
    obtain ⟨u, hu⟩ := List.mem_iff_getElem?.mp hk
    obtain ⟨-, -, -, hb⟩ := begins hu
    exact hb.tidy
  obtain ⟨fs', j', hj', ha, -, heq⟩ := hr.alone (Job.keepTo_files T hT) htidy hd ht
  obtain rfl : j' = j := Option.some.inj (hj'.symm.trans hj)
  have hfile : j'.fresh.fileName = j'.name := (hp.begins (List.mem_of_getElem? hj)).fileName
  rw [hfile] at heq
  exact ⟨_, fs', ha, heq⟩

/-- A call answers what it answers alone. -/
theorem From.answer (hT : T.Confined) (hf : From T fs h) (hp : Proper h) {t : Nat} {j : Job} {outJson : Str}
    (hj : h.2[t]? = some j) (hd : j.pc = .done outJson) : outJson = j.alone T fs := by
  obtain ⟨n, fs', ha, -⟩ := hf.alone hT hp hj
  have hs := (hp.begins (List.mem_of_getElem? hj)).alone_done T ha hd
  exact (congrArg Prod.fst hs).symm

/-- A file that is not as it was at first belongs to a call that has not
returned, if none of the calls' files was there. -/
theorem From.files (hT : T.Confined) (hf : From T fs h) (hp : Proper h) (habs : ∀ j ∈ h.2, Absent fs j.name) {p : Str}
    (hne : h.1 p ≠ fs p) : ∃ j ∈ h.2, p ∈ tempFiles j.name ∧ ∀ outJson, j.pc ≠ .done outJson := by
  by_contra hno
  have hdone (j : Job) (hj : j ∈ h.2) (hpj : p ∈ tempFiles j.name) : ∃ outJson, j.pc = .done outJson := by
    by_contra h0
    exact hno ⟨j, hj, hpj, fun outJson e => h0 ⟨outJson, e⟩⟩
  refine hne ?_
  by_cases hmem : ∃ j ∈ h.2, p ∈ tempFiles j.name
  · obtain ⟨j, hj, hpj⟩ := hmem
    obtain ⟨outJson, hd⟩ := hdone j hj hpj
    obtain ⟨t, ht⟩ := List.mem_iff_getElem?.mp hj
    obtain ⟨n, fs', ha, heq⟩ := hf.alone hT hp ht
    have hb := hp.begins hj
    have hs := hb.alone_done T ha hd
    have hfs : ((CompileServer.start T j.outcomes j.sub j.name).run fs).2 p = none := by
      rw [start_files _ _ _ _ hT, Submission.fileName, if_neg (hp.code j hj)]
      exact if_pos hpj
    calc h.1 p = fs' p := (heq hpj).symm
      _ = none := (congrFun (congrArg Prod.snd hs) p).symm.trans hfs
      _ = fs p := (habs j hj p hpj).symm
  · obtain ⟨es, hr⟩ := hf
    refine hr.untouched (Job.keepTo_files T hT) (fun k hk => ?_) fun k hk hkp => hmem ?_
    · obtain ⟨j, hj, rfl⟩ := List.mem_map.mp hk
      exact (hp.begins hj).tidy
    obtain ⟨j, hj, rfl⟩ := List.mem_map.mp hk
    have hfile : j.fresh.fileName = j.name := (hp.begins hj).fileName
    rw [hfile] at hkp
    exact ⟨j, hj, hkp⟩

end Host

end OJ.CompileServer
