import DistributedOj.OjServer.ClusterAnswers

/-!
# How often a submission is executed

A call of `Judge` makes one POST more than have failed it, at most, and each
call of `Start` is of one POST (`Cluster.executions`). So a submission is
executed exactly once if no POST of its call fails, and a second time only
after a failure, which does not stop the first one.
-/

namespace OJ.Server

open OJ.Comm OJ.Framework OJ.CompileServer

def ClusterEvent.fails (t : Nat) : ClusterEvent → Bool
  | .drop u _ => u = t
  | _ => false

/-- How many POSTs of call `t` have failed. -/
def failures (t : Nat) (es : List ClusterEvent) : Nat := es.countP (ClusterEvent.fails t)

theorem failures_concat (t : Nat) (es : List ClusterEvent) (e : ClusterEvent) :
    failures t (es ++ [e]) = failures t es + (e.fails t).toNat := by
  rw [failures, List.countP_append, List.countP_singleton]
  cases e.fails t with
  | true => rfl
  | false => rfl

/-- The branch of `Judge` after the answer. -/
def Pc.Final (pc : Pc) : Prop := pc = .done ∨ ∃ id m, pc = .answered id m false

/-- A call that has its answer only goes on to its end. -/
theorem CallStep.final {t : Nat} {lb lb' : LoadBalance} {c c' : Call} {a : Act}
    (h : CallStep t lb c a lb' c') (hf : c.pc.Final) : c'.pc.Final ∧ c'.outJson = c.outJson := by
  cases h with
  | @decLoad id m retry hpc =>
    obtain hd | ⟨_, _, hd⟩ := hf
    · rw [hpc] at hd
      cases hd
    · rw [hpc] at hd
      cases hd
      exact ⟨.inl rfl, rfl⟩
  | giveUp hpc | enter hpc | probeThrew hpc | probe hpc | first hpc | better hpc | worse hpc | leave hpc
  | incLoad hpc | postOk hpc | postBad hpc | postLost hpc | offline hpc | shown hpc =>
    obtain hd | ⟨_, _, hd⟩ := hf
    · rw [hpc] at hd
      cases hd
    · rw [hpc] at hd
      cases hd

namespace Cluster

/-- How many POSTs call `t` has made. -/
def sends (t : Nat) (s : Cluster) : Nat := (s.posts.map Post.call).count t

/-- The POSTs of call `t` against its failures. -/
structure Counted (t : Nat) (es : List ClusterEvent) (s : Cluster) (c : Call) : Prop where
  bound : s.sends t ≤ failures t es + 1
  idle : s.flights t = none → c.outJson = none → s.sends t ≤ failures t es
  sent : s.flights t ≠ none → 1 ≤ s.sends t
  answered : c.outJson ≠ none → 1 ≤ s.sends t ∧ c.pc.Final

/-- The `i`-th POST is with the `k`-th call of `Start` of machine `m`. -/
def IsWith (s : Cluster) (i m k : Nat) : Prop :=
  ∃ p : Post, s.posts[i]? = some p ∧ p.machine = m ∧ p.stage = .working k

/-- Every call of `Start` is of one POST. -/
structure Owned (s : Cluster) : Prop where
  owner : ∀ m k, k < (s.hosts m).2.length → ∃ i, s.IsWith i m k
  only : ∀ i i' m k, s.IsWith i m k → s.IsWith i' m k → i = i'

variable {J : JsonReader} {T : Toolchain} {lb : LoadBalance} {reqs : List Str} {fs : Nat → Fs}
  {s s' : Cluster} {es : List ClusterEvent} {e : ClusterEvent}

/-- A call that is in `cli.Post` has no answer yet. -/
theorem Counted.posting {t : Nat} {c : Call} (h : Counted t es s c) {id : Int} {m : Nat}
    (hpc : c.pc = .posting id m) : c.outJson = none := by
  by_contra hne
  obtain hd | ⟨_, _, hd⟩ := (h.answered hne).2
  · rw [hpc] at hd
    cases hd
  · rw [hpc] at hd
    cases hd

/-- What does not concern the POSTs of call `t` and its answer. -/
theorem Counted.other {t : Nat} {c : Call} (h : Counted t es s c) (hp : s'.sends t = s.sends t)
    (hf : s'.flights t = s.flights t) (he : e.fails t = false) : Counted t (es ++ [e]) s' c := by
  have hfail : failures t (es ++ [e]) = failures t es := by rw [failures_concat, he, Bool.toNat_false, Nat.add_zero]
  refine ⟨?_, ?_, ?_, ?_⟩ <;> rw [hp]
  · rw [hfail]; exact h.bound
  · rw [hfail, hf]; exact h.idle
  · rw [hf]; exact h.sent
  · exact h.answered

theorem Counted.start {t : Nat} {c : Call} (hc : (start lb reqs fs).front.calls[t]? = some c) :
    Counted t [] (start lb reqs fs) c where
  bound := Nat.zero_le _
  idle _ _ := Nat.le_refl _
  sent h := absurd rfl h
  answered h := absurd (Sys.start_calls hc).2 h

/-- Another call is none of the business of a step of call `u`. -/
theorem calls_of_ne {e : Event} {front : Sys} (hs : s.front.step e = some front) {t : Nat}
    (hne : ∀ a, e ≠ .call t a) : front.calls[t]? = s.front.calls[t]? := by
  obtain ⟨u, a, d, lb', d', rfl, hd, hds, rfl⟩ | ⟨u, rfl, -, rfl⟩ := Sys.step_cases hs
  · exact getElem?_set_of_ne fun e => hne a (e ▸ rfl)
  · rfl

theorem call_of_step {t : Nat} {a : Act} {front : Sys} {c : Call} (hs : s.front.step (.call t a) = some front)
    (hc : front.calls[t]? = some c) :
    ∃ d lb', s.front.calls[t]? = some d ∧ CallStep t s.front.lb d a lb' c := by
  obtain ⟨u, a', d, lb', d', he, hd, hds, rfl⟩ | ⟨u, he, -⟩ := Sys.step_cases hs
  · cases he
    obtain rfl : c = d' := Option.some.inj (hc.symm.trans (getElem?_set_self_of_some hd))
    exact ⟨d, lb', hd, hds⟩
  · cases he

/-- The end of a POST of call `u`, seen from call `t`. -/
theorem Counted.returned {u m : Nat} {d : Call} {res : Option Response} {front : Sys}
    (h : ∀ t c, s.front.calls[t]? = some c → Counted t es s c)
    (hd : s.front.calls[u]? = some d) {id : Int} (hpc : d.pc = .posting id m)
    (hs : s.front.step (.call u (.post m d.compileString res)) = some front)
    (hok : ∀ r, res = some r → r.status = 200 → s.flights u ≠ none) (he : ∀ t, t ≠ u → e.fails t = false)
    (hu : (∃ r, res = some r ∧ r.status = 200) ∨ e.fails u = true) :
    ∀ t c, front.calls[t]? = some c → Counted t (es ++ [e])
      { s with front := front, flights := Function.update s.flights u none } c := by
  intro t c hc
  by_cases htu : t = u
  · subst htu
    obtain ⟨d', lb', hd', hstep⟩ := call_of_step hs hc
    obtain rfl : d' = d := Option.some.inj (hd'.symm.trans hd)
    have hcount := h t d' hd'
    have hout := hcount.posting hpc
    have hmono : failures t es ≤ failures t (es ++ [e]) := by
      rw [failures_concat]
      exact Nat.le_add_right _ _
    have hbound : s.sends t ≤ failures t (es ++ [e]) + 1 :=
      hcount.bound.trans (Nat.add_le_add_right hmono 1)
    cases hstep with
    | @postOk _ _ r h' h200 =>
      refine ⟨hbound, fun _ e => (by cases e), fun e => absurd (Function.update_self ..) e, fun _ => ?_⟩
      exact ⟨hcount.sent (hok r rfl h200), .inr ⟨_, _, rfl⟩⟩
    | @postBad _ _ r h' h200 =>
      refine ⟨hbound, fun _ _ => ?_, fun e => absurd (Function.update_self ..) e, fun e => absurd hout e⟩
      obtain ⟨r', e', h'⟩ | hfail := hu
      · cases e'
        exact absurd h' h200
      · rw [failures_concat, hfail]
        exact hcount.bound
    | postLost h' =>
      refine ⟨hbound, fun _ _ => ?_, fun e => absurd (Function.update_self ..) e, fun e => absurd hout e⟩
      obtain ⟨r', e', -⟩ | hfail := hu
      · cases e'
      · rw [failures_concat, hfail]
        exact hcount.bound
  · have hc' : s.front.calls[t]? = some c := (calls_of_ne hs fun a e => htu (by cases e; rfl)).symm.trans hc
    exact (h t c hc').other rfl (Function.update_of_ne htu ..) (he t htu)

theorem sends_set {i : Nat} {p : Post} (hp : s.posts[i]? = some p) (stage : Stage) (t : Nat) :
    ((s.posts.set i { p with stage := stage }).map Post.call).count t = s.sends t := by
  have hcall : Post.call { p with stage := stage } = p.call := rfl
  rw [map_set_of_eq hp hcall, sends]

/-- Every step keeps the count. -/
theorem Counted.step (hok : s.Ok J T reqs fs) (h : ∀ t c, s.front.calls[t]? = some c → Counted t es s c)
    (hstep : s.step J T e = some s') : ∀ t c, s'.front.calls[t]? = some c → Counted t (es ++ [e]) s' c := by
  cases step_cases hstep with
  | @front e front he hs =>
    intro t c hc
    by_cases ht : ∃ a, e = .call t a
    · obtain ⟨a, rfl⟩ := ht
      obtain ⟨d, lb', hd, hds⟩ := call_of_step hs hc
      have hcount : Counted t (es ++ [.front (.call t a)]) { s with front := front } d :=
        (h t d hd).other rfl rfl rfl
      have hout : c.outJson = d.outJson := by
        obtain e | ⟨m, r, rfl, -, -⟩ := hds.outJson
        · exact e
        · cases he
      refine ⟨hcount.bound, fun hf ho => hcount.idle hf (hout ▸ ho), hcount.sent, fun ho => ?_⟩
      obtain ⟨h1, hfinal⟩ := hcount.answered (hout ▸ ho)
      exact ⟨h1, (hds.final hfinal).1⟩
    · have hc' : s.front.calls[t]? = some c :=
        (calls_of_ne hs fun a e => ht ⟨a, e⟩).symm.trans hc
      exact (h t c hc').other rfl rfl rfl
  | @send u m d id hd hpc hf =>
    intro t c hc
    by_cases htu : t = u
    · subst htu
      obtain rfl : d = c := Option.some.inj (hd.symm.trans hc)
      have hcount := h t d hd
      have hout := hcount.posting hpc
      have hidle := hcount.idle hf hout
      have hsends : sends t { s with
          posts := s.posts ++ [⟨t, m, d.compileString, .sent⟩]
          flights := Function.update s.flights t (some s.posts.length) } = s.sends t + 1 := by
        simp [sends]
      have hfail : failures t (es ++ [.send t]) = failures t es := by rw [failures_concat]; rfl
      have hflight : Function.update s.flights t (some s.posts.length) t ≠ none := by
        rw [Function.update_self]
        exact Option.some_ne_none _
      refine ⟨?_, fun e => absurd e hflight, fun _ => ?_, fun e => absurd hout e⟩
      · rw [hsends, hfail]
        omega
      · rw [hsends]
        omega
    · refine (h t c hc).other ?_ (Function.update_of_ne htu ..) rfl
      have hcount : [u].count t = 0 := List.count_eq_zero.mpr fun e => htu (List.mem_singleton.mp e)
      simp [sends, hcount]
  | @answer i name o p r hp _ _ =>
    exact fun t c hc => (h t c hc).other (sends_set hp _ t) rfl rfl
  | @start i name o p j hp _ _ =>
    exact fun t c hc => (h t c hc).other (sends_set hp _ t) rfl rfl
  | @work m k host hw => exact fun t c hc => (h t c hc).other rfl rfl rfl
  | @reply u i id d p m r front hd hpc hi hp hr hs =>
    refine Counted.returned h hd hpc hs (fun _ _ _ => by rw [hi]; exact Option.some_ne_none i) (fun _ _ => rfl) ?_
    exact .inl ⟨r, rfl, (hok.response hd hi hp hr).1⟩
  | @drop u id d m res front hd hpc hres hs =>
    refine Counted.returned h hd hpc hs (fun r e h200 => ?_) (fun t ht => ?_) (.inr ?_)
    · subst e
      rw [Option.all_some, decide_eq_true_eq] at hres
      exact absurd h200 hres
    · exact decide_eq_false (Ne.symm ht)
    · exact decide_eq_true rfl

theorem Owned.start : (start lb reqs fs).Owned where
  owner _ _ h := absurd h (Nat.not_lt_zero _)
  only i i' m k h := by
    obtain ⟨p, hp, -⟩ := h
    cases hp

theorem Owned.congr (h : s.Owned) (hlen : ∀ m, (s'.hosts m).2.length = (s.hosts m).2.length)
    (hposts : ∀ i m k, s'.IsWith i m k ↔ s.IsWith i m k) : s'.Owned where
  owner m k hk := by
    obtain ⟨i, hi⟩ := h.owner m k (hlen m ▸ hk)
    exact ⟨i, (hposts i m k).mpr hi⟩
  only i i' m k hi hi' := h.only i i' m k ((hposts i m k).mp hi) ((hposts i' m k).mp hi')

theorem Owned.step (hok : s.Ok J T reqs fs) (h : s.Owned) (hstep : s.step J T e = some s') : s'.Owned := by
  cases step_cases hstep with
  | front | reply | drop => exact ⟨h.owner, h.only⟩
  | @send t m c id hc hpc hf =>
    refine h.congr (fun _ => rfl) fun i m' k => ?_
    constructor
    · rintro ⟨p, hp, hm, hk⟩
      by_cases hi : i < s.posts.length
      · exact ⟨p, (List.getElem?_append_left hi).symm.trans hp, hm, hk⟩
      · have hmem : p ∈ [(⟨t, m, c.compileString, .sent⟩ : Post)] := by
          rw [List.getElem?_append_right (Nat.le_of_not_lt hi)] at hp
          exact List.mem_of_getElem? hp
        rw [List.mem_singleton.mp hmem] at hk
        cases hk
    · rintro ⟨p, hp, hm, hk⟩
      exact ⟨p, (List.getElem?_append_left (List.getElem?_eq_some_iff.mp hp).1).trans hp, hm, hk⟩
  | @answer i name o p r hp hstage _ =>
    refine h.congr (fun _ => rfl) fun i' m k => ?_
    by_cases hi : i' = i
    · subst hi
      constructor
      · rintro ⟨q, hq, -, hk⟩
        obtain rfl := Option.some.inj ((getElem?_set_self_of_some hp).symm.trans hq)
        cases hk
      · rintro ⟨q, hq, -, hk⟩
        obtain rfl : q = p := Option.some.inj (hq.symm.trans hp)
        rw [hstage] at hk
        cases hk
    · simp only [IsWith, getElem?_set_of_ne hi]
  | @start i name o p j hp hstage _ =>
    -- What the step adds is the last call of the machine.
    have hnew {i' m k : Nat} : IsWith { s with
        posts := s.posts.set i { p with stage := .working (s.hosts p.machine).2.length }
        hosts := Function.update s.hosts p.machine ((s.hosts p.machine).1, (s.hosts p.machine).2 ++ [j]) }
          i' m k ↔ (i' = i ∧ m = p.machine ∧ k = (s.hosts p.machine).2.length) ∨ s.IsWith i' m k := by
      by_cases hi : i' = i
      · subst hi
        constructor
        · rintro ⟨q, hq, rfl, hk⟩
          obtain rfl := Option.some.inj ((getElem?_set_self_of_some hp).symm.trans hq)
          cases hk
          exact .inl ⟨rfl, rfl, rfl⟩
        · rintro (⟨-, rfl, rfl⟩ | ⟨q, hq, -, hk⟩)
          · exact ⟨_, getElem?_set_self_of_some hp, rfl, rfl⟩
          · obtain rfl : q = p := Option.some.inj (hq.symm.trans hp)
            rw [hstage] at hk
            cases hk
      · simp only [IsWith, getElem?_set_of_ne hi, hi, false_and, false_or]
    have hlt {i' m k : Nat} (hw : s.IsWith i' m k) : k < (s.hosts m).2.length := by
      obtain ⟨q, hq, rfl, hk⟩ := hw
      obtain ⟨j, hj, -⟩ := (hok.posts q (List.mem_of_getElem? hq)).working k hk
      exact (List.getElem?_eq_some_iff.mp hj).1
    refine ⟨fun m k hk => ?_, fun i₁ i₂ m k h₁ h₂ => ?_⟩
    · by_cases hlast : m = p.machine ∧ k = (s.hosts p.machine).2.length
      · exact ⟨i, hnew.mpr (.inl ⟨rfl, hlast⟩)⟩
      · have hk' : k < (s.hosts m).2.length := by
          by_cases hm : m = p.machine
          · subst hm
            simp only [Function.update_self, List.length_append, List.length_singleton] at hk
            have : k ≠ (s.hosts p.machine).2.length := fun e => hlast ⟨rfl, e⟩
            omega
          · simpa only [Function.update_of_ne hm] using hk
        obtain ⟨i', hi'⟩ := h.owner m k hk'
        exact ⟨i', hnew.mpr (.inr hi')⟩
    · obtain ⟨rfl, rfl, rfl⟩ | old₁ := hnew.mp h₁
      · obtain ⟨rfl, -⟩ | old₂ := hnew.mp h₂
        · rfl
        · exact absurd (hlt old₂) (Nat.lt_irrefl _)
      · obtain ⟨rfl, rfl, rfl⟩ | old₂ := hnew.mp h₂
        · exact absurd (hlt old₁) (Nat.lt_irrefl _)
        · exact h.only i₁ i₂ m k old₁ old₂
  | @work m k host hw =>
    refine h.congr (fun m' => ?_) fun _ _ _ => Iff.rfl
    by_cases hm : m' = m
    · subst hm
      obtain ⟨j, j', -, -, -, e⟩ := Host.work_cases hw
      simp only [Function.update_self]
      rw [e, List.length_set]
    · simp only [Function.update_of_ne hm]

/-- In any run of calls whose texts can be read: a call of `Judge` has made at most
one POST more than have failed it, and at least one if it has an answer; and every call of `Start` on a
machine is of exactly one POST. -/
theorem executions (hreqs : ∀ text ∈ reqs, Readable J text)
    (h : Run (step J T) Free (.start lb reqs fs) es s) :
    (∀ (t : Nat) (c : Call), s.front.calls[t]? = some c → s.sends t ≤ failures t es + 1 ∧
      (c.outJson ≠ none → 1 ≤ s.sends t) ∧ (c.outJson ≠ none → failures t es = 0 → s.sends t = 1)) ∧
    ∀ m k, k < (s.hosts m).2.length → ∃! i, s.IsWith i m k := by
  have hinv : s.Ok J T reqs fs ∧ s.Owned ∧ ∀ t c, s.front.calls[t]? = some c → Counted t es s c := by
    refine h.inv_trace (I := fun es s => s.Ok J T reqs fs ∧ s.Owned ∧
      ∀ t c, s.front.calls[t]? = some c → Counted t es s c) ?_ ⟨.start lb, .start, fun t c => Counted.start⟩
    rintro es s e s' ⟨hok, howned, hcount⟩ - hstep
    exact ⟨hok.step hreqs hstep, howned.step hok hstep, Counted.step hok hcount hstep⟩
  obtain ⟨-, howned, hcount⟩ := hinv
  refine ⟨fun t c hc => ?_, fun m k hk => ?_⟩
  · have hcount := hcount t c hc
    have hone (ho : c.outJson ≠ none) := (hcount.answered ho).1
    refine ⟨hcount.bound, hone, fun ho h0 => ?_⟩
    have := hcount.bound
    have := hone ho
    omega
  · obtain ⟨i, hi⟩ := howned.owner m k hk
    exact ⟨i, hi, fun i' hi' => howned.only i' i m k hi' hi⟩

end Cluster

/-- The submission is executed once. -/
theorem Submitted.executions_one : ∃ s : Cluster, s.front.calls = [⟨text, .done, some answer⟩] ∧ s.sends 0 = 1 := by
  obtain ⟨s, h, hc, -⟩ := run
  have ht : s.front.calls[0]? = some ⟨text, .done, some answer⟩ := by rw [hc]; rfl
  have hexec := (Cluster.executions readable (h.mono fun _ _ _ => trivial)).1 0 _ ht
  exact ⟨s, hc, hexec.2.2 (Option.some_ne_none _) rfl⟩

end OJ.Server
