import DistributedOj.OjServer.JudgeInv

/-!
# The posts of a call of `Judge`

Each backend is taken to answer every POST the same way (`Answers`), and no
thread recovers machines. While no machine online answers with a bad status, a
call that comes back to `SmartChoice` has posted only to machines that are
gone: they gave no response and are offline (`Sys.Tried`). So it posts to each
machine at most once, and to one that gives a response last
(`Sys.Tried.nodup`, `Sys.Tried.length_posts_le`).
-/

namespace OJ.Server

open OJ.Comm OJ.Framework

/-- The branch of `Judge` that the result of a POST takes. -/
inductive Outcome where
  | ok
  | badStatus
  | noResponse
  deriving DecidableEq, Repr

def Outcome.of : Option Response → Outcome
  | none => .noResponse
  | some r => if r.status = 200 then .ok else .badStatus

theorem Outcome.of_ok {r : Response} (h : r.status = 200) : of (some r) = .ok := if_pos h

theorem Outcome.of_badStatus {r : Response} (h : r.status ≠ 200) : of (some r) = .badStatus :=
  if_neg h

/-- Backend `m` answers a POST as `o m`. -/
def Act.Answers (o : Nat → Outcome) : Act → Prop
  | .post m _ res => .of res = o m
  | _ => True

/-- The backends answer as `o`, and no thread recovers machines. -/
def Answers (o : Nat → Outcome) (_ : Sys) : Event → Prop
  | .call _ a => a.Answers o
  | .recover _ => False

instance (o : Nat → Outcome) (a : Act) : Decidable (a.Answers o) :=
  match a with
  | .post m _ res => inferInstanceAs (Decidable (Outcome.of res = o m))
  | .tau | .probe .. => isTrue trivial

instance (o : Nat → Outcome) (s : Sys) (e : Event) : Decidable (Answers o s e) :=
  match e with
  | .call _ a => inferInstanceAs (Decidable (a.Answers o))
  | .recover _ => isFalse id

variable {o : Nat → Outcome}

/-! ## What the answers say of a call -/

/-- What the answers so far say of the machine of a call. -/
def Pc.Sound (o : Nat → Outcome) : Pc → Prop
  | .chosen _ m | .posting _ m => o m ≠ .badStatus
  | .answered _ m retry => o m = .ok ∧ retry = false
  | .failed _ m => o m = .noResponse
  | _ => True

theorem CallStep.sound {t : Nat} {lb lb' : LoadBalance} {c c' : Call} {a : Act}
    (h : CallStep t lb c a lb' c') (ha : a.Answers o) (hf : c.pc.Fits lb)
    (hl : ∀ x ∈ lb.online, o x.toNat ≠ .badStatus) (hs : c.pc.Sound o) : c'.pc.Sound o := by
  cases h with
  | leave hpc =>
    rw [hpc] at hf
    obtain ⟨-, -, hid, rfl⟩ := hf
    exact hl _ hid
  | incLoad hpc => rw [hpc] at hs; exact hs
  | postOk hpc h200 => exact ⟨ha.symm.trans (Outcome.of_ok h200), rfl⟩
  | postBad hpc h200 =>
    rw [hpc] at hs
    exact absurd (ha.symm.trans (Outcome.of_badStatus h200)) hs
  | postLost hpc => exact ha.symm
  | @decLoad _ _ retry => cases retry <;> trivial
  | _ => trivial

namespace Sys

/-- The states in which no machine online answers with a bad status. -/
structure Good (o : Nat → Outcome) (s : Sys) : Prop extends s.Ok where
  clean : ∀ x ∈ s.lb.online, o x.toNat ≠ .badStatus
  sound : ∀ (t : Nat) (c : Call), s.calls[t]? = some c → c.pc.Sound o

theorem Good.start {lb : LoadBalance} (hl : lb.Listed) (hm : lb.mtx = none)
    (hc : ∀ x ∈ lb.online, o x.toNat ≠ .badStatus) (reqs : List Str) : (start lb reqs).Good o := by
  refine ⟨Ok.start hl hm reqs, hc, fun t c hc => ?_⟩
  rw [(start_calls hc).1]
  trivial

theorem Good.step {s s' : Sys} {e : Event} (h : s.Good o) (ha : Answers o s e)
    (hs : s.step e = some s') : s'.Good o := by
  have hok := h.toOk.step hs
  obtain ⟨t, a, c, lb', c', rfl, hc, hcs, rfl⟩ | ⟨t, rfl, -, -⟩ := step_cases hs
  · refine ⟨hok, fun x hx => h.clean x (hcs.online_sublist.subset hx), fun u d hd => ?_⟩
    obtain ⟨rfl, rfl⟩ | ⟨-, hd⟩ := getElem?_set_cases hd
    · exact hcs.sound ha (h.fits u c hc) h.clean (h.sound u c hc)
    · exact h.sound u d hd
  · exact ha.elim

theorem Good.spares {s : Sys} (h : s.Good o) {m : Nat} (hm : o m = .ok) : s.Spares m := by
  refine ⟨h.toOk, fun t c hc id hpc => ?_⟩
  have hs := h.sound t c hc
  rw [hpc] at hs
  cases hm.symm.trans hs

theorem responds_of_answers {s : Sys} {e : Event} (h : Answers o s e) {m : Nat} (hm : o m = .ok) :
    Responds m s e := by
  unfold Responds
  split
  · rintro rfl
    have h : Outcome.of _ = _ := h
    rw [hm] at h
    revert h
    cases ‹Option Response› with
    | none => exact nofun
    | some r => exact fun _ => rfl
  · trivial

end Sys

/-! ## The posts of a call -/

/-- The machine that an event of call `t` posts to. -/
def Event.target (t : Nat) : Event → Option Nat
  | .call u (.post m _ _) => if u = t then some m else none
  | _ => none

/-- The machines that call `t` posts to, in order. -/
def posts (t : Nat) (es : List Event) : List Nat := es.filterMap (Event.target t)

theorem posts_concat (t : Nat) (es : List Event) (e : Event) :
    posts t (es ++ [e]) = posts t es ++ (e.target t).toList := by
  rw [posts, List.filterMap_append]
  cases h : e.target t with
  | none => rw [List.filterMap_cons_none h]; rfl
  | some m => rw [List.filterMap_cons_some h]; rfl

theorem Event.target_of_ne {t u : Nat} (h : u ≠ t) (a : Act) : (Event.call u a).target t = none := by
  cases a with
  | post => exact if_neg h
  | _ => rfl

/-- Machine `m` has been tried and is gone. -/
def Gone (o : Nat → Outcome) (lb : LoadBalance) (m : Nat) : Prop :=
  o m = .noResponse ∧ (m : Int) ∉ lb.online

theorem Gone.mono {lb lb' : LoadBalance} (hl : lb'.online ⊆ lb.online) {m : Nat}
    (h : Gone o lb m) : Gone o lb' m :=
  ⟨h.1, fun hm => h.2 (hl hm)⟩

/-- `*out_json` is the body of an answer 200 of machine `m` to call `t`. -/
def Served (t : Nat) (c : Call) (es : List Event) (m : Nat) : Prop :=
  ∃ r : Response, .call t (.post m c.compileString (some r)) ∈ es ∧ r.status = 200 ∧
    c.outJson = some r.body

theorem Served.concat {t m : Nat} {c : Call} {es : List Event} (h : Served t c es m) (e : Event) :
    Served t c (es ++ [e]) m := by
  obtain ⟨r, hr, h⟩ := h
  exact ⟨r, List.mem_append_left _ hr, h⟩

/-- Where call `t` is, and what its posts `ps` have led to: those before the
last one, or all of them, to machines that are gone. -/
def Call.Tried (o : Nat → Outcome) (L : List Int) (lb : LoadBalance) (t : Nat) (es : List Event)
    (c : Call) : Prop :=
  match c.pc with
  | .chosen _ m | .posting _ m =>
    (∀ k ∈ posts t es, Gone o lb k) ∧ c.outJson = none ∧ m ∉ posts t es ∧ (m : Int) ∈ L
  | .failed _ m => ∃ ps, posts t es = ps ++ [m] ∧ (∀ k ∈ ps, Gone o lb k) ∧ c.outJson = none
  | .answered _ m _ =>
    ∃ ps, posts t es = ps ++ [m] ∧ (∀ k ∈ ps, Gone o lb k) ∧ o m = .ok ∧ Served t c es m
  | .done =>
    ((∀ k ∈ posts t es, Gone o lb k) ∧ c.outJson = none ∧ lb.online = []) ∨
      ∃ ps m, posts t es = ps ++ [m] ∧ (∀ k ∈ ps, Gone o lb k) ∧ o m = .ok ∧ Served t c es m
  | _ => (∀ k ∈ posts t es, Gone o lb k) ∧ c.outJson = none

/-- A step of another thread, which can only take machines offline. -/
theorem Call.Tried.other {L : List Int} {lb lb' : LoadBalance} {t : Nat} {es : List Event}
    {c : Call} (h : c.Tried o L lb t es) (hl : lb'.online ⊆ lb.online) {e : Event}
    (he : e.target t = none) : c.Tried o L lb' t (es ++ [e]) := by
  have hp : posts t (es ++ [e]) = posts t es := by rw [posts_concat, he]; exact List.append_nil _
  unfold Call.Tried at h ⊢
  rw [hp]
  split at h
  · exact ⟨fun k hk => (h.1 k hk).mono hl, h.2⟩
  · exact ⟨fun k hk => (h.1 k hk).mono hl, h.2⟩
  · obtain ⟨ps, e, hg, ho⟩ := h
    exact ⟨ps, e, fun k hk => (hg k hk).mono hl, ho⟩
  · obtain ⟨ps, e, hg, ho, hs⟩ := h
    exact ⟨ps, e, fun k hk => (hg k hk).mono hl, ho, hs.concat _⟩
  · obtain ⟨hg, ho, h0⟩ | ⟨ps, m, e, hg, ho, hs⟩ := h
    · exact .inl ⟨fun k hk => (hg k hk).mono hl, ho, List.subset_nil.mp (h0 ▸ hl)⟩
    · exact .inr ⟨ps, m, e, fun k hk => (hg k hk).mono hl, ho, hs.concat _⟩
  · exact ⟨fun k hk => (h.1 k hk).mono hl, h.2⟩

/-- A step of the call itself. -/
theorem Call.Tried.own {L : List Int} {lb lb' : LoadBalance} {t : Nat} {es : List Event}
    {c c' : Call} {a : Act} (h : c.Tried o L lb t es) (hcs : CallStep t lb c a lb' c')
    (ha : a.Answers o) (hf : c.pc.Fits lb) (hs : c.pc.Sound o) (hlist : lb.Listed)
    (hl : lb.online ⊆ L) : c'.Tried o L lb' t (es ++ [.call t a]) := by
  have hsub := hcs.online_sublist.subset
  have htau (hk : (Event.call t a).target t = none) : posts t (es ++ [.call t a]) = posts t es := by
    rw [posts_concat, hk]; exact List.append_nil _
  have hpost {m : Nat} (hk : (Event.call t a).target t = some m) :
      posts t (es ++ [.call t a]) = posts t es ++ [m] := by rw [posts_concat, hk]; rfl
  unfold Call.Tried at h ⊢
  cases hcs with
  | giveUp hpc _ h0 => rw [hpc] at h; rw [htau rfl]; exact .inl ⟨h.1, h.2, h0⟩
  | enter hpc | probeThrew hpc | probe hpc | first hpc | better hpc | worse hpc | shown hpc =>
    rw [hpc] at h; rw [htau rfl]; exact h
  | @leave _ _ _ id _ hpc =>
    rw [hpc] at h hf
    rw [htau rfl]
    obtain ⟨-, -, hid, rfl⟩ := hf
    have e : (id.toNat : Int) = id := Int.toNat_of_nonneg (hlist.mem_ids hid).1
    exact ⟨h.1, h.2, fun hk => (h.1 _ hk).2 (e.symm ▸ hid), hl (e.symm ▸ hid)⟩
  | incLoad hpc => rw [hpc] at h; rw [htau rfl]; exact h
  | postOk hpc h200 =>
    rw [hpc] at h
    exact ⟨_, hpost (if_pos rfl), h.1, ha.symm.trans (Outcome.of_ok h200), _,
      List.mem_append_right _ (List.mem_singleton_self _), h200, rfl⟩
  | postBad hpc h200 =>
    rw [hpc] at hs
    exact absurd (ha.symm.trans (Outcome.of_badStatus h200)) hs
  | postLost hpc => rw [hpc] at h; exact ⟨_, hpost (if_pos rfl), h.1, h.2.1⟩
  | decLoad hpc =>
    rw [hpc] at h hs
    obtain ⟨-, rfl⟩ := hs
    obtain ⟨ps, e, hg, ho, r, hr, h⟩ := h
    exact .inr ⟨ps, _, (htau rfl).trans e, hg, ho, r, List.mem_append_left _ hr, h⟩
  | @offline id m hpc hm =>
    rw [hpc] at h hf hs
    obtain ⟨ps, e, hg, ho⟩ := h
    refine ⟨fun k hk => ?_, ho⟩
    rw [htau rfl, e] at hk
    rcases List.mem_append.mp hk with hk | hk
    · exact (hg k hk).mono hsub
    · obtain rfl := List.mem_singleton.mp hk
      refine ⟨hs, ?_⟩
      rw [LoadBalance.online_takeOffline, ← hf.1]
      exact hlist.nodup.not_mem_erase

namespace Sys

/-- Call `t` after the events `es`, which began with the machines `L` online. -/
structure Tried (o : Nat → Outcome) (L : List Int) (t : Nat) (es : List Event) (s : Sys) : Prop
    extends s.Good o where
  shrinks : s.lb.online ⊆ L
  tried : ∀ c, s.calls[t]? = some c → c.Tried o L s.lb t es
  nodup : (posts t es).Nodup
  subset : ∀ m ∈ posts t es, (m : Int) ∈ L

/-- A call that has not begun. -/
theorem Tried.begin {s : Sys} (h : s.Good o) {t : Nat}
    (hc : ∀ c, s.calls[t]? = some c → c.Fresh) :
    s.Tried o s.lb.online t [] := by
  refine ⟨h, List.Subset.refl _, fun c hd => ?_, List.nodup_nil, nofun⟩
  unfold Call.Tried
  rw [(hc c hd).1]
  exact ⟨nofun, (hc c hd).2⟩

/-- A call posts to a machine that it has not posted to. -/
theorem Tried.target {L : List Int} {t : Nat} {es : List Event} {s s' : Sys} {e : Event}
    (h : s.Tried o L t es) (hs : s.step e = some s') {m : Nat} (hm : e.target t = some m) :
    m ∉ posts t es ∧ (m : Int) ∈ L := by
  obtain ⟨u, a, c, lb', c', rfl, hc, hcs, rfl⟩ | ⟨u, rfl, -, -⟩ := step_cases hs
  · by_cases hu : u = t
    · subst hu
      have ht := h.tried c hc
      unfold Call.Tried at ht
      cases hcs with
      | postOk hpc | postBad hpc | postLost hpc =>
        rw [hpc] at ht
        cases (if_pos rfl).symm.trans hm
        exact ht.2.2
      | _ => cases hm
    · rw [Event.target_of_ne hu] at hm
      cases hm
  · cases hm

theorem Tried.step {L : List Int} {t : Nat} {es : List Event} {s s' : Sys} {e : Event}
    (h : s.Tried o L t es) (ha : Answers o s e) (hs : s.step e = some s') :
    s'.Tried o L t (es ++ [e]) := by
  have hgood := h.toGood.step ha hs
  have htarget := fun m => h.target hs (m := m)
  obtain ⟨u, a, c, lb', c', rfl, hc, hcs, rfl⟩ | ⟨u, rfl, -, -⟩ := step_cases hs
  · refine ⟨hgood, List.Subset.trans hcs.online_sublist.subset h.shrinks, fun d hd => ?_, ?_, ?_⟩
    · obtain ⟨rfl, rfl⟩ | ⟨hu, hd⟩ := getElem?_set_cases hd
      · exact (h.tried c hc).own hcs ha (h.fits _ c hc) (h.sound _ c hc) h.listed h.shrinks
      · exact (h.tried d hd).other hcs.online_sublist.subset (Event.target_of_ne (Ne.symm hu) a)
    · rw [posts_concat]
      cases hm : (Event.call u a).target t with
      | none => simpa using h.nodup
      | some m =>
        rw [Option.toList_some, ← List.concat_eq_append]
        exact h.nodup.concat (htarget m hm).1
    · intro m hm
      rw [posts_concat] at hm
      rcases List.mem_append.mp hm with hm | hm
      · exact h.subset m hm
      · exact (htarget m (Option.mem_toList.mp hm)).2
  · exact ha.elim

/-- All posts but the last are to machines that gave no response. -/
theorem Tried.dropLast {L : List Int} {t : Nat} {es : List Event} {s : Sys}
    (h : s.Tried o L t es) {c : Call} (hc : s.calls[t]? = some c) :
    ∀ m ∈ (posts t es).dropLast, o m = .noResponse := by
  have all (hg : ∀ k ∈ posts t es, Gone o s.lb k) :
      ∀ m ∈ (posts t es).dropLast, o m = .noResponse :=
    fun m hm => (hg m (List.dropLast_subset _ hm)).1
  have last {ps : List Nat} {m : Nat} (e : posts t es = ps ++ [m])
      (hg : ∀ k ∈ ps, Gone o s.lb k) : ∀ m ∈ (posts t es).dropLast, o m = .noResponse := by
    rw [e, List.dropLast_concat]
    exact fun m hm => (hg m hm).1
  have ht := h.tried c hc
  unfold Call.Tried at ht
  split at ht
  · exact all ht.1
  · exact all ht.1
  · exact last ht.choose_spec.1 ht.choose_spec.2.1
  · exact last ht.choose_spec.1 ht.choose_spec.2.1
  · obtain ht | ⟨ps, m, e, hg, -⟩ := ht
    · exact all ht.1
    · exact last e hg
  · exact all ht.1

theorem Tried.length_posts_le {L : List Int} {t : Nat} {es : List Event} {s : Sys}
    (h : s.Tried o L t es) : (posts t es).length ≤ L.length := by
  have hn : ((posts t es).map Int.ofNat).Nodup := h.nodup.map fun _ _ e => Int.ofNat.inj e
  have hs : (posts t es).map Int.ofNat ⊆ L := fun x hx => by
    obtain ⟨m, hm, rfl⟩ := List.mem_map.mp hx
    exact h.subset m hm
  simpa using (List.subperm_of_subset hn hs).length_le

end Sys

end OJ.Server
