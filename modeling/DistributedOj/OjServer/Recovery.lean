import DistributedOj.Framework.Signals
import DistributedOj.OjServer.Lists

/-!
# The handler of `SIGQUIT`

`Recovery` calls `OnlineMachine` in whatever thread the signal is delivered to.
The operations of `LoadBalance` as steps that a signal may come between
(`Frame.step`): from any of them on, what is left of an operation is what its
definition does (`Frame.rest_step`). The handler never tries to take the lock
that its thread holds iff no signal is delivered to a thread that holds it
(`recovery_iff`), and `SmartChoice` holds it while it waits for every machine
(`not_recovery`).
-/

namespace OJ.Server

open OJ.Comm OJ.Framework

/-- Where a thread is in an operation of `LoadBalance`: before the step it is
named after, with the variables that it still needs. -/
inductive Frame where
  | choiceLock
  | choiceSize
  | probing (n i : Nat)
  | scanning (n i : Nat) (minLoad : UInt64) (id : Int) (m : Nat)
  | choiceUnlock (c : Choice)
  | offlineLock (which : Int)
  | searching (which : Int) (i : Nat)
  | resetting (which : Int) (i : Nat)
  | erasing (which : Int) (i : Nat)
  | pushing (which : Int)
  | offlineUnlock
  | onlineLock
  | inserting
  | clearing
  | onlineUnlock
  | showLock
  | showOnline (i : Nat)
  | showOffline (i : Nat)
  | showUnlock
  deriving DecidableEq

namespace Frame

/-- A step in thread `t`, where `UpdateStatus` ends as `p`; an exception leaves
the lock as it is. -/
def step (t : Nat) (lb : LoadBalance) (f : Frame) (p : Probe) : Option (LoadBalance × Option Frame) :=
  match f with
  | .choiceLock => (lb.lock t).map (·, some .choiceSize)
  | .choiceSize =>
    if lb.online.length = 0 then some (lb, some (.choiceUnlock .allOffline))
    else some (lb, some (.probing lb.online.length 0))
  | .probing n i =>
    if i < n then
      lb.online[i]?.map fun id =>
        if p = .threw then (lb, none)
        else (lb.modify id.toNat (·.updateStatus p), some (.probing n (i + 1)))
    else lb.online[0]?.map fun id => (lb, some (.scanning n 0 (lb.load id.toNat) id id.toNat))
  | .scanning n i minLoad id m =>
    if i < n then
      lb.online[i]?.map fun x =>
        if minLoad > lb.load x.toNat then (lb, some (.scanning n (i + 1) (lb.load x.toNat) x x.toNat))
        else (lb, some (.scanning n (i + 1) minLoad id m))
    else some (lb, some (.choiceUnlock (.found id m)))
  | .choiceUnlock _ => some (lb.unlock, none)
  | .offlineLock which => (lb.lock t).map (·, some (.searching which 0))
  | .searching which i =>
    match lb.online[i]? with
    | some x => some (lb, some (if x = which then .resetting which i else .searching which (i + 1)))
    | none => some (lb, some .offlineUnlock)
  | .resetting which i => some (lb.modify which.toNat Machine.resetLoad, some (.erasing which i))
  | .erasing which i => some ({ lb with online := lb.online.eraseIdx i }, some (.pushing which))
  | .pushing which => some ({ lb with offline := lb.offline ++ [which] }, some .offlineUnlock)
  | .offlineUnlock => some (lb.unlock, none)
  | .onlineLock => (lb.lock t).map (·, some .inserting)
  | .inserting => some ({ lb with online := lb.online ++ lb.offline }, some .clearing)
  | .clearing => some ({ lb with offline := [] }, some .onlineUnlock)
  | .onlineUnlock => some (lb.unlock, none)
  | .showLock => (lb.lock t).map (·, some (.showOnline 0))
  | .showOnline i =>
    some (lb, some (if i < lb.online.length then .showOnline (i + 1) else .showOffline 0))
  | .showOffline i =>
    some (lb, some (if i < lb.offline.length then .showOffline (i + 1) else .showUnlock))
  | .showUnlock => some (lb.unlock, none)

/-- The first step of an operation. -/
def begins : Frame → Bool
  | choiceLock | offlineLock _ | onlineLock | showLock => true
  | _ => false

/-- The steps of `OnlineMachine` after its first one. -/
def past : Frame → Bool
  | inserting | clearing | onlineUnlock => true
  | _ => false

section
variable {t : Nat} {lb : LoadBalance} {f : Frame} {p : Probe} {x : LoadBalance × Option Frame}

theorem mtx_of_step (h : f.step t lb p = some x) :
    x.1.mtx = lb.mtx ∨ x.1.mtx = none ∨ x.1.mtx = some t := by
  have locked {g : Frame} (h : (lb.lock t).map (·, some g) = some x) : x.1.mtx = some t := by
    obtain ⟨lb', hl, rfl⟩ := Option.map_eq_some_iff.mp h
    rw [(LoadBalance.lock_eq_some.mp hl).2]
  cases f with
  | choiceLock | offlineLock | onlineLock | showLock => exact .inr (.inr (locked h))
  | choiceUnlock | offlineUnlock | onlineUnlock | showUnlock =>
    cases h
    exact .inr (.inl rfl)
  | resetting | erasing | pushing | inserting | clearing | showOnline | showOffline =>
    cases h
    exact .inl rfl
  | choiceSize =>
    rw [step] at h
    split at h
    · cases h
      exact .inl rfl
    · cases h
      exact .inl rfl
  | searching =>
    rw [step] at h
    split at h
    · cases h
      exact .inl rfl
    · cases h
      exact .inl rfl
  | probing n i =>
    rw [step] at h
    split at h
    · obtain ⟨id, -, rfl⟩ := Option.map_eq_some_iff.mp h
      split
      · exact .inl rfl
      · exact .inl rfl
    · obtain ⟨id, -, rfl⟩ := Option.map_eq_some_iff.mp h
      exact .inl rfl
  | scanning n i minLoad id m =>
    rw [step] at h
    split at h
    · obtain ⟨y, -, rfl⟩ := Option.map_eq_some_iff.mp h
      split
      · exact .inl rfl
      · exact .inl rfl
    · cases h
      exact .inl rfl

theorem past_of_onlineLock (h : onlineLock.step t lb p = some x) : ∀ g ∈ x.2, g.past = true := by
  obtain ⟨lb', -, rfl⟩ := Option.map_eq_some_iff.mp h
  rintro g ⟨⟩
  rfl

theorem past_of_past (hf : f.past = true) (h : f.step t lb p = some x) : ∀ g ∈ x.2, g.past = true := by
  cases f with
  | inserting | clearing =>
    cases h
    rintro g ⟨⟩
    rfl
  | onlineUnlock =>
    cases h
    rintro g ⟨⟩
  | _ => cases hf

end

/-! ### What is left of an operation -/

/-- The second loop of `SmartChoice`, and its end. -/
def scanned (n : Nat) (lb : LoadBalance) : LoadBalance × Choice :=
  match lb.online with
  | [] => (lb, .allOffline)
  | first :: _ =>
    let c := lb.scan (lb.online.take n) (lb.load first.toNat) first first.toNat
    (lb.unlock, .found c.1 c.2)

/-- The loop of `OfflineMachine` from index `i` on. -/
def takeFrom (which : Int) (i : Nat) (lb : LoadBalance) : LoadBalance :=
  if which ∈ lb.online.drop i then
    { lb.modify which.toNat Machine.resetLoad with
      online := lb.online.eraseIdx (i + (lb.online.drop i).idxOf which)
      offline := lb.offline ++ [which] }
  else lb

/-- What an operation of thread `t` comes to from a step on, and how
`SmartChoice` exits, if no other thread does anything. -/
def rest (t : Nat) (probes : Nat → Probe) (lb : LoadBalance) :
    Frame → Option (LoadBalance × Option Choice)
  | choiceLock => (lb.smartChoice t probes).map fun x => (x.1, some x.2)
  | choiceSize => some ((lb.choose probes).1, some (lb.choose probes).2)
  | probing n i =>
    let r := lb.updateAll probes i ((lb.online.take n).drop i)
    if r.2 then some ((scanned n r.1).1, some (scanned n r.1).2) else some (r.1, some .threw)
  | scanning n i minLoad id m =>
    let c := lb.scan ((lb.online.take n).drop i) minLoad id m
    some (lb.unlock, some (.found c.1 c.2))
  | choiceUnlock c => some (lb.unlock, some c)
  | offlineLock which => (lb.offlineMachine t which).map (·, none)
  | searching which i => some ((takeFrom which i lb).unlock, none)
  | resetting which i =>
    some ({ lb.modify which.toNat Machine.resetLoad with
      online := lb.online.eraseIdx i
      offline := lb.offline ++ [which] }.unlock, none)
  | erasing which i =>
    some ({ lb with online := lb.online.eraseIdx i, offline := lb.offline ++ [which] }.unlock, none)
  | pushing which => some ({ lb with offline := lb.offline ++ [which] }.unlock, none)
  | onlineLock => (lb.onlineMachine t).map (·, none)
  | inserting => some (lb.putOnline.unlock, none)
  | clearing => some ({ lb with offline := [] }.unlock, none)
  | showLock => (lb.showMachines t).map (·, none)
  | offlineUnlock | onlineUnlock | showOnline _ | showOffline _ | showUnlock => some (lb.unlock, none)

section
variable {t : Nat} {lb : LoadBalance} {probes : Nat → Probe} {p : Probe} {x : LoadBalance × Option Frame}

/-- A step takes its first part off what is left. -/
def TakesOff (t : Nat) (probes : Nat → Probe) (lb : LoadBalance) (f : Frame)
    (x : LoadBalance × Option Frame) : Prop :=
  (∀ g, x.2 = some g → rest t probes x.1 g = rest t probes lb f) ∧
    (x.2 = none → ∃ c, rest t probes lb f = some (x.1, c))

theorem TakesOff.next {f g : Frame} {lb' : LoadBalance} (h : rest t probes lb' g = rest t probes lb f) :
    TakesOff t probes lb f (lb', some g) := by
  refine ⟨fun g' e => ?_, nofun⟩
  cases e
  exact h

theorem TakesOff.last {f : Frame} {lb' : LoadBalance} {c : Option Choice}
    (h : rest t probes lb f = some (lb', c)) : TakesOff t probes lb f (lb', none) :=
  ⟨nofun, fun _ => ⟨c, h⟩⟩

theorem drop_take_of_getElem? {l : List Int} {n i : Nat} {id : Int} (hi : i < n) (h : l[i]? = some id) :
    (l.take n).drop i = id :: (l.take n).drop (i + 1) := by
  obtain ⟨hl, rfl⟩ := List.getElem?_eq_some_iff.mp h
  rw [List.drop_eq_getElem_cons (by rw [List.length_take]; omega), List.getElem_take]

theorem online_updateAll (i : Nat) (xs : List Int) :
    (lb.updateAll probes i xs).1.online = lb.online :=
  congrArg Roster.active (LoadBalance.updateAll_lists probes i xs lb).1

/-- The first loop, from its beginning on. -/
theorem choose_eq (h : lb.online ≠ []) :
    lb.choose probes = if (lb.updateAll probes 0 lb.online).2 then
      scanned lb.online.length (lb.updateAll probes 0 lb.online).1
    else ((lb.updateAll probes 0 lb.online).1, .threw) := by
  obtain ⟨first, ids, e⟩ := List.exists_cons_of_ne_nil h
  have honline : (lb.updateAll probes 0 (first :: ids)).1.online = first :: ids :=
    (online_updateAll 0 _).trans e
  rw [LoadBalance.choose, scanned, e]
  dsimp only
  rw [honline]
  dsimp only
  rw [List.take_length]

theorem takesOff_choiceSize (h : choiceSize.step t lb p = some x) : TakesOff t probes lb .choiceSize x := by
  rw [step] at h
  split at h
  · next h0 =>
    cases h
    refine .next ?_
    rw [rest, rest, LoadBalance.choose, List.length_eq_zero_iff.mp h0]
  · next h0 =>
    cases h
    refine .next ?_
    rw [rest, rest, choose_eq fun e => h0 (List.length_eq_zero_iff.mpr e), List.take_length, List.drop_zero]
    split
    · rfl
    · rfl

theorem takesOff_probing {n i : Nat} (hp : p = probes i) (h : (probing n i).step t lb p = some x) :
    TakesOff t probes lb (.probing n i) x := by
  rw [step] at h
  split at h
  · next hi =>
    obtain ⟨id, hid, rfl⟩ := Option.map_eq_some_iff.mp h
    have hdrop := drop_take_of_getElem? hi hid
    split
    · next ht =>
      refine .last (c := some .threw) ?_
      rw [rest, hdrop, LoadBalance.updateAll, ← hp, ht]
      rfl
    · next ht =>
      refine .next ?_
      rw [rest, rest, hdrop, LoadBalance.updateAll, ← hp]
      cases p with
      | threw => exact absurd rfl ht
      | _ => rfl
  · next hi =>
    obtain ⟨id, hid, rfl⟩ := Option.map_eq_some_iff.mp h
    refine .next ?_
    have hnil : (lb.online.take n).drop i = [] := List.drop_eq_nil_of_le (by rw [List.length_take]; omega)
    rw [rest, rest, hnil, LoadBalance.updateAll, List.drop_zero, scanned]
    rcases e : lb.online with _ | ⟨first, ids⟩
    · rw [e] at hid
      cases hid
    · rw [e] at hid
      cases hid
      rfl

theorem takesOff_scanning {n i : Nat} {minLoad : UInt64} {id : Int} {m : Nat}
    (h : (scanning n i minLoad id m).step t lb p = some x) :
    TakesOff t probes lb (.scanning n i minLoad id m) x := by
  rw [step] at h
  split at h
  · next hi =>
    obtain ⟨y, hy, rfl⟩ := Option.map_eq_some_iff.mp h
    have hdrop := drop_take_of_getElem? hi hy
    split
    · next hlt =>
      refine .next ?_
      rw [rest, rest, hdrop, LoadBalance.scan, if_pos hlt]
    · next hlt =>
      refine .next ?_
      rw [rest, rest, hdrop, LoadBalance.scan, if_neg hlt]
  · next hi =>
    cases h
    have hnil : (lb.online.take n).drop i = [] := List.drop_eq_nil_of_le (by rw [List.length_take]; omega)
    refine .next ?_
    rw [rest, rest, hnil, LoadBalance.scan]

theorem takesOff_searching {which : Int} {i : Nat} (h : (searching which i).step t lb p = some x) :
    TakesOff t probes lb (.searching which i) x := by
  rw [step] at h
  split at h
  · next y hy =>
    cases h
    obtain ⟨hl, rfl⟩ := List.getElem?_eq_some_iff.mp hy
    have hdrop := List.drop_eq_getElem_cons hl
    refine .next ?_
    split
    · next e =>
      rw [rest, rest, takeFrom, hdrop, e, if_pos List.mem_cons_self, List.idxOf_cons_self, Nat.add_zero]
    · next hne =>
      have hidx : i + (lb.online[i] :: lb.online.drop (i + 1)).idxOf which =
          i + 1 + (lb.online.drop (i + 1)).idxOf which := by
        rw [List.idxOf_cons_ne _ hne]
        omega
      rw [rest, rest, takeFrom, takeFrom, hdrop, hidx]
      simp only [List.mem_cons, show which ≠ lb.online[i] from fun e => hne e.symm, false_or]
  · next hnone =>
    cases h
    refine .next ?_
    rw [rest, rest, takeFrom, List.drop_eq_nil_of_le (List.getElem?_eq_none_iff.mp hnone),
      if_neg List.not_mem_nil]

/-- The loop of `OfflineMachine` from its beginning on. -/
theorem takeFrom_zero (which : Int) : takeFrom which 0 lb = lb.takeOffline which := by
  rw [takeFrom, LoadBalance.takeOffline, List.drop_zero, Nat.zero_add,
    List.erase_eq_eraseIdx_of_idxOf rfl]

/-- What is left of an operation is what its next step and the rest after it do. -/
theorem rest_step {f : Frame} (hp : ∀ n i, f = .probing n i → p = probes i)
    (h : f.step t lb p = some x) : TakesOff t probes lb f x := by
  cases f with
  | choiceSize => exact takesOff_choiceSize h
  | probing n i => exact takesOff_probing (hp n i rfl) h
  | scanning => exact takesOff_scanning h
  | searching => exact takesOff_searching h
  | choiceLock =>
    obtain ⟨lb', hl, rfl⟩ := Option.map_eq_some_iff.mp h
    refine .next ?_
    rw [rest, rest, LoadBalance.smartChoice, hl]
    rfl
  | offlineLock which =>
    obtain ⟨lb', hl, rfl⟩ := Option.map_eq_some_iff.mp h
    refine .next ?_
    rw [rest, rest, LoadBalance.offlineMachine, hl, takeFrom_zero]
    rfl
  | onlineLock =>
    obtain ⟨lb', hl, rfl⟩ := Option.map_eq_some_iff.mp h
    refine .next ?_
    rw [rest, rest, LoadBalance.onlineMachine, hl]
    rfl
  | showLock =>
    obtain ⟨lb', hl, rfl⟩ := Option.map_eq_some_iff.mp h
    refine .next ?_
    rw [rest, rest, LoadBalance.showMachines, hl]
    rfl
  | resetting | erasing | pushing | inserting | clearing =>
    cases h
    exact .next rfl
  | showOnline | showOffline =>
    cases h
    refine .next ?_
    split
    · rfl
    · rfl
  | choiceUnlock | offlineUnlock | onlineUnlock | showUnlock =>
    cases h
    exact .last rfl

/-- The steps of an operation when no other thread does anything. -/
def alone (t : Nat) (x : LoadBalance × Option Frame) (p : Probe) : Option (LoadBalance × Option Frame) :=
  x.2.bind fun f => f.step t x.1 p

/-- An operation in its steps, without a signal, does what it does in one. -/
theorem rest_of_run {f : Frame} {ps : List Probe} {lb' : LoadBalance}
    (h : Run (alone t) (fun x p => ∀ n i, x.2 = some (.probing n i) → p = probes i) (lb, some f) ps
      (lb', none)) : ∃ c, rest t probes lb f = some (lb', c) := by
  generalize hx : (lb, some f) = x at h
  generalize hy : (lb', (none : Option Frame)) = y at h
  induction h generalizing lb f with
  | nil => cases hx.trans hy.symm
  | @cons s s₁ y p ps hp hs h ih =>
    subst hx
    obtain ⟨hnext, hlast⟩ := rest_step (fun n i e => hp n i (congrArg some e)) hs
    obtain ⟨lb₁, _ | g⟩ := s₁
    · -- the operation has ended, and there is no further step
      cases h with
      | nil =>
        cases hy
        exact hlast rfl
      | cons _ hs' _ => cases hs'
    · rw [← hnext g rfl]
      exact ih rfl hy
end

end Frame

/-- The operations, and `Recovery`, once `ctrl_ptr` is set. -/
def recovery : Code LoadBalance Frame Probe where
  step := Frame.step
  begins := Frame.begins
  handler := .onlineLock

/-- The lock of the load balancer. -/
def balancerLock : Lock recovery where
  owner := LoadBalance.mtx
  takes f := f.begins = true
  past f := f.past = true
  owner_step := Frame.mtx_of_step
  takes_handler := rfl
  past_handler {_ _ a _} h := Frame.past_of_onlineLock (p := a) h
  past_step := Frame.past_of_past
  not_takes {f} hp ht := by
    cases f with
    | inserting | clearing | onlineUnlock => cases ht
    | _ => cases hp

/-- Threads that run nothing. -/
def idle (lb : LoadBalance) (n : Nat) : Interrupted LoadBalance Frame :=
  ⟨lb, List.replicate n ⟨none, none⟩⟩

/-- `Recovery` never tries to take the lock that its thread holds iff no signal
is delivered to a thread that holds it. -/
theorem recovery_iff {lb : LoadBalance} {n : Nat} {es : List (Signalled Frame Probe)}
    {s : Interrupted LoadBalance Frame} (h : Run (Interrupted.step recovery) Free (idle lb n) es s) :
    (∀ es₁ es₂ s₁, es = es₁ ++ es₂ → Run (Interrupted.step recovery) Free (idle lb n) es₁ s₁ →
      ¬ balancerLock.Relocks s₁) ↔
      Run (Interrupted.step recovery) balancerLock.Spares (idle lb n) es s := by
  refine Lock.relocks_iff (fun th hth => ?_) h
  rw [List.eq_of_mem_replicate hth]

/-- `SmartChoice` has the lock, and the signal is delivered to another thread. -/
theorem recovery_iff_other : ∃ s, Run (Interrupted.step recovery) Free (idle .oneMachine 2)
      [.begin 0 .choiceLock, .run 0 .failed, .run 0 .failed, .signal 1] s ∧ ¬ balancerLock.Relocks s := by
  obtain ⟨s, h⟩ : ∃ s, Run (Interrupted.step recovery) balancerLock.Spares (idle .oneMachine 2)
      [.begin 0 .choiceLock, .run 0 .failed, .run 0 .failed, .signal 1] s := by
    refine ⟨_, .cons nofun rfl (.cons nofun rfl (.cons nofun rfl (.cons ?_ rfl (.nil _))))⟩
    rintro t ⟨⟩
    exact nofun
  have hfree := h.mono (D := Free) fun _ _ _ => trivial
  exact ⟨s, hfree, (recovery_iff hfree).mpr h _ [] s (by simp) hfree⟩

/-- While `SmartChoice` asks a machine for its status, a signal to its thread
makes it wait for itself. -/
theorem not_recovery : ∃ s, Run (Interrupted.step recovery) Free (idle .oneMachine 1)
      [.begin 0 .choiceLock, .run 0 .failed, .run 0 .failed, .signal 0] s ∧ balancerLock.Relocks s ∧
    s.threads = [⟨some (.probing 1 0), some .onlineLock⟩] ∧
    ∀ e, s.step recovery e = none := by
  refine ⟨_, .cons trivial rfl (.cons trivial rfl (.cons trivial rfl (.cons trivial rfl (.nil _)))), ?_,
    rfl, fun e => ?_⟩
  · exact ⟨0, _, _, rfl, rfl, rfl, rfl⟩
  · cases e with
    | begin t => cases t <;> rfl
    | run t => cases t <;> rfl
    | signal t => cases t <;> rfl

end OJ.Server
