import DistributedOj.OjServer.Choice
import DistributedOj.OjServer.Judge
import DistributedOj.Framework.Threads

/-!
# A call of `Judge` on its own

The steps that a call takes while no other thread does (`Call.solo`) are steps
of the system (`Sys.run_of_solo`), and `SmartChoice` in one piece is a run of
them (`smartChoice_solo`): the loops of the one, index by index, are the
recursions of the other.
-/

namespace OJ.Server

open OJ.Comm OJ.Framework

/-- A step of call `t`, with the load balancer. -/
def Call.solo (t : Nat) (x : LoadBalance × Call) (a : Act) : Option (LoadBalance × Call) :=
  x.2.step t x.1 a

/-- A step that is no POST. -/
def Act.Quiet : Act → Prop
  | .post .. => False
  | _ => True

/-- A run of a call on its own without a POST. -/
abbrev Call.Solo (t : Nat) := Run (Call.solo t) fun _ a => a.Quiet

theorem CallStep.solo_cons {t : Nat} {lb lb₁ : LoadBalance} {c c₁ : Call} {a : Act}
    {as : List Act} {y : LoadBalance × Call} (h : CallStep t lb c a lb₁ c₁) (ha : a.Quiet)
    (hr : Call.Solo t (lb₁, c₁) as y) : Call.Solo t (lb, c) (a :: as) y :=
  .cons ha h.to_step hr

/-- A run of a call is one of the system. -/
theorem Sys.run_of_solo {t : Nat} {C : Sys → Event → Prop} {D : LoadBalance × Call → Act → Prop}
    (hD : ∀ x a, D x a → ∀ s, C s (.call t a)) {x y : LoadBalance × Call} {as : List Act}
    (h : Run (Call.solo t) D x as y) {calls : List Call} (hc : calls[t]? = some x.2) :
    Run Sys.step C ⟨x.1, calls⟩ (as.map (.call t)) ⟨y.1, calls.set t y.2⟩ := by
  induction h generalizing calls with
  | nil x =>
    obtain ⟨ht, hc⟩ := List.getElem?_eq_some_iff.mp hc
    rw [← hc, List.set_getElem_self]
    exact .nil _
  | @cons x x₁ y a as hCa hs _ ih =>
    have := ih (getElem?_set_self_of_some hc (y := x₁.2))
    rw [List.set_set] at this
    exact .cons (hD _ _ hCa _) (Sys.step_call (s := ⟨x.1, calls⟩) hc (.of_step hs)) this

namespace LoadBalance

theorem getElem?_of_drop {xs l : List Int} {x : Int} {i : Nat} (h : l.drop i = x :: xs) :
    i < l.length ∧ l[i]? = some x ∧ l.drop (i + 1) = xs := by
  have hi : i < l.length := by
    by_contra hi
    rw [List.drop_eq_nil_of_le (Nat.le_of_not_lt hi)] at h
    cases h
  rw [List.drop_eq_getElem_cons hi] at h
  obtain ⟨rfl, rfl⟩ := List.cons.inj h
  exact ⟨hi, List.getElem?_eq_getElem hi, rfl⟩

/-- The first loop of `SmartChoice`. -/
theorem updateAll_solo (t : Nat) (probes : Nat → Probe) {xs : List Int} {i : Nat}
    (lb : LoadBalance) (c : Call) (hxs : lb.online.drop i = xs) (hi : i ≤ lb.online.length) :
    ∃ as, Call.Solo t (lb, { c with pc := .probing lb.online.length i }) as
      ((lb.updateAll probes i xs).1,
        { c with pc := if (lb.updateAll probes i xs).2 then
          .probing lb.online.length lb.online.length else .threw }) := by
  induction xs generalizing i lb with
  | nil =>
    obtain rfl : i = lb.online.length := Nat.le_antisymm hi (List.drop_eq_nil_iff.mp hxs)
    exact ⟨[], .nil _⟩
  | cons id xs ih =>
    obtain ⟨hi, hid, hxs⟩ := getElem?_of_drop hxs
    by_cases hp : probes i = .threw
    · have e : lb.updateAll probes i (id :: xs) = (lb, false) := by rw [updateAll, hp]
      rw [e]
      exact ⟨_, (CallStep.probeThrew rfl hi hid).solo_cons trivial (.nil _)⟩
    · have e : lb.updateAll probes i (id :: xs) =
          (lb.modify id.toNat (·.updateStatus (probes i))).updateAll probes (i + 1) xs := by
        rw [updateAll]
        split
        · next h => exact absurd h hp
        · rfl
      obtain ⟨as, h⟩ := ih (lb.modify id.toNat (·.updateStatus (probes i))) hxs hi
      rw [e]
      exact ⟨_, (CallStep.probe rfl hi hid hp).solo_cons trivial h⟩

/-- The second loop of `SmartChoice`. -/
theorem scan_solo (t : Nat) {xs : List Int} {i : Nat} (minLoad : UInt64) (id : Int) (m : Nat)
    {lb : LoadBalance} (c : Call) (hxs : lb.online.drop i = xs) (hi : i ≤ lb.online.length) :
    ∃ as, ∃ l : UInt64, Call.Solo t
      (lb, { c with pc := .scanning lb.online.length i minLoad id m }) as
      (lb, { c with
        pc := .scanning lb.online.length lb.online.length l
          (lb.scan xs minLoad id m).1 (lb.scan xs minLoad id m).2 }) := by
  induction xs generalizing i minLoad id m with
  | nil =>
    obtain rfl : i = lb.online.length := Nat.le_antisymm hi (List.drop_eq_nil_iff.mp hxs)
    exact ⟨[], _, .nil _⟩
  | cons x xs ih =>
    obtain ⟨hi, hx, hxs⟩ := getElem?_of_drop hxs
    rw [scan]
    split
    · next hl =>
      obtain ⟨as, l, h⟩ := ih (lb.load x.toNat) x x.toNat hxs hi
      exact ⟨_, l, (CallStep.better rfl hi hx hl).solo_cons trivial h⟩
    · next hl =>
      obtain ⟨as, l, h⟩ := ih minLoad id m hxs hi
      exact ⟨_, l, (CallStep.worse rfl hi hx hl).solo_cons trivial h⟩

end LoadBalance

/-- Where a call is after `SmartChoice`. -/
def Choice.pc : Choice → Pc
  | .found id m => .chosen id m
  | .allOffline => .done
  | .threw => .threw

/-- `SmartChoice` in one piece is a run of the steps of a call. -/
theorem LoadBalance.smartChoice_solo {t : Nat} {probes : Nat → Probe} {lb lb' : LoadBalance}
    {c : Call} {r : Choice} (hpc : c.pc = .choose)
    (h : lb.smartChoice t probes = some (lb', r)) :
    ∃ as, Call.Solo t (lb, c) as (lb', { c with pc := r.pc }) := by
  simp only [smartChoice, Option.map_eq_some_iff, lock_eq_some] at h
  obtain ⟨_, ⟨hm, rfl⟩, h⟩ := h
  unfold choose at h
  split at h
  · next h0 =>
    cases h
    rw [unlock_lock hm]
    exact ⟨_, (CallStep.giveUp hpc hm h0).solo_cons trivial (.nil _)⟩
  · next first rest h0 =>
    have h0 : lb.online = first :: rest := h0
    have enter := CallStep.enter (t := t) hpc hm (by rw [h0]; exact List.cons_ne_nil _ _)
    obtain ⟨as, h₁⟩ := updateAll_solo t probes { lb with mtx := some t } c List.drop_zero
      (Nat.zero_le _)
    have hl := updateAll_lists probes 0 lb.online { lb with mtx := some t }
    dsimp only at h h₁
    split at h
    · next hok =>
      rw [if_pos hok] at h₁
      cases h
      generalize updateAll probes 0 lb.online { lb with mtx := some t } = r at *
      have ho : r.1.online = lb.online := congrArg Roster.active hl.1
      have hf : r.1.online[0]? = some first := by rw [ho, h0]; rfl
      obtain ⟨bs, l, h₂⟩ := scan_solo t (r.1.load first.toNat) first first.toNat c
        (List.drop_zero.trans ho) (Nat.zero_le _)
      rw [ho] at h₂
      have first : CallStep t r.1 { c with pc := .probing lb.online.length lb.online.length } .tau _ _ :=
        .first rfl (Nat.le_refl _) hf
      have leave (k : Int × Nat) : CallStep t r.1
          { c with pc := .scanning lb.online.length lb.online.length l k.1 k.2 } .tau _ _ :=
        .leave rfl (Nat.le_refl _)
      exact ⟨_, enter.solo_cons trivial (h₁.append (first.solo_cons trivial (h₂.append
        ((leave _).solo_cons trivial (.nil _)))))⟩
    · next hok =>
      rw [if_neg hok] at h₁
      cases h
      exact ⟨_, enter.solo_cons trivial h₁⟩

end OJ.Server
