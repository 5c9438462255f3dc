import DistributedOj.OjServer.RetryEnds

/-!
# Backends that are up or down

Where every backend either answers each POST with 200 or gives none a response,
no status throws and no thread recovers machines, the calls of `Judge` end
(`judge_upDown`): none posts to a machine twice, none takes a machine offline
that is up, and each that begins with such a machine online returns the body
of one.
-/

namespace OJ.Server

open OJ.Comm OJ.Framework

/-- The outcome of a POST to each backend, where those in `up` are up. -/
def upDown (up : Nat → Bool) (m : Nat) : Outcome := if up m then .ok else .noResponse

/-- The backends in `up` answer with 200 and the others not at all, no status
throws, and no thread recovers machines. -/
def UpDown (up : Nat → Bool) (s : Sys) (e : Event) : Prop := Answers (upDown up) s e ∧ NoThrow s e

instance (up : Nat → Bool) (s : Sys) (e : Event) : Decidable (UpDown up s e) :=
  inferInstanceAs (Decidable (_ ∧ _))

/-- The machines that are down, of `n`. -/
def downs (up : Nat → Bool) (n : Nat) : List Nat := (List.range n).filter fun m => ! up m

variable {up : Nat → Bool}

theorem upDown_eq_ok {m : Nat} : upDown up m = .ok ↔ up m = true := by
  unfold upDown
  split <;> simp_all

theorem upDown_ne_badStatus (m : Nat) : upDown up m ≠ .badStatus := by
  unfold upDown
  split <;> decide

theorem upDown_eq_noResponse {m : Nat} : upDown up m = .noResponse ↔ up m = false := by
  unfold upDown
  split <;> simp_all

namespace Sys

theorem Good.start_upDown {lb : LoadBalance} (hl : lb.Listed) (hm : lb.mtx = none)
    (reqs : List Str) (up : Nat → Bool) :
    (Sys.start lb reqs).Good (upDown up) ∧ (Sys.start lb reqs).NoneThrew :=
  ⟨Good.start hl hm (fun _ _ => upDown_ne_badStatus _) reqs,
    fun _ _ hc => by rw [(start_calls hc).1]; nofun⟩

theorem Good.run_upDown {s s' : Sys} {es : List Event}
    (h : s.Good (upDown up) ∧ s.NoneThrew) (hr : Run Sys.step (UpDown up) s es s') :
    s'.Good (upDown up) ∧ s'.NoneThrew :=
  hr.inv (I := fun s => s.Good (upDown up) ∧ s.NoneThrew)
    (fun _ _ _ h hC hs => ⟨h.1.step hC.1 hs, h.2.step hC.2 hs⟩) h

theorem Tried.run_upDown {L : List Int} {t : Nat} {s s' : Sys} {es : List Event}
    (h : s.Tried (upDown up) L t []) (hr : Run Sys.step (UpDown up) s es s') :
    s'.Tried (upDown up) L t es :=
  hr.inv_trace (I := fun es s => s.Tried (upDown up) L t es)
    (fun _ _ _ _ h hC hs => h.step hC.1 hs) h

/-- An up machine stays online. -/
theorem Good.online_upDown {s s' : Sys} {es : List Event} (h : s.Good (upDown up))
    (hr : Run Sys.step (UpDown up) s es s') {m : Nat} (hm : up m = true)
    (ho : (m : Int) ∈ s.lb.online) : (m : Int) ∈ s'.lb.online := by
  have ok := upDown_eq_ok.mpr hm
  exact ((h.spares ok).run (fun _ _ hC => responds_of_answers hC.1 ok) hr).2 ho

/-- One post more than there are machines down. -/
theorem Tried.length_le_downs {L : List Int} {t n : Nat} {s : Sys} {es : List Event} {c : Call}
    (h : s.Tried (upDown up) L t es) (hL : ∀ x ∈ L, x ∈ ids n) (hc : s.calls[t]? = some c) :
    (posts t es).length ≤ (downs up n).length + 1 := by
  have hsub : (posts t es).dropLast ⊆ downs up n := fun m hm => by
    have hid := mem_ids.mp (hL _ (h.subset m (List.dropLast_subset _ hm)))
    have hd := upDown_eq_noResponse.mp (h.dropLast hc m hm)
    exact List.mem_filter.mpr ⟨List.mem_range.mpr hid.2, by rw [hd]; rfl⟩
  have hn : (posts t es).dropLast.Nodup := h.nodup.sublist (List.dropLast_sublist _)
  have := (List.subperm_of_subset hn hsub).length_le
  rw [List.length_dropLast] at this
  omega

/-- How a call ends: with the body of an up machine, or untouched with all
machines offline. -/
theorem Tried.done {L : List Int} {t : Nat} {s : Sys} {es : List Event} {c : Call}
    (h : s.Tried (upDown up) L t es) (hc : s.calls[t]? = some c) (hd : c.pc = .done) :
    (c.outJson = none ∧ s.lb.online = []) ∨ ∃ m, up m = true ∧ Served t c es m := by
  have ht := h.tried c hc
  unfold Call.Tried at ht
  rw [hd] at ht
  obtain ⟨-, ho, h0⟩ | ⟨ps, m, -, -, hm, hs⟩ := ht
  · exact .inl ⟨ho, h0⟩
  · exact .inr ⟨m, upDown_eq_ok.mp hm, hs⟩

end Sys

/-- Along any run from calls that have not begun: (a) an up machine stays
online; (b) a call posts to each machine at most once, and at most once more
than there are machines down; the calls end, and (c) one that begins with an
up machine online ends with the body of an up machine; (d) one that ends with
`*out_json` untouched leaves no up machine online. -/
theorem judge_upDown {lb : LoadBalance} (hl : lb.Listed) (hm : lb.mtx = none) (reqs : List Str)
    (up : Nat → Bool) {s₁ s₂ : Sys} {es₁ es₂ : List Event}
    (h₁ : Run Sys.step (UpDown up) (Sys.start lb reqs) es₁ s₁)
    (h₂ : Run Sys.step (UpDown up) s₁ es₂ s₂) :
    (∀ m : Nat, up m = true → (m : Int) ∈ s₁.lb.online → (m : Int) ∈ s₂.lb.online) ∧
    (∀ (t : Nat) (c : Call), s₂.calls[t]? = some c → (posts t (es₁ ++ es₂)).Nodup ∧
      (posts t (es₁ ++ es₂)).length ≤ (downs up lb.machines.length).length + 1) ∧
    Ends Sys.step (UpDown up) s₂ Sys.Done ∧
    (∀ (t : Nat) (c : Call), (∀ c, s₁.calls[t]? = some c → c.Fresh) →
      (∃ m : Nat, up m = true ∧ (m : Int) ∈ s₁.lb.online) →
      s₂.calls[t]? = some c → c.pc = .done → ∃ m, up m = true ∧ Served t c es₂ m) ∧
    (∀ (t : Nat) (c : Call), s₂.calls[t]? = some c → c.pc = .done → c.outJson = none →
      ∀ m : Nat, up m = true → (m : Int) ∉ s₂.lb.online) := by
  have h₀ := Sys.Good.start_upDown hl hm reqs up
  have g₁ := Sys.Good.run_upDown h₀ h₁
  have g₂ := Sys.Good.run_upDown g₁ h₂
  have tried (t : Nat) : s₂.Tried (upDown up) lb.online t (es₁ ++ es₂) :=
    (Sys.Tried.begin h₀.1 fun _ => Sys.start_calls).run_upDown (h₁.append h₂)
  refine ⟨fun m => g₁.1.online_upDown h₂, fun t c hc => ?_, g₂.1.ends g₂.2, ?_, ?_⟩
  · exact ⟨(tried t).nodup,
      (tried t).length_le_downs (fun x hx => mem_ids.mpr (hl.mem_ids hx)) hc⟩
  · intro t c hbegin ⟨m, hm, hon⟩ hc hd
    have ht := (Sys.Tried.begin g₁.1 hbegin).run_upDown h₂
    obtain ⟨-, h0⟩ | hs := ht.done hc hd
    · exact absurd (g₁.1.online_upDown h₂ hm hon) (h0 ▸ List.not_mem_nil)
    · exact hs
  · intro t c hc hd ho m _
    obtain ⟨-, h0⟩ | ⟨m, -, r, -, -, hr⟩ := (tried t).done hc hd
    · rw [h0]; exact List.not_mem_nil
    · rw [ho] at hr; cases hr

/-- A call that fails on machine 0 and goes on to machine 1. -/
def failover : List Event :=
  [.tau, .probe 0 .failed, .probe 1 .failed, .tau, .tau, .tau, .tau, .tau, .post 0 [] none,
    .tau, .tau, .tau, .probe 1 .failed, .tau, .tau, .tau, .tau,
    .post 1 [] (some ⟨200, "ok".toList⟩), .tau].map (.call 0)

theorem judge_upDown_failover : ∃ s c, Run Sys.step (UpDown (· == 1)) (.start LoadBalance.twoMachines [[]])
    failover s ∧ s.calls[0]? = some c ∧ (posts 0 failover).length ≤ 2 ∧
    ∃ m, (m == 1) = true ∧ Served 0 c failover m := by
  have h : Run Sys.step (UpDown (· == 1)) (.start LoadBalance.twoMachines [[]]) failover
      ⟨⟨LoadBalance.twoMachines.machines, [1], [0], none⟩, [⟨[], .done, some "ok".toList⟩]⟩ :=
    .of_replay (by decide)
  obtain ⟨-, hb, -, hc, -⟩ := judge_upDown
    (show LoadBalance.twoMachines.Listed from LoadBalance.listed_new.loadConf _) (by decide) [[]] _ (.nil _) h
  exact ⟨_, ⟨[], .done, some "ok".toList⟩, h, rfl, (hb 0 _ rfl).2,
    hc 0 _ (fun _ => Sys.start_calls) ⟨1, rfl, by decide⟩ rfl rfl⟩

end OJ.Server
