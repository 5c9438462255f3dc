import DistributedOj.OjServer.JudgeInv

/-!
# Submissions that take longer than the client waits

`cli.Post` gives no response where connecting fails, or where the answer takes
longer than the read timeout of the HTTP client. A backend compiles and runs a
submission before it answers, and waits for both without a bound: `RLIMIT_CPU`
counts the time on the CPU only. So a program that sleeps is a missing response
to `Judge`, which takes one backend after the other offline for it
(`sleeper_empties`). A backend that answers each submission in time stays
online (`online_of_timely`).
-/

namespace OJ.Server

open OJ.Comm OJ.Framework

/-- The time that a submission takes a backend: `g++`, the program on the CPU,
and the program asleep or waiting for input. -/
structure Work where
  compileMs : Nat
  cpuMs : Nat
  idleMs : Nat

namespace Work

/-- `RLIMIT_CPU`, which `SetProcLimit` sets to `cpu_limit` seconds. -/
def Limited (cpuLimit : Nat) (w : Work) : Prop := w.cpuMs ≤ 1000 * cpuLimit

def ms (w : Work) : Nat := w.compileMs + w.cpuMs + w.idleMs

end Work

/-- `CPPHTTPLIB_READ_TIMEOUT_SECOND`, in milliseconds. -/
def readTimeout : Nat := 5000

/-- `cli.Post` to a backend that takes the connection and answers after `ms`
milliseconds. -/
def Client.post (ms : Nat) (res : Response) : Option Response :=
  if ms ≤ readTimeout then some res else none

/-- Backend `m` takes every connection and in the end answers every submission
with 200. `Judge` sees the response only, so the work is any that it can be the
response to. -/
def Live (cpuLimit m : Nat) (_ : Sys) : Event → Prop
  | .call _ (.post k _ res) => k = m →
    ∃ w : Work, ∃ body, w.Limited cpuLimit ∧ res = Client.post w.ms ⟨200, body⟩
  | _ => True

/-- And it does so within the read timeout: of the work again only the response
is seen, which is there. -/
def Timely (m : Nat) (_ : Sys) : Event → Prop
  | .call _ (.post k _ res) => k = m →
    ∃ w : Work, ∃ body, w.ms ≤ readTimeout ∧ res = Client.post w.ms ⟨200, body⟩
  | _ => True

theorem Timely.responds {m : Nat} {s : Sys} {e : Event} (h : Timely m s e) : Sys.Responds m s e := by
  cases e with
  | recover => trivial
  | call t a =>
    cases a with
    | tau | probe => trivial
    | post k req res =>
      intro hk
      obtain ⟨w, body, hw, rfl⟩ := h hk
      rw [Client.post, if_pos hw]
      rfl

/-- A backend that answers every submission with 200 within the read timeout is
never taken offline, whatever the other backends and the submissions are. -/
theorem online_of_timely {lb : LoadBalance} (hl : lb.Listed) (hm : lb.mtx = none)
    (reqs : List Str) {m : Nat} {s₁ s₂ : Sys} {es₁ es₂ : List Event}
    (h₁ : Run Sys.step (Timely m) (.start lb reqs) es₁ s₁) (ho : (m : Int) ∈ s₁.lb.online)
    (h₂ : Run Sys.step (Timely m) s₁ es₂ s₂) :
    (m : Int) ∈ s₂.lb.online ∧ (m : Int) ∉ s₂.lb.offline := by
  have hs₁ := ((Sys.Spares.start hl hm reqs m).run (fun _ _ => Timely.responds) h₁).1
  obtain ⟨hs₂, hon⟩ := hs₁.run (fun _ _ => Timely.responds) h₂
  exact ⟨hon ho, hs₂.listed.notMem_offline (hon ho)⟩

/-! ## A program that sleeps -/

/-- Every backend spends `w` on every submission. -/
def Spends (w : Work) (_ : Sys) : Event → Prop
  | .call _ (.post _ _ res) => res = Client.post w.ms ⟨200, []⟩
  | _ => True

instance (w : Work) (s : Sys) (e : Event) : Decidable (Spends w s e) :=
  match e with
  | .call _ (.post _ _ res) => inferInstanceAs (Decidable (res = _))
  | .call _ .tau | .call _ (.probe ..) | .recover _ => isTrue trivial

theorem Spends.live {w : Work} {cpuLimit m : Nat} (hw : w.Limited cpuLimit) {s : Sys} {e : Event}
    (h : Spends w s e) : Live cpuLimit m s e := by
  cases e with
  | recover => trivial
  | call t a =>
    cases a with
    | tau | probe => trivial
    | post => exact fun _ => ⟨w, [], hw, h⟩

theorem Spends.timely {w : Work} {m : Nat} (hw : w.ms ≤ readTimeout) {s : Sys} {e : Event}
    (h : Spends w s e) : Timely m s e := by
  cases e with
  | recover => trivial
  | call t a =>
    cases a with
    | tau | probe => trivial
    | post => exact fun _ => ⟨w, [], hw, h⟩

/-- A program that sleeps for six seconds. -/
def sleep : Work := ⟨1000, 0, 6000⟩

/-- A call that submits it, with two machines. -/
def sleeper : List Event :=
  [.tau, .probe 0 .failed, .probe 1 .failed, .tau, .tau, .tau, .tau, .tau, .post 0 [] none,
    .tau, .tau, .tau, .probe 1 .failed, .tau, .tau, .tau, .tau, .post 1 [] none,
    .tau, .tau, .tau].map (.call 0)

theorem sleeper_empties : sleep.Limited 1 ∧ ∃ s,
    Run Sys.step (fun s e => ∀ m, Live 1 m s e) (.start LoadBalance.twoMachines [[]]) sleeper s ∧
    LoadBalance.twoMachines.online = [0, 1] ∧ s.lb.online = [] ∧ s.lb.offline = [0, 1] := by
  have hw : sleep.Limited 1 := show 0 ≤ 1000 * 1 by decide
  have h : Run Sys.step (Spends sleep) (.start LoadBalance.twoMachines [[]]) sleeper
      ⟨⟨LoadBalance.twoMachines.machines, [], [0, 1], none⟩, [⟨[], .done, none⟩]⟩ :=
    .of_replay (by decide)
  exact ⟨hw, _, h.mono fun _ _ h _ => h.live hw, by decide, rfl, rfl⟩

theorem online_of_timely_one : ∃ s, Run Sys.step (Timely 0) (.start LoadBalance.oneMachine [[]])
    ([.tau, .probe 0 .failed, .tau, .tau, .tau, .tau, .post 0 [] (some ⟨200, []⟩)].map (.call 0)) s ∧
    0 ∈ s.lb.online := by
  have h : Run Sys.step (Spends ⟨1000, 0, 0⟩) (.start LoadBalance.oneMachine [[]])
      ([.tau, .probe 0 .failed, .tau, .tau, .tau, .tau, .post 0 [] (some ⟨200, []⟩)].map (.call 0))
      ⟨⟨[⟨"127.0.0.1".toList, 8181, 1⟩], [0], [], none⟩, [⟨[], .answered 0 0 false, some []⟩]⟩ :=
    .of_replay (by decide)
  have h : Run Sys.step (Timely 0) _ _ _ := h.mono fun _ _ h => h.timely (by decide)
  exact ⟨_, h, (online_of_timely (LoadBalance.listed_new.loadConf _) (by decide) [[]]
    (.nil _) (by decide) h).1⟩

end OJ.Server
