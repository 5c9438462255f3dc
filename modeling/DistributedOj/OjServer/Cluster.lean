import DistributedOj.CompileServer.Host
import DistributedOj.Framework.Simulation
import DistributedOj.OjServer.RetryEnds

/-!
# The whole system

The calls of `Judge` (`Sys`) together with the compile servers that they post
to. A POST is on its way until a machine takes it, which may be after its
sender has given it up; a call waits for the last POST that it has made
(`flights`). Its response is what the handler of `/compile_and_run` makes of
the body: it comes back (`reply`), or the call sees a failure or a bad status
in its place (`drop`).

`ClusterStep` lists the steps. Seen from the calls of `Judge`, a run is one of
`Sys` (`Cluster.front_run`).
-/

namespace OJ.Server

open OJ.Comm OJ.Framework OJ.CompileServer

/-- Where a POST is: on its way, with the `k`-th call of `Start` of its machine,
or answered by the handler itself. -/
inductive Stage where
  | sent
  | working (k : Nat)
  | answered (r : Response)
  deriving DecidableEq

/-- A POST that a call has made to a machine. -/
structure Post where
  call : Nat
  machine : Nat
  body : Str
  stage : Stage

/-- The calls of `Judge`, all POSTs that they have made, the one that each call
waits for, and the compile servers. -/
structure Cluster where
  front : Sys
  posts : List Post
  flights : Nat → Option Nat
  hosts : Nat → Host

inductive ClusterEvent where
  /-- A step of the `oj_server` that is not the end of a POST. -/
  | front (e : Event)
  | send (t : Nat)
  /-- A machine takes a POST; `UniqFileName` would return `name`. -/
  | receive (i : Nat) (name : Str) (o : Outcomes)
  /-- The `k`-th call of `Start` of a machine goes on. -/
  | work (m k : Nat)
  | reply (t : Nat)
  | drop (t : Nat) (res : Option Response)

/-- The machine that a call posts to. -/
def Pc.target : Pc → Option Nat
  | .posting _ m => some m
  | _ => none

def Event.isPost : Event → Bool
  | .call _ (.post ..) => true
  | _ => false

/-- The response to a POST, once there is one. -/
def Post.response (hosts : Nat → Host) (p : Post) : Option Response :=
  match p.stage with
  | .sent => none
  | .answered r => some r
  | .working k => do
    let j ← (hosts p.machine).2[k]?
    match j.pc with
    | .done outJson => some ⟨200, outJson⟩
    | _ => none

namespace Cluster

/-- Calls that post `reqs`, before their loops, and machines with these files. -/
def start (lb : LoadBalance) (reqs : List Str) (fs : Nat → Fs) : Cluster :=
  ⟨.start lb reqs, [], fun _ => none, fun m => (fs m, [])⟩

/-- `cli.Post` returns `res` to call `t`. -/
def returnTo (s : Cluster) (t : Nat) (res : Option Response) : Option Cluster := do
  let c ← s.front.calls[t]?
  let m ← c.pc.target
  let front ← s.front.step (.call t (.post m c.compileString res))
  return { s with front := front, flights := Function.update s.flights t none }

def step (J : JsonReader) (T : Toolchain) (s : Cluster) : ClusterEvent → Option Cluster
  | .front e => if e.isPost then none else (s.front.step e).map ({ s with front := · })
  | .send t => do
    let c ← s.front.calls[t]?
    let m ← c.pc.target
    if s.flights t = none then
      some { s with
        posts := s.posts ++ [⟨t, m, c.compileString, .sent⟩]
        flights := Function.update s.flights t (some s.posts.length) }
    else none
  | .receive i name o => do
    let p ← s.posts[i]?
    if p.stage = .sent then
      match receive J p.body name o with
      | .answered r => some { s with posts := s.posts.set i { p with stage := .answered r } }
      | .started j =>
        let h := s.hosts p.machine
        some { s with
          posts := s.posts.set i { p with stage := .working h.2.length }
          hosts := Function.update s.hosts p.machine (h.1, h.2 ++ [j]) }
    else none
  | .work m k => (sharedStep (Job.step T) (s.hosts m) k).map fun h =>
    { s with hosts := Function.update s.hosts m h }
  | .reply t => do
    let i ← s.flights t
    let p ← s.posts[i]?
    let r ← p.response s.hosts
    s.returnTo t (some r)
  | .drop t res => if res.all (·.status ≠ 200) then s.returnTo t res else none

end Cluster

theorem Pc.target_eq_some {pc : Pc} {m : Nat} : pc.target = some m ↔ ∃ id, pc = .posting id m := by
  cases pc <;> simp [target]

/-- What a step of the whole system does. -/
inductive ClusterStep (J : JsonReader) (T : Toolchain) (s : Cluster) : ClusterEvent → Cluster → Prop
  | front {e : Event} {front : Sys} : e.isPost = false → s.front.step e = some front →
      ClusterStep J T s (.front e) { s with front := front }
  | send {t m : Nat} {c : Call} {id : Int} : s.front.calls[t]? = some c → c.pc = .posting id m →
      s.flights t = none →
      ClusterStep J T s (.send t) { s with
        posts := s.posts ++ [⟨t, m, c.compileString, .sent⟩]
        flights := Function.update s.flights t (some s.posts.length) }
  | answer {i : Nat} {name : Str} {o : Outcomes} {p : Post} {r : Response} : s.posts[i]? = some p →
      p.stage = .sent → receive J p.body name o = .answered r →
      ClusterStep J T s (.receive i name o)
        { s with posts := s.posts.set i { p with stage := .answered r } }
  | start {i : Nat} {name : Str} {o : Outcomes} {p : Post} {j : Job} : s.posts[i]? = some p →
      p.stage = .sent → receive J p.body name o = .started j →
      ClusterStep J T s (.receive i name o) { s with
        posts := s.posts.set i { p with stage := .working (s.hosts p.machine).2.length }
        hosts := Function.update s.hosts p.machine
          ((s.hosts p.machine).1, (s.hosts p.machine).2 ++ [j]) }
  | work {m k : Nat} {h : Host} : sharedStep (Job.step T) (s.hosts m) k = some h →
      ClusterStep J T s (.work m k) { s with hosts := Function.update s.hosts m h }
  | reply {t i : Nat} {id : Int} {c : Call} {p : Post} {m : Nat} {r : Response} {front : Sys} :
      s.front.calls[t]? = some c → c.pc = .posting id m → s.flights t = some i →
      s.posts[i]? = some p → p.response s.hosts = some r →
      s.front.step (.call t (.post m c.compileString (some r))) = some front →
      ClusterStep J T s (.reply t)
        { s with front := front, flights := Function.update s.flights t none }
  | drop {t : Nat} {id : Int} {c : Call} {m : Nat} {res : Option Response} {front : Sys} :
      s.front.calls[t]? = some c → c.pc = .posting id m → res.all (·.status ≠ 200) →
      s.front.step (.call t (.post m c.compileString res)) = some front →
      ClusterStep J T s (.drop t res)
        { s with front := front, flights := Function.update s.flights t none }

namespace Cluster

variable {J : JsonReader} {T : Toolchain} {s s' : Cluster} {e : ClusterEvent}

theorem returnTo_eq_some {t : Nat} {res : Option Response} : s.returnTo t res = some s' ↔
    ∃ c id m front, s.front.calls[t]? = some c ∧ c.pc = .posting id m ∧
      s.front.step (.call t (.post m c.compileString res)) = some front ∧
      s' = { s with front := front, flights := Function.update s.flights t none } := by
  simp only [returnTo, Option.bind_eq_bind, Option.bind_eq_some_iff, Pc.target_eq_some]
  constructor
  · rintro ⟨c, hc, m, ⟨id, hpc⟩, front, hs, h⟩
    exact ⟨c, id, m, front, hc, hpc, hs, (Option.some.inj h).symm⟩
  · rintro ⟨c, id, m, front, hc, hpc, hs, rfl⟩
    exact ⟨c, hc, m, ⟨id, hpc⟩, front, hs, rfl⟩

theorem step_cases (h : s.step J T e = some s') : ClusterStep J T s e s' := by
  cases e with
  | front e =>
    simp only [step, Option.ite_none_left_eq_some, Bool.not_eq_true, Option.map_eq_some_iff] at h
    obtain ⟨he, front, hs, rfl⟩ := h
    exact .front he hs
  | send t =>
    simp only [step, Option.bind_eq_bind, Option.bind_eq_some_iff, Option.ite_none_right_eq_some] at h
    obtain ⟨c, hc, m, hm, hf, h⟩ := h
    obtain ⟨id, hpc⟩ := Pc.target_eq_some.mp hm
    cases h
    exact .send hc hpc hf
  | receive i name o =>
    simp only [step, Option.bind_eq_bind, Option.bind_eq_some_iff, Option.ite_none_right_eq_some] at h
    obtain ⟨p, hp, hstage, h⟩ := h
    split at h
    · next hr => cases h; exact .answer hp hstage hr
    · next hr => cases h; exact .start hp hstage hr
  | work m k =>
    obtain ⟨h, hs, rfl⟩ := Option.map_eq_some_iff.mp h
    exact .work hs
  | reply t =>
    simp only [step, Option.bind_eq_bind, Option.bind_eq_some_iff, returnTo_eq_some] at h
    obtain ⟨i, hi, p, hp, r, hr, c, id, m, front, hc, hpc, hs, rfl⟩ := h
    exact .reply hc hpc hi hp hr hs
  | drop t res =>
    simp only [step, Option.ite_none_right_eq_some, returnTo_eq_some] at h
    obtain ⟨hres, c, id, m, front, hc, hpc, hs, rfl⟩ := h
    exact .drop hc hpc hres hs

theorem step_of (h : ClusterStep J T s e s') : s.step J T e = some s' := by
  cases h with
  | front he hs => simp [step, he, hs]
  | send hc hpc hf => simp [step, hc, hpc, hf, Pc.target]
  | answer hp hstage hr => simp [step, hp, hstage, hr]
  | start hp hstage hr => simp [step, hp, hstage, hr]
  | work hs => simp [step, hs]
  | reply hc hpc hi hp hr hs =>
    simp only [step, hi, hp, hr, Option.bind_eq_bind, Option.bind_some]
    exact returnTo_eq_some.mpr ⟨_, _, _, _, hc, hpc, hs, rfl⟩
  | drop hc hpc hres hs =>
    rw [step, if_pos hres]
    exact returnTo_eq_some.mpr ⟨_, _, _, _, hc, hpc, hs, rfl⟩

/-! ## Seen from the calls of `Judge` -/

theorem front_step (h : ClusterStep J T s e s') :
    Shows Sys.step Free s.front s'.front := by
  cases h with
  | front _ hs => exact .inr ⟨_, trivial, hs⟩
  | reply _ _ _ _ _ hs | drop _ _ _ hs => exact .inr ⟨_, trivial, hs⟩
  | _ => exact .inl rfl

theorem front_run {C : Cluster → ClusterEvent → Prop} {es : List ClusterEvent}
    (h : Run (step J T) C s es s') : ∃ es', Run Sys.step Free s.front es' s'.front :=
  h.project fun _ _ _ _ hs => front_step (step_cases hs)

end Cluster

end OJ.Server
