import DistributedOj.CompileServer.Descriptors

/-!
# What a child inherits

The program of one submission can be executed with the output file of another
open (`run_inherits`). It cannot where no call forks while another has a file
open (`exec_clean`): a descriptor of a file of a call is held by that call
(`Sys.Clean`), and a child has nothing but the table at its `fork` and files of
its own call.
-/

namespace OJ.CompileServer

open OJ.Comm OJ.Framework PathUtil

/-- Code and base name of calls: names have their form, and are different. -/
structure Named (l : List (Str × Str)) : Prop where
  base : ∀ x ∈ l, x.1 ≠ [] → BaseName x.2
  distinct : l.Pairwise fun x y => x.1 ≠ [] → y.1 ≠ [] → x.2 ≠ y.2

namespace Sys

variable {T : Toolchain}

def names (s : Sys) : List (Str × Str) := s.calls.map fun c => (c.job.sub.code, c.job.name)

theorem names_step {s s' : Sys} {e : Nat × Op} (h : s.step T e = some s') : s'.names = s.names := by
  obtain ⟨c, c', hc, hs, hcalls⟩ := step_eq h
  rw [names, hcalls]
  exact map_set_of_eq hc (Prod.ext (congrArg Submission.code (Prod.mk.inj (Call.step_cases hs).ids).1)
    (Prod.mk.inj (Call.step_cases hs).ids).2)

/-- A step is no fork, or no other call has a file open. -/
def ForksAlone (s : Sys) (e : Nat × Op) : Prop :=
  e.2 = .step → s.calls[e.1]?.any Call.forks → ∀ d ∈ s.calls.eraseIdx e.1, d.held = []

instance (s : Sys) (e : Nat × Op) : Decidable (ForksAlone s e) :=
  inferInstanceAs (Decidable (_ → _ → _))

/-- Every descriptor of a file of a call is held by it, and no child of another
call has one. -/
structure Clean (s : Sys) : Prop where
  named : Named s.names
  table : ∀ (u : Nat) (d : Call), s.calls[u]? = some d → d.job.sub.code ≠ [] →
    ∀ n p, (n, p) ∈ s.fds → p ∈ files d.job.name → n ∈ d.held
  child : ∀ (t u : Nat) (c d : Call), t ≠ u → s.calls[t]? = some c → s.calls[u]? = some d →
    d.job.sub.code ≠ [] → ∀ ch, c.child = some ch → ∀ n p, (n, p) ∈ ch.fds → p ∉ files d.job.name

/-- A file of one call is none of another call with code. -/
theorem Clean.notMem {s : Sys} (h : s.Clean) {t u : Nat} {c d : Call} (htu : t ≠ u)
    (hc : s.calls[t]? = some c) (hd : s.calls[u]? = some d) (hcode : d.job.sub.code ≠ []) {p : Str}
    (hp : p ∈ files c.job.fileName) : p ∉ files d.job.name := by
  have hx : s.names[t]? = some (c.job.sub.code, c.job.name) := by
    rw [names, List.getElem?_map, hc, Option.map_some]
  have hy : s.names[u]? = some (d.job.sub.code, d.job.name) := by
    rw [names, List.getElem?_map, hd, Option.map_some]
  have hb := h.named.base _ (List.mem_of_getElem? hy) hcode
  refine fun hq => tempFiles_disjoint hb.dot_notMem (fun e => ?_) hq hp
  by_cases h0 : c.job.sub.code = []
  · rw [Job.fileName, if_pos h0] at e
    exact hb.ne_nil e
  · rw [Job.fileName, if_neg h0] at e
    obtain ⟨ht, ex⟩ := List.getElem?_eq_some_iff.mp hx
    obtain ⟨hu, ey⟩ := List.getElem?_eq_some_iff.mp hy
    have hdist := List.pairwise_iff_getElem.mp h.named.distinct
    rcases Nat.lt_or_gt_of_ne htu with hlt | hlt
    · have := hdist t u ht hu hlt
      rw [ex, ey] at this
      exact this h0 hcode e.symm
    · have := hdist u t hu ht hlt
      rw [ex, ey] at this
      exact this hcode h0 e

theorem Clean.step {s s' : Sys} {e : Nat × Op} (h : s.Clean) (hf : ForksAlone s e)
    (hs : s.step T e = some s') : s'.Clean := by
  have hnames := names_step hs
  obtain ⟨t, op⟩ := e
  obtain ⟨fs', fds', calls'⟩ := s'
  obtain ⟨c, c', hc, hs, rfl⟩ := step_eq hs
  have hs := Call.step_cases hs
  obtain ⟨hsub, hname⟩ := Prod.mk.inj hs.ids
  refine ⟨hnames ▸ h.named, ?_, ?_⟩
  · intro u d hd hcode n p hn hp
    obtain ⟨rfl, rfl⟩ | ⟨htu, hd⟩ := getElem?_set_cases hd
    · rw [hsub] at hcode
      rw [hname] at hp
      rcases hs.keeps n p hn with ⟨hn, hk⟩ | ⟨-, hk⟩
      · exact hk (h.table u c hc hcode n p hn hp)
      · exact hk
    · rcases hs.keeps n p hn with ⟨hn, -⟩ | ⟨hown, -⟩
      · exact h.table u d hd hcode n p hn hp
      · exact absurd hp (h.notMem htu.symm hc hd hcode hown)
  · intro v u a d hvu ha hd hcode ch hch n p hn
    obtain ⟨rfl, rfl⟩ | ⟨-, ha'⟩ := getElem?_set_cases ha
    · obtain ⟨rfl, -⟩ | ⟨-, hd⟩ := getElem?_set_cases hd
      · exact absurd rfl hvu
      rcases hs.child hch with ⟨rfl, hfork, hfds⟩ | ⟨ch₀, hch₀, hfds⟩
      · rw [hfds] at hn
        intro hp
        have := h.table u d hd hcode n p hn hp
        rw [hf rfl (by simpa [hc] using hfork) d
          (List.mem_eraseIdx_iff_getElem?.mpr ⟨u, hvu.symm, hd⟩)] at this
        cases this
      · rcases hfds n p hn with hn | hown
        · exact h.child v u c d hvu hc hd hcode ch₀ hch₀ n p hn
        · exact h.notMem hvu hc hd hcode hown
    · obtain ⟨rfl, rfl⟩ | ⟨-, hd⟩ := getElem?_set_cases hd
      · rw [hsub] at hcode
        rw [hname]
        exact h.child v _ a c hvu ha' hc hcode ch hch n p hn
      · exact h.child v u a d hvu ha' hd hcode ch hch n p hn

theorem clean_init {fs : Fs} {fds : Fds Str} {jobs : List Job}
    (hn : Named (jobs.map fun j => (j.sub.code, j.name)))
    (hf : ∀ j ∈ jobs, j.sub.code ≠ [] → ∀ x ∈ fds, x.2 ∉ tempFiles j.name) :
    (init fs fds jobs).Clean := by
  have hj {u : Nat} {d : Call} (hd : (init fs fds jobs).calls[u]? = some d) :
      d.job ∈ jobs ∧ d.child = none := by
    rw [init, List.getElem?_map, Option.map_eq_some_iff] at hd
    obtain ⟨j, hj, rfl⟩ := hd
    exact ⟨List.mem_of_getElem? hj, rfl⟩
  refine ⟨?_, ?_, ?_⟩
  · rwa [names, init, List.map_map]
  · intro u d hd hcode n p hn hp
    exact absurd hp (hf _ (hj hd).1 hcode _ hn)
  · intro t u c d _ hc _ _ ch hch
    rw [(hj hc).2] at hch
    cases hch

/-- In a run whose forks are alone, what a call executes has no descriptor of a
file of another call. -/
theorem exec_clean {fs : Fs} {fds : Fds Str} {jobs : List Job}
    (hn : Named (jobs.map fun j => (j.sub.code, j.name)))
    (hf : ∀ j ∈ jobs, j.sub.code ≠ [] → ∀ x ∈ fds, x.2 ∉ tempFiles j.name) {es : List (Nat × Op)}
    {s : Sys} (h : Run (Sys.step T) ForksAlone (init fs fds jobs) es s) {t u : Nat} {c d : Call}
    (htu : t ≠ u) (hc : s.calls[t]? = some c) (hd : s.calls[u]? = some d)
    (hcode : d.job.sub.code ≠ []) {table : Fds Str} (hx : c.execFds s.fs = some table) :
    ∀ x ∈ table, x.2 ∉ tempFiles d.job.name := by
  have hs : s.Clean := h.inv (fun _ _ _ h hf hs => h.step hf hs) (clean_init hn hf)
  have key (ch : Child) (hch : c.child = some ch) (ht : ch.fds.dupAll ch.dups = table) :
      ∀ x ∈ table, x.2 ∉ tempFiles d.job.name := by
    rintro ⟨n, p⟩ hx
    obtain ⟨m, hm⟩ := Fds.exists_of_mem_dupAll (ht ▸ hx)
    exact hs.child t u c d htu hc hd hcode ch hch m p hm
  unfold Call.execFds at hx
  simp only at hx
  split at hx
  case h_3 => cases hx
  all_goals
    split at hx
    · obtain ⟨ch, hch, ht⟩ := Option.map_eq_some_iff.mp hx
      exact key ch hch ht
    · cases hx

/-! ## Two submissions -/

/-- The steps of call `t` up to the `fork` of `Compile`. -/
def toCompile (t : Nat) : List (Nat × Op) := [.step, .fopen, .step, .fopen, .step].map (t, ·)

/-- From there up to the `fork` of `Run`. -/
def toRun (t : Nat) : List (Nat × Op) := List.replicate 8 (t, .step)

/-- Two calls in a process with a terminal for its standard streams. -/
def two : Sys :=
  init (fun _ => none) ([0, 1, 2].map (·, "/dev/tty".toList)) [echoJob, crashJob]

/-- The tables with which the calls execute a program next. -/
def tables (s : Sys) : List (Option (Fds Str)) := s.calls.map fun c => c.execFds s.fs

/-- The standard streams of a program, or the descriptors that were opened for
them, from `n` on. -/
def streams (n : Nat) (name : Str) : Fds Str :=
  [(n + 2, stderr name), (n + 1, stdout name), (n, stdin name)]

theorem exists_of_tables (C : Sys → Nat × Op → Prop) [∀ s e, Decidable (C s e)]
    (es : List (Nat × Op)) (table : Fds Str)
    (h : (replay (Sys.step demo) C two es).map tables = some [none, some table]) :
    ∃ s d c, Run (Sys.step demo) C two es s ∧ s.calls = [d, c] ∧ d.job.sub.code = echoCode ∧
      d.job.name = echoJob.name ∧ c.job.name = crashJob.name ∧ c.execFds s.fs = some table := by
  obtain ⟨s, hs, hx⟩ := Option.map_eq_some_iff.mp h
  have hr := Run.of_replay hs
  have hnames : s.names = two.names :=
    hr.inv (I := fun s => s.names = two.names) (fun _ _ _ h _ hs => (names_step hs).trans h) rfl
  obtain ⟨fs, fds, calls⟩ := s
  obtain ⟨d, calls, rfl, -, h⟩ := List.map_eq_cons_iff.mp hx
  obtain ⟨c, calls, rfl, hc, h⟩ := List.map_eq_cons_iff.mp h
  obtain rfl := List.map_eq_nil_iff.mp h
  obtain ⟨hd, hnames⟩ := List.cons.inj hnames
  obtain ⟨hcode, hname⟩ := Prod.mk.inj hd
  exact ⟨_, d, c, hr, rfl, hcode, hname, (Prod.mk.inj (List.cons.inj hnames).1).2, hc⟩

/-- A program is executed while the other call has no file open. -/
theorem exec_clean_two : ∃ s d c,
    Run (Sys.step demo) ForksAlone two (toCompile 0 ++ toCompile 1 ++ toRun 1 ++ [(1, .step)]) s ∧
      s.calls = [d, c] ∧ c.execFds s.fs = some (streams 0 crashJob.name ++ streams 3 crashJob.name) ∧
      ∀ x ∈ streams 0 crashJob.name ++ streams 3 crashJob.name, x.2 ∉ tempFiles d.job.name := by
  obtain ⟨s, d, c, hr, hs, hcode, -, -, hx⟩ := exists_of_tables ForksAlone
    (toCompile 0 ++ toCompile 1 ++ toRun 1 ++ [(1, .step)])
    (streams 0 crashJob.name ++ streams 3 crashJob.name) (by decide +kernel)
  have hn : Named ([echoJob, crashJob].map fun j => (j.sub.code, j.name)) := by
    refine ⟨?_, by decide⟩
    simp only [List.map_cons, List.map_nil, List.mem_cons, List.not_mem_nil, or_false,
      forall_eq_or_imp, forall_eq]
    exact ⟨fun _ => echoJob_begins.name, fun _ => crashJob_begins.name⟩
  have hf : ∀ j ∈ [echoJob, crashJob], j.sub.code ≠ [] →
      ∀ x ∈ [0, 1, 2].map (·, "/dev/tty".toList), x.2 ∉ tempFiles j.name := by decide
  have hc : s.calls[1]? = some c := by rw [hs]; rfl
  have hd : s.calls[0]? = some d := by rw [hs]; rfl
  have h0 : d.job.sub.code ≠ [] := by rw [hcode]; decide
  exact ⟨s, d, c, hr, hs, hx, exec_clean hn hf hr (by decide) hc hd h0 hx⟩

/-- A program is executed with the files of `Run` of the other call open. -/
theorem run_inherits : ∃ s d c table,
    Run (Sys.step demo) Free two
        (toCompile 0 ++ toRun 0 ++ toCompile 1 ++ toRun 1 ++ [(1, .step)]) s ∧
      s.calls = [d, c] ∧ d.job.name = echoJob.name ∧ c.job.name = crashJob.name ∧
      c.execFds s.fs = some table ∧ (4, stdout echoJob.name) ∈ table := by
  obtain ⟨s, d, c, hr, hs, -, hd, hc, hx⟩ := exists_of_tables Free
    (toCompile 0 ++ toRun 0 ++ toCompile 1 ++ toRun 1 ++ [(1, .step)])
    (streams 0 crashJob.name ++ streams 6 crashJob.name ++ streams 3 echoJob.name)
    (by decide +kernel)
  exact ⟨s, d, c, _, hr, hs, hd, hc, hx, by decide⟩

end Sys

end OJ.CompileServer
