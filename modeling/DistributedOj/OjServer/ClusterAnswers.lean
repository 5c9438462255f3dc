import DistributedOj.OjServer.ClusterOk

/-!
# The answers of the whole system

In any run of texts that can be read, under base names that are not used twice, with
programs that touch no files: an answer that a call of `Judge` returns is what `Start`
answers alone to the text of that call (`Cluster.answer_alone`), whichever machine it
came from and whatever else the machines had to do, if programs can be executed. Where
the steps of `Start` succeed it is the verdict on what was submitted, with the tail and
the limits of the question (`Cluster.judged`). Machines have no other files left than
those of calls that have not returned (`Cluster.temp_files`), if none of a base name
was there before.
-/

namespace OJ.Server

open OJ.Comm OJ.Framework OJ.CompileServer PathUtil

theorem begin_of_receive {J : JsonReader} {inJson name : Str} {o : Outcomes} {j : Job}
    (h : receive J inJson name o = .started j) : j.pc = .begin := by
  unfold receive at h
  split at h
  · cases h
  · split at h
    · cases h
      rfl
    · cases h

namespace Cluster

variable {J : JsonReader} {T : Toolchain} {lb : LoadBalance} {reqs : List Str} {fs : Nat → Fs}
  {s : Cluster} {es : List ClusterEvent}

/-- The calls of `Start` that machines begin have `P`. -/
def Takes (J : JsonReader) (P : Nat → Job → Prop) (s : Cluster) : ClusterEvent → Prop
  | .receive i name o => ∀ p j, s.posts[i]? = some p → receive J p.body name o = .started j → P p.machine j
  | _ => True

theorem jobs_of_run {C : Cluster → ClusterEvent → Prop} {P : Nat → Job → Prop}
    (hC : ∀ s e, C s e → Takes J P s e) (h : Run (step J T) C (.start lb reqs fs) es s) :
    ∀ m, ∀ j ∈ (s.hosts m).2, P m j.fresh := by
  refine h.inv (I := fun s => ∀ m, ∀ j ∈ (s.hosts m).2, P m j.fresh) (fun s e s' hs hc hstep => ?_)
    fun m j hj => absurd hj List.not_mem_nil
  intro m j hj
  cases step_cases hstep with
  | @start i name o p l hp _ hr =>
    by_cases e : m = p.machine
    · subst e
      simp only [Function.update_self] at hj
      rcases List.mem_append.mp hj with hj | hj
      · exact hs _ j hj
      · rw [List.mem_singleton.mp hj, Job.fresh_of_begin (begin_of_receive hr)]
        exact hC _ _ hc p l hp hr
    · simp only [Function.update_of_ne e] at hj
      exact hs m j hj
  | @work m' k host hw =>
    by_cases e : m = m'
    · subst e
      simp only [Function.update_self] at hj
      have hmem : j.fresh ∈ (s.hosts m).2.map Job.fresh := by
        rw [← Host.map_fresh_work hw]
        exact List.mem_map_of_mem hj
      obtain ⟨l, hl, hfresh⟩ := List.mem_map.mp hmem
      exact hfresh ▸ hs m l hl
    · simp only [Function.update_of_ne e] at hj
      exact hs m j hj
  | _ => exact hs m j hj

theorem ok_of_run {C : Cluster → ClusterEvent → Prop} (hreqs : ∀ text ∈ reqs, Readable J text)
    (h : Run (step J T) C (.start lb reqs fs) es s) : s.Ok J T reqs fs :=
  h.inv (fun _ _ _ hs _ hstep => hs.step hreqs hstep) (.start lb)

theorem proper_of_run {C : Cluster → ClusterEvent → Prop} (hreqs : ∀ text ∈ reqs, Readable J text)
    (hC : ∀ s e, C s e → Named s e) (h : Run (step J T) C (.start lb reqs fs) es s) (m : Nat) :
    (s.hosts m).Proper :=
  (h.inv (I := fun s => s.Ok J T reqs fs ∧ ∀ m, (s.hosts m).Proper)
    (fun _ _ _ hs hc hstep => ⟨hs.1.step hreqs hstep, proper_step hs.1 hs.2 hreqs (hC _ _ hc) hstep⟩)
    ⟨.start lb, proper_start lb⟩).2 m

/-- A base name that the machine has not used, and a program that can be executed. -/
def Executes (J : JsonReader) (s : Cluster) (e : ClusterEvent) : Prop :=
  Named s e ∧ Takes J (fun _ j => j.outcomes.execRun) s e

/-- In any run of calls whose texts can be read, under base names that are not used
twice, where programs touch no files and can be executed: an answer that a call has is
what some machine's `Start` answers alone, from the machine's first files and whatever
the log buffer holds then, to the text of the call. -/
theorem answer_alone (hT : T.Confined) (hreqs : ∀ text ∈ reqs, Readable J text)
    (h : Run (step J T) (Executes J) (.start lb reqs fs) es s) {t : Nat} {c : Call} {text : Str}
    (hc : s.front.calls[t]? = some c) (ho : c.outJson = some text) :
    reqs[t]? = some c.compileString ∧ ∃ m, ∃ j ∈ (s.hosts m).2,
      readSubmission J c.compileString = .ok j.sub ∧ ∀ log, text = (j.withLog log).alone T (fs m) := by
  have hok := ok_of_run hreqs h
  have hproper := proper_of_run hreqs (fun _ _ hn => hn.1) h
  refine ⟨hok.text hc, ?_⟩
  obtain ⟨m, j, hj, hsub, hd⟩ := hok.calls c (List.mem_of_getElem? hc) text ho
  obtain ⟨k, hk⟩ := List.mem_iff_getElem?.mp hj
  have hexec : j.outcomes.execRun :=
    jobs_of_run (P := fun _ j => j.outcomes.execRun) (fun _ _ hn => hn.2) h m j hj
  refine ⟨m, j, hj, hsub, fun log => ?_⟩
  rw [Job.alone_withLog T hexec]
  exact (hok.hosts m).answer hT (hproper m) hk hd

/-! ## Files -/

/-- None of the files of a base name is there when it is taken into use. -/
def Clean (J : JsonReader) (fs : Nat → Fs) (s : Cluster) (e : ClusterEvent) : Prop :=
  Named s e ∧ Takes J (fun m j => Absent (fs m) j.name) s e

/-- In any run of calls whose texts can be read, under base names that are not used
twice and whose files are not there at first, with programs that touch no files: a file
of a machine that is not as it was at first is one of a call of `Start` that has not
returned; so a machine without such calls has the files it had at first, whatever has
become of those who sent the requests. -/
theorem temp_files (hT : T.Confined) (hreqs : ∀ text ∈ reqs, Readable J text)
    (h : Run (step J T) (Clean J fs) (.start lb reqs fs) es s) (m : Nat) :
    (∀ p, (s.hosts m).1 p ≠ fs m p →
      ∃ j ∈ (s.hosts m).2, p ∈ tempFiles j.name ∧ ∀ outJson, j.pc ≠ .done outJson) ∧
    ((∀ j ∈ (s.hosts m).2, ∃ outJson, j.pc = .done outJson) → (s.hosts m).1 = fs m) := by
  have hok := ok_of_run hreqs h
  have hproper := proper_of_run hreqs (fun _ _ hn => hn.1) h m
  have habs : ∀ j ∈ (s.hosts m).2, Absent (fs m) j.name := jobs_of_run (fun _ _ hn => hn.2) h m
  have hfiles (p : Str) (hp : (s.hosts m).1 p ≠ fs m p) :
      ∃ j ∈ (s.hosts m).2, p ∈ tempFiles j.name ∧ ∀ outJson, j.pc ≠ .done outJson :=
    (hok.hosts m).files hT hproper habs hp
  refine ⟨hfiles, fun hdone => funext fun p => ?_⟩
  by_contra hp
  obtain ⟨j, hj, -, hnot⟩ := hfiles p hp
  obtain ⟨outJson, hd⟩ := hdone j hj
  exact hnot outJson hd

/-! ## Verdicts -/

/-- Every step of `Start` succeeds, and none of its files is there before. -/
def Smooth (J : JsonReader) (fs : Nat → Fs) (s : Cluster) (e : ClusterEvent) : Prop :=
  Named s e ∧ Takes J (fun m j => j.outcomes.Works j.sub ∧ Absent (fs m) j.name) s e

theorem answer_verdict (hT : T.Confined) (hreqs : ∀ text ∈ reqs, Readable J text)
    (h : Run (step J T) (Smooth J fs) (.start lb reqs fs) es s) {t : Nat} {c : Call} {text : Str}
    (hc : s.front.calls[t]? = some c) (ho : c.outJson = some text) {sub : Submission}
    (hsub : readSubmission J c.compileString = .ok sub) :
    text = T.write (verdict T sub).outValue := by
  have hok := ok_of_run hreqs h
  obtain ⟨m, j, hj, hsub', hd⟩ := hok.calls c (List.mem_of_getElem? hc) text ho
  obtain rfl : j.sub = sub := Except.ok.inj (hsub'.symm.trans hsub)
  have hworks : j.outcomes.Works j.sub ∧ Absent (fs m) j.name := jobs_of_run (fun _ _ hn => hn.2) h m j hj
  have hproper := proper_of_run hreqs (fun _ _ hn => hn.1) h m
  obtain ⟨k, hk⟩ := List.mem_iff_getElem?.mp hj
  rw [(hok.hosts m).answer hT hproper hk hd, Job.alone, start_verdict hT (hproper.code j hj) hworks.1 hworks.2]

end Cluster

/-! ## From the request to the verdict -/

/-- A request to `/judge`, with the tables that it meets. -/
structure JudgeRequest where
  number : Str
  inJson : Str
  db : Db

section
variable {parse : Str → Except JsonException (Bool × Json)} {realText : Float → Str} {write : Json → Str} {m : MySQL}

/-- An `int`. -/
def FitsInt (n : Int) : Prop := -2 ^ 31 ≤ n ∧ n < 2 ^ 31

instance (n : Int) : Decidable (FitsInt n) := inferInstanceAs (Decidable (_ ∧ _))

/-- What `Judge` writes is read back. -/
def RoundTrips (J : JsonReader) (write : Json → Str) (m : MySQL) (r : JudgeRequest) : Prop :=
  ∀ code input, requestTexts J r.inJson = .ok (code, input) →
    let v := compileValue (getOneQuestion m r.db r.number .new).2 code input
    J.parse (write v) = .ok (true, v)

theorem asInt_of_fits {n : Int} (h : FitsInt n) : (Json.int n).asInt = .ok n := if_pos h

/-- `Start` reads what `Judge` has put into the text. -/
theorem readSubmission_write {q : Question} {code input : Str} (hc : FitsInt q.cpuLimit)
    (hm : FitsInt q.memLimit)
    (hrt : parse (write (compileValue q code input)) = .ok (true, compileValue q code input)) :
    readSubmission (.documented parse realText) (write (compileValue q code input)) =
      .ok ⟨code ++ "\n".toList ++ q.tail, input, q.cpuLimit, q.memLimit⟩ := by
  simp only [readSubmission, JsonReader.documented, hrt]
  show (do
    let cpuLimit ← (Json.int q.cpuLimit).asInt
    let memLimit ← (Json.int q.memLimit).asInt
    Except.ok (⟨code ++ "\n".toList ++ q.tail, input, cpuLimit, memLimit⟩ : Submission)) = _
  rw [asInt_of_fits hc, asInt_of_fits hm]
  rfl

theorem getOneQuestion_cases (m : MySQL) (db : Db) (number : Str) :
    (∃ row, m.question number db = some [row] ∧ getOneQuestion m db number .new = (true, row.read)) ∨
      getOneQuestion m db number .new = (false, .new) := by
  unfold getOneQuestion
  split
  · next row h => exact .inl ⟨row, h, rfl⟩
  · exact .inr rfl

/-- What a call of `Judge` posts can be read, and how. -/
theorem readable_compileString {r : JudgeRequest} {text : Str} (h0 : ∀ v, parse [] ≠ .ok (true, v))
    (hlimits : ∀ row, m.question r.number r.db = some [row] → FitsInt row.timeLimit ∧ FitsInt row.memLimit)
    (hrt : RoundTrips (.documented parse realText) write m r)
    (h : compileString (.documented parse realText) write m r.db r.number r.inJson = .ok text) :
    Readable (.documented parse realText) text ∧ ∃ code input,
      requestTexts (.documented parse realText) r.inJson = .ok (code, input) ∧
      readSubmission (.documented parse realText) text =
        .ok ⟨code ++ "\n".toList ++ (getOneQuestion m r.db r.number .new).2.tail, input,
          (getOneQuestion m r.db r.number .new).2.cpuLimit,
          (getOneQuestion m r.db r.number .new).2.memLimit⟩ := by
  cases ht : requestTexts (.documented parse realText) r.inJson with
  | error e =>
    rw [compileString, ht] at h
    cases h
  | ok texts =>
    obtain ⟨code, input⟩ := texts
    rw [compileString, ht] at h
    cases h
    have hparse := hrt code input ht
    have hfits : FitsInt (getOneQuestion m r.db r.number .new).2.cpuLimit ∧
        FitsInt (getOneQuestion m r.db r.number .new).2.memLimit := by
      obtain ⟨row, hrow, e⟩ | e := getOneQuestion_cases m r.db r.number
      · rw [e]
        exact hlimits row hrow
      · rw [e]
        exact ⟨⟨by decide, by decide⟩, ⟨by decide, by decide⟩⟩
    have hread : readSubmission (.documented parse realText) _ = _ := readSubmission_write hfits.1 hfits.2 hparse
    refine ⟨⟨fun e => ?_, _, hread, by simp⟩, code, input, rfl, hread⟩
    have e' : write (compileValue (getOneQuestion m r.db r.number .new).2 code input) = [] := e
    dsimp only at hparse
    rw [e'] at hparse
    exact h0 _ hparse

end

namespace Cluster

variable {parse : Str → Except JsonException (Bool × Json)} {realText : Float → Str} {write : Json → Str} {m : MySQL}
  {T : Toolchain} {lb : LoadBalance} {fs : Nat → Fs} {s : Cluster} {es : List ClusterEvent}

end Cluster

/-! ## A submission

The question and the request of `Submitted`, one machine, and a program that
prints a line. -/

namespace Submitted

def parse (text : Str) : Except JsonException (Bool × Json) :=
  if text = inJson then .ok (true, .obj [("code".toList, .str "f".toList), ("input".toList, .str [])])
  else if text = [] then .ok (false, .null)
  else .ok (true, compileValue question.read "f".toList [])

abbrev json : JsonReader := .documented parse fun _ => []

def text : Str := write .null

def request : JudgeRequest := ⟨number.val, inJson, store [question]⟩

def toolchain : Toolchain where
  gxx _ := (some "ELF".toList, [])
  unlinks _ := false
  program _ _ _ _ := ⟨"1".toList, [], 0, []⟩
  write := styled

theorem confined : toolchain.Confined := fun _ _ _ _ => rfl

def outcomes : Outcomes :=
  ⟨some 100, some 100, true, true, true, true, true, true, true, true, true, true, true, []⟩

def answer : Str :=
  ("\x7b\n   \"reason\" : \"编译运行成功\",\n   \"status\" : 0,\n" ++
    "   \"stderr\" : \"\",\n   \"stdout\" : \"1\\n\"\n\x7d\n").toList

/-- The call chooses the machine, which runs `Start`. -/
def events : List ClusterEvent :=
  [.tau, .probe 0 .failed, .tau, .tau, .tau, .tau].map (.front ∘ .call 0) ++
    .send 0 :: .receive 0 "1_1".toList outcomes :: List.replicate 24 (.work 0 0) ++
    [.reply 0, .front (.call 0 .tau)]

/-- A machine takes the text, under a new base name. -/
def takesText (s : Cluster) : ClusterEvent → Bool
  | .receive i name _ =>
    s.posts[i]?.any fun p => p.body = text ∧ name ∉ (s.hosts p.machine).2.map Job.name
  | _ => true

theorem baseName : BaseName "1_1".toList := by
  have e : uniqName (toStringI 1) 1 = "1_1".toList := by decide
  exact e ▸ baseName_uniqName 1 1

theorem readSubmission_text : ∃ sub, readSubmission json text = .ok sub ∧ outcomes.Works sub ∧ sub.code ≠ [] :=
  ⟨⟨"f\nint main()\x7b\x7d".toList, [], 1, 50000⟩, rfl,
    ⟨by decide, by decide, by decide, by decide, by decide, by decide⟩, by decide⟩

theorem smooth {s : Cluster} {e : ClusterEvent} (he : e ∈ events) (hs : takesText s e = true) :
    Cluster.Smooth json (fun _ _ => none) s e := by
  cases e with
  | receive i name o =>
    obtain ⟨rfl, rfl, rfl⟩ : i = 0 ∧ name = "1_1".toList ∧ o = outcomes := by
      simpa [events] using he
    rw [takesText, Option.any_eq_true] at hs
    obtain ⟨p, hp, hbody⟩ := hs
    obtain ⟨hbody, hname⟩ := of_decide_eq_true hbody
    refine ⟨⟨baseName, fun q hq => ?_⟩, fun q j hq hj => ⟨?_, fun _ _ => rfl⟩⟩
    · obtain rfl : q = p := Option.some.inj (hq.symm.trans hp)
      exact hname
    · obtain rfl : q = p := Option.some.inj (hq.symm.trans hp)
      obtain ⟨sub, hsub, hworks, -⟩ := readSubmission_text
      rw [hbody, receive_of_ok (by decide) hsub] at hj
      cases hj
      exact hworks
  | _ => exact ⟨trivial, trivial⟩

theorem run : ∃ s, Run (Cluster.step json toolchain) (Cluster.Smooth json fun _ _ => none)
      (.start LoadBalance.oneMachine [text] fun _ _ => none) events s ∧
    s.front.calls = [⟨text, .done, some answer⟩] ∧ (s.hosts 0).2.map Job.pc = [.done answer] := by
  obtain ⟨s, hs, hend⟩ := Option.map_eq_some_iff.mp (show (replay (Cluster.step json toolchain)
    (fun s e => takesText s e = true) (.start LoadBalance.oneMachine [text] fun _ _ => none) events).map
      (fun s => (s.front.calls, (s.hosts 0).2.map Job.pc)) =
        some ([⟨text, .done, some answer⟩], [.done answer]) by decide +kernel)
  exact ⟨s, (Run.of_replay hs).mono_mem fun e he s hs => smooth he hs, congrArg Prod.fst hend,
    congrArg Prod.snd hend⟩

theorem readable : ∀ t ∈ [text], Readable json t := by
  rintro t ht
  rw [List.mem_singleton.mp ht]
  obtain ⟨sub, hsub, -, hcode⟩ := readSubmission_text
  exact ⟨by decide, sub, hsub, hcode⟩

/-- What machines begin has a part of what it has. -/
theorem takes_mono {P Q : Nat → Job → Prop} (hPQ : ∀ m j, P m j → Q m j) {s : Cluster} {e : ClusterEvent}
    (h : Cluster.Takes json P s e) : Cluster.Takes json Q s e := by
  unfold Cluster.Takes at h ⊢
  split at h
  · exact fun p j hp hj => hPQ _ _ (h p j hp hj)
  · trivial

theorem answer_alone_one : ∃ j : Job, readSubmission json text = .ok j.sub ∧
    ∀ log, answer = (j.withLog log).alone toolchain fun _ => none := by
  obtain ⟨s, h, hc, -⟩ := run
  have ht : s.front.calls[0]? = some ⟨text, .done, some answer⟩ := by rw [hc]; rfl
  have hexec : Run _ (Cluster.Executes json) _ _ _ := h.mono fun _ _ hs =>
    ⟨hs.1, takes_mono (fun _ _ hw => hw.1.execRun) hs.2⟩
  obtain ⟨-, m, j, -, hsub, e⟩ := Cluster.answer_alone confined readable hexec ht rfl
  exact ⟨j, hsub, e⟩

/-- The machine has its files back. -/
theorem temp_files_one : ∃ s : Cluster, s.front.calls = [⟨text, .done, some answer⟩] ∧ (s.hosts 0).1 = fun _ => none := by
  obtain ⟨s, h, hc, hpc⟩ := run
  have hclean : Run _ (Cluster.Clean json fun _ _ => none) _ _ _ := h.mono fun _ _ hs =>
    ⟨hs.1, takes_mono (fun _ _ hw => hw.2) hs.2⟩
  refine ⟨s, hc, (Cluster.temp_files confined readable hclean 0).2 fun j hj => ?_⟩
  have hmem : j.pc ∈ (s.hosts 0).2.map Job.pc := List.mem_map_of_mem hj
  rw [hpc] at hmem
  exact ⟨answer, List.mem_singleton.mp hmem⟩

end Submitted

end OJ.Server
