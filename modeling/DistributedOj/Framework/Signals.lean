import DistributedOj.Framework.Run
import DistributedOj.Framework.Threads

/-!
# Signals

Threads that share a store run frames of some code, one step at a time, and a
signal may be delivered to any of them between two steps: the thread then runs
the handler before it goes on, and meanwhile the signal is blocked in it
(`Interrupted.step`). If the handler begins with taking a lock, it never tries
to take one that its own thread holds iff no signal is delivered to a thread
that holds it (`Lock.relocks_iff`).
-/

namespace OJ.Framework

variable {σ F α : Type*}

/-- What threads run: a step of a frame in thread `t`, which may end it, the
frames that a thread may begin with, and the first one of the handler. -/
structure Code (σ F α : Type*) where
  step : Nat → σ → F → α → Option (σ × Option F)
  begins : F → Bool
  handler : F

/-- A thread: the frame that it runs, if any, and that of the handler, if a
signal has been delivered to it. -/
structure Thread (F : Type*) where
  base : Option F
  handler : Option F

structure Interrupted (σ F : Type*) where
  store : σ
  threads : List (Thread F)

/-- A thread begins with a frame, or takes a step that something outside takes
part in, or a signal is delivered to it. -/
inductive Signalled (F α : Type*) where
  | begin (t : Nat) (f : F)
  | run (t : Nat) (a : α)
  | signal (t : Nat)

namespace Interrupted

def step (C : Code σ F α) (s : Interrupted σ F) : Signalled F α → Option (Interrupted σ F)
  | .begin t f =>
    match s.threads[t]? with
    | some ⟨none, none⟩ =>
      if C.begins f then some { s with threads := s.threads.set t ⟨some f, none⟩ } else none
    | _ => none
  | .run t a =>
    match s.threads[t]? with
    | some ⟨base, some f⟩ =>
      (C.step t s.store f a).map fun x => ⟨x.1, s.threads.set t ⟨base, x.2⟩⟩
    | some ⟨some f, none⟩ =>
      (C.step t s.store f a).map fun x => ⟨x.1, s.threads.set t ⟨x.2, none⟩⟩
    | _ => none
  | .signal t =>
    match s.threads[t]? with
    | some ⟨base, none⟩ => some { s with threads := s.threads.set t ⟨base, some C.handler⟩ }
    | _ => none

/-- What a step does. -/
inductive Step (C : Code σ F α) (s : Interrupted σ F) : Signalled F α → Interrupted σ F → Prop
  | begin {t : Nat} {f : F} : s.threads[t]? = some ⟨none, none⟩ → C.begins f = true →
      Step C s (.begin t f) { s with threads := s.threads.set t ⟨some f, none⟩ }
  | handler {t : Nat} {a : α} {base : Option F} {f : F} {x : σ × Option F} :
      s.threads[t]? = some ⟨base, some f⟩ → C.step t s.store f a = some x →
      Step C s (.run t a) ⟨x.1, s.threads.set t ⟨base, x.2⟩⟩
  | base {t : Nat} {a : α} {f : F} {x : σ × Option F} :
      s.threads[t]? = some ⟨some f, none⟩ → C.step t s.store f a = some x →
      Step C s (.run t a) ⟨x.1, s.threads.set t ⟨x.2, none⟩⟩
  | signal {t : Nat} {base : Option F} : s.threads[t]? = some ⟨base, none⟩ →
      Step C s (.signal t) { s with threads := s.threads.set t ⟨base, some C.handler⟩ }

theorem step_cases {C : Code σ F α} {s s' : Interrupted σ F} {e : Signalled F α}
    (h : s.step C e = some s') : Step C s e s' := by
  cases e with
  | begin t f =>
    rw [step] at h
    split at h
    · next ht =>
      split at h
      · next hf =>
        cases h
        exact .begin ht hf
      · cases h
    · cases h
  | run t a =>
    rw [step] at h
    split at h
    · next ht =>
      obtain ⟨x, hx, rfl⟩ := Option.map_eq_some_iff.mp h
      exact .handler ht hx
    · next ht =>
      obtain ⟨x, hx, rfl⟩ := Option.map_eq_some_iff.mp h
      exact .base ht hx
    · cases h
  | signal t =>
    rw [step] at h
    split at h
    · next ht =>
      cases h
      exact .signal ht
    · cases h

end Interrupted

/-! ## A lock -/

/-- A lock in the store: the thread that holds it, the frames that are about to
take it, and those of the handler once it has. -/
structure Lock (C : Code σ F α) where
  owner : σ → Option Nat
  takes : F → Prop
  past : F → Prop
  owner_step : ∀ {t s f a x}, C.step t s f a = some x →
    owner x.1 = owner s ∨ owner x.1 = none ∨ owner x.1 = some t
  takes_handler : takes C.handler
  past_handler : ∀ {t s a x}, C.step t s C.handler a = some x → ∀ f ∈ x.2, past f
  past_step : ∀ {t s f a x}, past f → C.step t s f a = some x → ∀ f ∈ x.2, past f
  not_takes : ∀ {f}, past f → ¬ takes f

namespace Lock

variable {C : Code σ F α} (l : Lock C)

/-- A handler is about to take the lock that its thread holds. -/
def Relocks (s : Interrupted σ F) : Prop :=
  ∃ t th f, s.threads[t]? = some th ∧ th.handler = some f ∧ l.takes f ∧ l.owner s.store = some t

/-- A signal is delivered to no thread that holds the lock. -/
def Spares (s : Interrupted σ F) (e : Signalled F α) : Prop :=
  ∀ t, e = .signal t → l.owner s.store ≠ some t

/-- A handler is past the lock, or about to take it in a thread that does not
hold it. -/
def Apart (s : Interrupted σ F) : Prop :=
  ∀ (t : Nat) (th : Thread F) (f : F), s.threads[t]? = some th → th.handler = some f →
    l.past f ∨ (f = C.handler ∧ l.owner s.store ≠ some t)

variable {l} {s s' : Interrupted σ F} {e : Signalled F α}

theorem Apart.not_relocks (h : l.Apart s) : ¬ l.Relocks s := by
  rintro ⟨t, th, f, ht, hf, htakes, howner⟩
  rcases h t th f ht hf with hp | ⟨-, hne⟩
  · exact l.not_takes hp htakes
  · exact hne howner

/-- A step of another thread. -/
theorem Apart.of_ne (h : l.Apart s) {t u : Nat} {f g : F} {a : α} {x : σ × Option F} {th : Thread F}
    (hx : C.step t s.store f a = some x) (hu : u ≠ t) (hth : s.threads[u]? = some th)
    (hg : th.handler = some g) : l.past g ∨ (g = C.handler ∧ l.owner x.1 ≠ some u) := by
  refine (h u th g hth hg).imp_right fun ⟨e, hne⟩ => ⟨e, ?_⟩
  rcases l.owner_step hx with ho | ho | ho
  · rwa [ho]
  · rw [ho]
    exact nofun
  · rw [ho]
    exact fun e => hu (Option.some.inj e).symm

theorem Apart.of_step (h : l.Apart s) (he : l.Spares s e) (hs : s.step C e = some s') : l.Apart s' := by
  intro u th g hth hg
  cases Interrupted.step_cases hs with
  | begin ht =>
    rcases getElem?_set_cases hth with ⟨rfl, rfl⟩ | ⟨-, hth⟩
    · cases hg
    · exact h u th g hth hg
  | @handler t a base f x ht hx =>
    rcases getElem?_set_cases hth with ⟨rfl, rfl⟩ | ⟨hu, hth⟩
    · -- the handler has taken the lock, or goes on past it
      rcases h u _ f ht rfl with hp | ⟨rfl, -⟩
      · exact .inl (l.past_step hp hx g hg)
      · exact .inl (l.past_handler hx g hg)
    · exact h.of_ne hx hu hth hg
  | base ht hx =>
    rcases getElem?_set_cases hth with ⟨rfl, rfl⟩ | ⟨hu, hth⟩
    · cases hg
    · exact h.of_ne hx hu hth hg
  | signal ht =>
    rcases getElem?_set_cases hth with ⟨rfl, rfl⟩ | ⟨-, hth⟩
    · cases hg
      exact .inr ⟨rfl, he u rfl⟩
    · exact h u th g hth hg

/-- A signal to a thread that holds the lock. -/
theorem relocks_of_signal {t : Nat} (hs : s.step C (.signal t) = some s')
    (ho : l.owner s.store = some t) : l.Relocks s' := by
  cases Interrupted.step_cases hs with
  | signal ht =>
    exact ⟨t, _, C.handler, getElem?_set_self_of_some ht, rfl, l.takes_handler, ho⟩

/-- Along a run in which no handler is running at first, no handler is ever
about to take a lock that its thread holds iff no signal is delivered to a
thread that holds it. -/
theorem relocks_iff {s₀ : Interrupted σ F} {es : List (Signalled F α)}
    (h₀ : ∀ th ∈ s₀.threads, th.handler = none) (h : Run (Interrupted.step C) Free s₀ es s) :
    (∀ es₁ es₂ s₁, es = es₁ ++ es₂ → Run (Interrupted.step C) Free s₀ es₁ s₁ → ¬ l.Relocks s₁) ↔
      Run (Interrupted.step C) l.Spares s₀ es s := by
  constructor
  · intro hno
    refine h.of_forall fun es₁ e es₂ s₁ s₂ he h₁ _ hs t ht ho => ?_
    subst ht
    refine hno (es₁ ++ [.signal t]) es₂ s₂ ?_ (h₁.append (.single trivial hs)) (relocks_of_signal hs ho)
    rw [he, List.append_assoc]
    rfl
  · rintro h es₁ es₂ s₁ rfl h₁
    obtain ⟨s₂, h₂, -⟩ := h.split
    have hapart : l.Apart s₁ := by
      refine (h₁.and h₂).inv (I := l.Apart) (fun s e s' hs he hstep => hs.of_step he.2 hstep) ?_
      intro t th f hth hf
      rw [h₀ th (List.mem_of_getElem? hth)] at hf
      cases hf
    exact hapart.not_relocks

end Lock

end OJ.Framework
