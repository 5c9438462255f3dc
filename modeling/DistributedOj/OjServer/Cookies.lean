import DistributedOj.Comm.Lines
import DistributedOj.OjServer.Requests

/-!
# Cookies

A `Cookie` header is read back as the pairs that it was joined from
(`getCookieValue_of_header`): the splitting at `;` gives the pairs with the
spaces before them (`cookiePart_pairText`), and the first `=` is the one after
the key.
-/

namespace OJ.Server

open OJ.Comm

/-- A key without `=` and `;` that does not start with a space, and a value
without `;`. -/
structure CookiePair (p : Str × Str) : Prop where
  key_equals : '=' ∉ p.1
  key_semicolon : ';' ∉ p.1
  key_space : p.1.head? ≠ some ' '
  value_semicolon : ';' ∉ p.2

/-- `key=value`. -/
def pairText (p : Str × Str) : Str := p.1 ++ '=' :: p.2

/-- Pairs joined by `;` with any number of spaces after it. -/
inductive Header : List (Str × Str) → Str → Prop
  | nil : Header [] []
  | one (p : Str × Str) : Header [p] (pairText p)
  | cons (p : Str × Str) (n : Nat) {q : Str × Str} {ps : List (Str × Str)} {text : Str} :
      Header (q :: ps) text → Header (p :: q :: ps) (pairText p ++ ';' :: (List.replicate n ' ' ++ text))

section
variable {p : Str × Str}

theorem CookiePair.semicolon_notMem (h : CookiePair p) : ';' ∉ pairText p := by
  simp only [pairText, List.mem_append, List.mem_cons, not_or]
  exact ⟨h.key_semicolon, by decide, h.value_semicolon⟩

theorem pairText_ne_nil : pairText p ≠ [] := by
  simp [pairText]

/-- The spaces before a pair are skipped. -/
theorem dropWhile_pairText (h : CookiePair p) (n : Nat) :
    (List.replicate n ' ' ++ pairText p).dropWhile (· == ' ') = pairText p := by
  rw [List.dropWhile_append_of_pos fun c hc => by simp [List.eq_of_mem_replicate hc]]
  obtain ⟨_ | ⟨c, key⟩, value⟩ := p
  · rfl
  · exact List.dropWhile_cons_of_neg fun e => h.key_space (congrArg some (by simpa using e))

/-- A pair is read back with the spaces before it. -/
theorem cookiePart_pairText (h : CookiePair p) (n : Nat) (cookieName : Str) :
    Request.cookiePart cookieName (List.replicate n ' ' ++ pairText p) =
      if cookieName == p.1 then some p.2 else none := by
  have hkey : ∀ c ∈ p.1, (c != '=') = true := fun c hc => bne_iff_ne.mpr fun e => h.key_equals (e ▸ hc)
  have htake : (pairText p).takeWhile (· != '=') = p.1 := by
    rw [pairText, List.takeWhile_append_of_pos hkey, List.takeWhile_cons_of_neg (by decide), List.append_nil]
  have hdrop : (pairText p).dropWhile (· != '=') = '=' :: p.2 := by
    rw [pairText, List.dropWhile_append_of_pos hkey, List.dropWhile_cons_of_neg (by decide)]
  have hmem : '=' ∈ pairText p := List.mem_append_right _ List.mem_cons_self
  simp only [Request.cookiePart, dropWhile_pairText h, htake, hdrop, hmem, true_and, List.tail_cons,
    beq_iff_eq, eq_comm (a := cookieName)]

/-- The pairs of a header that starts with spaces are looked up. -/
theorem findSome?_header {ps : List (Str × Str)} {text : Str} (h : Header ps text)
    (hps : ∀ p ∈ ps, CookiePair p) (n : Nat) (hn : n = 0 ∨ ps ≠ []) (cookieName : Str) :
    (getlineDelim ';' (List.replicate n ' ' ++ text)).findSome? (Request.cookiePart cookieName) =
      ps.lookup cookieName := by
  induction h generalizing n with
  | nil =>
    rw [hn.resolve_right (by simp)]
    rfl
  | one p =>
    have hp := hps p List.mem_cons_self
    have hsemi : ';' ∉ List.replicate n ' ' ++ pairText p := by
      simp [List.mem_replicate, hp.semicolon_notMem]
    rw [getlineDelim_last hsemi, if_neg (by simp [pairText_ne_nil]), List.findSome?_singleton,
      cookiePart_pairText hp, List.lookup_eq_findSome?, List.findSome?_singleton]
  | @cons p m q ps text h ih =>
    have hp := hps p List.mem_cons_self
    have hsemi : ';' ∉ List.replicate n ' ' ++ pairText p := by
      simp [List.mem_replicate, hp.semicolon_notMem]
    rw [← List.append_assoc, getlineDelim_cons hsemi, List.findSome?_cons, cookiePart_pairText hp,
      ih (fun p hp => hps p (List.mem_cons_of_mem _ hp)) m (.inr (by simp)), List.lookup_eq_findSome?,
      List.lookup_eq_findSome?]
    rfl

theorem cookiePair_session (id : SessionId) : CookiePair ("session_id".toList, id.val) := by
  refine ⟨?_, ?_, ?_, fun h => ?_⟩
  · show '=' ∉ "session_id".toList
    decide
  · show ';' ∉ "session_id".toList
    decide
  · show "session_id".toList.head? ≠ some ' '
    decide
  · have := List.all_eq_true.mp id.property.2 _ h
    exact absurd this (by decide)

theorem getCookieValue_eq {ps : List (Str × Str)} {req : Request} (h : Header ps req.cookie)
    (hps : ∀ p ∈ ps, CookiePair p) (cookieName : Str) :
    req.getCookieValue cookieName = (ps.lookup cookieName).getD [] := by
  have := findSome?_header h hps 0 (.inl rfl) cookieName
  rw [List.replicate_zero, List.nil_append] at this
  rw [Request.getCookieValue, this]

end

end OJ.Server
