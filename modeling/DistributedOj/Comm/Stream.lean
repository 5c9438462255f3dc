import DistributedOj.Comm.Digits
import DistributedOj.Framework.Footprint

/-!
# Extraction from a line

`std::istringstream` and its `>>` into a string and into a `long`, with the bits
that end further extraction. From a line whose words are still to be read, `>>`
takes the next one (`Ready.extractString`), and its number if it is one that a
`long` can hold (`Ready.extractLong`); a larger one leaves the greatest `long`
and the variables after it as they are (`Ready.extractLong_of_le`, `Failed`).
-/

namespace OJ.Comm

open OJ.Framework

/-- The words of the rest of a text, with `word` read so far. -/
def wordsAux (word : Str) : Str → List Str
  | [] => if word = [] then [] else [word]
  | c :: cs =>
    if isSpace c then if word = [] then wordsAux [] cs else word :: wordsAux [] cs
    else wordsAux (word ++ [c]) cs

/-- What stands between the spaces of a text. -/
def words (text : Str) : List Str := wordsAux [] text

/-- A character of a word. -/
def inWord (c : Char) : Bool := !isSpace c

/-! ## Streams -/

/-- `std::istringstream`: what is left of its text, `eofbit` and `failbit`. -/
structure Stream where
  rest : Str
  eof : Bool
  fail : Bool
  deriving DecidableEq

namespace Stream

def ofText (text : Str) : Stream := ⟨text, false, false⟩

/-- What `>>` does first: it fails on a stream that is not good or has nothing
but spaces left. -/
def sentry (s : Stream) : Bool × Stream :=
  if s.eof || s.fail then (false, { s with fail := true })
  else
    let rest := s.rest.dropWhile isSpace
    (rest ≠ [], ⟨rest, rest = [], rest = []⟩)

/-- What is left after an extraction. -/
def leave (rest : Str) (fail : Bool) : Stream := ⟨rest, rest = [], fail⟩

/-- The ends of `long`. -/
def longMax : Int := 2 ^ 63 - 1
def longMin : Int := -2 ^ 63

/-- A string variable `x` after `>> x`. -/
def extractString (x : Str) : StateM Stream Str := fun s =>
  let (ok, s) := s.sentry
  if ok then (s.rest.takeWhile inWord, leave (s.rest.dropWhile inWord) false) else (x, s)

/-- What `num_get` makes of a sign and what follows it. -/
def getLong (sign : Int) (text : Str) : Int × Stream :=
  let digits := text.takeWhile Char.isDigit
  let rest := text.dropWhile Char.isDigit
  let value := sign * digitsVal 0 digits
  if digits = [] then (0, leave rest true)
  else if value > longMax then (longMax, leave rest true)
  else if value < longMin then (longMin, leave rest true)
  else (value, leave rest false)

def getSigned : Str → Int × Stream
  | '-' :: text => getLong (-1) text
  | '+' :: text => getLong 1 text
  | text => getLong 1 text

/-- A `long` variable `x` after `>> x`, where `none` is one that nothing has set. -/
def extractLong (x : Option Int) : StateM Stream (Option Int) := fun s =>
  let (ok, s) := s.sentry
  if ok then (some (getSigned s.rest).1, (getSigned s.rest).2) else (x, s)

/-- `for (int i = 0; i < n; ++i) ss >> x`. -/
def extractLongs : Nat → Option Int → StateM Stream (Option Int)
  | 0, x => return x
  | n + 1, x => do extractLongs n (← extractLong x)

/-- `for (int i = 0; i < n; ++i) ss >> x`, for a string. -/
def extractStrings : Nat → Str → StateM Stream Str
  | 0, x => return x
  | n + 1, x => do extractStrings n (← extractString x)

end Stream

/-! ## Words -/

theorem wordsAux_dropWhile (text : Str) : wordsAux [] text = wordsAux [] (text.dropWhile isSpace) := by
  induction text with
  | nil => rfl
  | cons c cs ih =>
    by_cases hc : isSpace c = true
    · rw [List.dropWhile_cons_of_pos hc, wordsAux, if_pos hc, if_pos rfl]
      exact ih
    · rw [List.dropWhile_cons_of_neg hc]

theorem wordsAux_of_ne {word : Str} (h : word ≠ []) (text : Str) : wordsAux word text =
    (word ++ text.takeWhile inWord) :: wordsAux [] (text.dropWhile inWord) := by
  induction text generalizing word with
  | nil => simp [wordsAux, h]
  | cons c cs ih =>
    by_cases hc : isSpace c = true
    · have hn : ¬ inWord c = true := by simp [inWord, hc]
      rw [List.takeWhile_cons_of_neg hn, List.dropWhile_cons_of_neg hn, List.append_nil, wordsAux,
        if_pos hc, if_neg h, wordsAux, if_pos hc, if_pos rfl]
    · have hn : inWord c = true := by simp [inWord, hc]
      rw [List.takeWhile_cons_of_pos hn, List.dropWhile_cons_of_pos hn, wordsAux, if_neg hc,
        ih (by simp), List.append_assoc]
      rfl

/-- The first word of a text and the rest of it. -/
theorem words_eq {text : Str} (h : text.dropWhile isSpace ≠ []) : words text =
    (text.dropWhile isSpace).takeWhile inWord :: words ((text.dropWhile isSpace).dropWhile inWord) := by
  rw [words, words, wordsAux_dropWhile]
  rcases he : text.dropWhile isSpace with _ | ⟨c, cs⟩
  · exact absurd he h
  · have hc : ¬ isSpace c = true := by
      have := List.head_dropWhile_not isSpace (by rw [he]; exact List.cons_ne_nil _ _)
      simpa [he] using this
    have hn : inWord c = true := by simp [inWord, hc]
    rw [wordsAux, if_neg hc, wordsAux_of_ne (by simp), List.takeWhile_cons_of_pos hn,
      List.dropWhile_cons_of_pos hn]
    rfl

theorem words_of_blank {text : Str} (h : text.dropWhile isSpace = []) : words text = [] := by
  rw [words, wordsAux_dropWhile, h]
  rfl

theorem infix_append_cons_iff {part l r : Str} {c : Char} (hc : c ∉ part) :
    part <:+: l ++ c :: r ↔ part <:+: l ∨ part <:+: r := by
  have hhead {part' : Str} (hne : part' ≠ []) (hp : part' <+: c :: r) : c ∈ part' := by
    obtain ⟨d, ds, rfl⟩ := List.exists_cons_of_ne_nil hne
    rw [(List.cons_prefix_cons.mp hp).1]
    exact List.mem_cons_self
  constructor
  · intro h
    rcases List.infix_append_iff_ne_nil.mp h with h | h | ⟨l₁, l₂, -, hne, rfl, -, h⟩
    · exact .inl h
    · rcases List.infix_cons_iff.mp h with h | h
      · by_cases hne : part = []
        · exact .inl (hne ▸ List.nil_infix)
        · exact absurd (hhead hne h) hc
      · exact .inr h
    · exact absurd (List.mem_append_right l₁ (hhead hne h)) hc
  · rintro (h | h)
    · exact List.infix_append_of_infix_left h
    · exact List.infix_append_of_infix_right (List.infix_cons h)

theorem infix_wordsAux_iff {part : Str} (hne : part ≠ []) (h : ∀ c ∈ part, inWord c = true)
    (text word : Str) : (∃ w ∈ wordsAux word text, part <:+: w) ↔ part <:+: word ++ text := by
  induction text generalizing word with
  | nil =>
    rw [wordsAux, List.append_nil]
    split
    · next e => simp [e, hne]
    · simp
  | cons c cs ih =>
    rw [wordsAux]
    split
    · next hc =>
      have hpart : c ∉ part := fun hmem => by simpa [inWord, hc] using h c hmem
      rw [infix_append_cons_iff hpart]
      split
      · next e =>
        rw [e, ih, List.nil_append]
        simp [hne]
      · rw [List.exists_mem_cons_iff, ih, List.nil_append]
    · rw [ih, List.append_assoc]
      rfl

/-- What has no space is in a text iff it is in one of its words. -/
theorem infix_iff_words {part : Str} (hne : part ≠ []) (h : part.all inWord = true) (text : Str) :
    part <:+: text ↔ ∃ w ∈ words text, part <:+: w :=
  (infix_wordsAux_iff hne (List.all_eq_true.mp h) text []).symm

namespace Stream

/-- The words that are still to be read. -/
structure Ready (s : Stream) (ts : List Str) : Prop where
  fail : s.fail = false
  eof : s.eof = true → s.rest = []
  words_eq : words s.rest = ts

theorem ready_ofText (text : Str) : Ready (ofText text) (words text) := ⟨rfl, nofun, rfl⟩

theorem ready_leave (rest : Str) : Ready (leave rest false) (words rest) :=
  ⟨rfl, of_decide_eq_true, rfl⟩

section
variable {s : Stream} {t : Str} {ts : List Str}

/-- A stream with a word left is good, and `>>` finds the word. -/
theorem Ready.sentry (h : Ready s (t :: ts)) : ∃ rest, s.sentry = (true, leave rest false) ∧
    rest.takeWhile inWord = t ∧ words (rest.dropWhile inWord) = ts := by
  have hne : s.rest.dropWhile isSpace ≠ [] := fun e => by
    have := h.words_eq
    rw [words_of_blank e] at this
    cases this
  have heof : s.eof = false := Bool.eq_false_iff.mpr fun e => by
    rw [h.eof e] at hne
    exact hne rfl
  have hwords := h.words_eq
  rw [Comm.words_eq hne] at hwords
  obtain ⟨ht, hts⟩ := List.cons.inj hwords
  refine ⟨s.rest.dropWhile isSpace, ?_, ht, hts⟩
  simp [Stream.sentry, heof, h.fail, leave, hne]

theorem Ready.extractString (h : Ready s (t :: ts)) (x : Str) :
    ∃ s', (extractString x).run s = (t, s') ∧ Ready s' ts := by
  obtain ⟨rest, hs, ht, hts⟩ := h.sentry
  refine ⟨leave (rest.dropWhile inWord) false, ?_, hts ▸ ready_leave _⟩
  rw [StateT.run, Stream.extractString, hs, ← ht]
  rfl

theorem takeWhile_isDigit {rest : Str} (h : ∀ c ∈ rest.takeWhile inWord, c.isDigit = true) :
    rest.takeWhile Char.isDigit = rest.takeWhile inWord ∧
      rest.dropWhile Char.isDigit = rest.dropWhile inWord := by
  induction rest with
  | nil => exact ⟨rfl, rfl⟩
  | cons c cs ih =>
    by_cases hc : inWord c = true
    · rw [List.takeWhile_cons_of_pos hc] at h
      obtain ⟨hd, h⟩ := List.forall_mem_cons.mp h
      obtain ⟨htake, hdrop⟩ := ih h
      rw [List.takeWhile_cons_of_pos hc, List.takeWhile_cons_of_pos hd, List.dropWhile_cons_of_pos hc,
        List.dropWhile_cons_of_pos hd, htake, hdrop]
      exact ⟨rfl, rfl⟩
    · have hd : ¬ c.isDigit = true := fun hd => hc (by rw [inWord, isSpace_of_isDigit hd]; rfl)
      rw [List.takeWhile_cons_of_neg hc, List.takeWhile_cons_of_neg hd, List.dropWhile_cons_of_neg hc,
        List.dropWhile_cons_of_neg hd]
      exact ⟨rfl, rfl⟩

theorem getSigned_of_isDigit {c : Char} {cs : Str} (h : c.isDigit = true) :
    getSigned (c :: cs) = getLong 1 (c :: cs) := by
  obtain ⟨hm, hp⟩ := digit_ne_sign h
  rw [getSigned]
  · rintro text e
    exact hm (List.cons.inj e).1
  · rintro text e
    exact hp (List.cons.inj e).1

/-- A word that is a number. -/
theorem Ready.run_extractLong {n : Nat} (h : Ready s (toStringU n :: ts)) (x : Option Int) :
    ∃ rest, words rest = ts ∧ (Stream.extractLong x).run s =
      if (n : Int) > longMax then (some longMax, leave rest true) else (some n, leave rest false) := by
  obtain ⟨rest, hs, ht, hts⟩ := h.sentry
  refine ⟨rest.dropWhile inWord, hts, ?_⟩
  have hdigit : ∀ c ∈ rest.takeWhile inWord, c.isDigit = true := fun c hc => by
    rw [ht] at hc
    exact isDigit_of_mem_toStringU hc
  obtain ⟨htake, hdrop⟩ := takeWhile_isDigit hdigit
  have hlong : getLong 1 rest = if (n : Int) > longMax then (longMax, leave (rest.dropWhile inWord) true)
      else (n, leave (rest.dropWhile inWord) false) := by
    have hmin : ¬ (n : Int) < longMin := by
      rw [longMin]
      omega
    rw [getLong, htake, hdrop, ht, digitsVal_toStringU, one_mul, if_neg (toStringU_ne_nil n), if_neg hmin]
  have hsigned : getSigned rest = getLong 1 rest := by
    rcases rest with _ | ⟨c, cs⟩
    · rfl
    · refine getSigned_of_isDigit (hdigit c ?_)
      rw [List.takeWhile_cons_of_pos]
      · exact List.mem_cons_self
      · by_contra hc
        rw [List.takeWhile_cons_of_neg hc] at ht
        exact toStringU_ne_nil n ht.symm
  have hrun : (Stream.extractLong x).run s = (some (getSigned rest).1, (getSigned rest).2) := by
    rw [StateT.run, Stream.extractLong, hs]
    rfl
  rw [hrun, hsigned, hlong]
  split
  · rfl
  · rfl

/-- `>>` of a number that a `long` holds. -/
theorem Ready.extractLong {n : Nat} (h : Ready s (toStringU n :: ts)) (hn : n < 2 ^ 63) (x : Option Int) :
    ∃ s', (Stream.extractLong x).run s = (some (n : Int), s') ∧ Ready s' ts := by
  obtain ⟨rest, hts, hrun⟩ := h.run_extractLong x
  rw [if_neg (by rw [longMax]; omega)] at hrun
  exact ⟨_, hrun, hts ▸ ready_leave rest⟩

/-- `>>` of a larger number. -/
theorem Ready.extractLong_of_le {n : Nat} (h : Ready s (toStringU n :: ts)) (hn : 2 ^ 63 ≤ n)
    (x : Option Int) : ∃ s', (Stream.extractLong x).run s = (some longMax, s') ∧ s'.fail = true := by
  obtain ⟨rest, -, hrun⟩ := h.run_extractLong x
  rw [if_pos (by rw [longMax]; omega)] at hrun
  exact ⟨_, hrun, rfl⟩

theorem Ready.extractLong_cases {n : Nat} (h : Ready s (toStringU n :: ts)) (x : Option Int) :
    ∃ s', (Stream.extractLong x).run s = (some (min (n : Int) longMax), s') ∧
      ((n < 2 ^ 63 ∧ Ready s' ts) ∨ (2 ^ 63 ≤ n ∧ s'.fail = true)) := by
  by_cases hn : n < 2 ^ 63
  · obtain ⟨s', e, h'⟩ := h.extractLong hn x
    refine ⟨s', ?_, .inl ⟨hn, h'⟩⟩
    rw [e, longMax, min_eq_left (by omega)]
  · obtain ⟨s', e, h'⟩ := h.extractLong_of_le (Nat.le_of_not_lt hn) x
    refine ⟨s', ?_, .inr ⟨Nat.le_of_not_lt hn, h'⟩⟩
    rw [e, longMax, min_eq_right (by omega)]

/-- After a failure no variable changes. -/
theorem run_extractLong_of_fail (h : s.fail = true) (x : Option Int) :
    ∃ s', (Stream.extractLong x).run s = (x, s') ∧ s'.fail = true := by
  refine ⟨{ s with fail := true }, ?_, rfl⟩
  rw [StateT.run, Stream.extractLong, Stream.sentry, h, Bool.or_true]
  rfl

theorem run_extractLongs_of_fail (h : s.fail = true) (n : Nat) (x : Option Int) :
    ∃ s', (extractLongs n x).run s = (x, s') ∧ s'.fail = true := by
  induction n generalizing s with
  | zero => exact ⟨s, rfl, h⟩
  | succ n ih =>
    obtain ⟨s₁, hrun, h₁⟩ := run_extractLong_of_fail h x
    obtain ⟨s₂, hrun', h₂⟩ := ih h₁
    refine ⟨s₂, ?_, h₂⟩
    rw [extractLongs, Stateful.run_bind, hrun]
    exact hrun'

/-- What a variable is after `>>` of these numbers one after another: the last
one, or the greatest `long` if one of them is larger. -/
def lastOf (ns : List Nat) (x : Option Int) : Option Int :=
  if ∃ n ∈ ns, 2 ^ 63 ≤ n then some longMax else (ns.getLast?.map Nat.cast).or x

theorem lastOf_cons {n : Nat} (hn : n < 2 ^ 63) (ns : List Nat) (x : Option Int) :
    lastOf ns (some (n : Int)) = lastOf (n :: ns) x := by
  have hiff : (∃ k ∈ n :: ns, 2 ^ 63 ≤ k) ↔ ∃ k ∈ ns, 2 ^ 63 ≤ k := by
    rw [List.exists_mem_cons_iff]
    exact or_iff_right (Nat.not_le.mpr hn)
  have hlast : (ns.getLast?.map Nat.cast).or (some (n : Int)) =
      ((n :: ns).getLast?.map Nat.cast).or x := by
    rw [List.getLast?_cons]
    cases ns.getLast? with
    | none => rfl
    | some k => rfl
  rw [lastOf, lastOf, hlast]
  simp only [hiff]

theorem Ready.extractLongs {ns : List Nat} (h : Ready s (ns.map toStringU ++ ts)) (x : Option Int) :
    ∃ s', (Stream.extractLongs ns.length x).run s = (lastOf ns x, s') := by
  induction ns generalizing s x with
  | nil => exact ⟨s, rfl⟩
  | cons n ns ih =>
    rw [List.map_cons, List.cons_append] at h
    rw [List.length_cons, Stream.extractLongs, Stateful.run_bind]
    by_cases hn : n < 2 ^ 63
    · obtain ⟨s₁, hrun, h₁⟩ := h.extractLong hn x
      obtain ⟨s₂, hrun'⟩ := ih h₁ (some n)
      refine ⟨s₂, ?_⟩
      rw [hrun]
      rw [← lastOf_cons hn]
      exact hrun'
    · obtain ⟨s₁, hrun, h₁⟩ := h.extractLong_of_le (Nat.le_of_not_lt hn) x
      obtain ⟨s₂, hrun', -⟩ := run_extractLongs_of_fail h₁ ns.length (some longMax)
      refine ⟨s₂, ?_⟩
      rw [hrun]
      refine hrun'.trans ?_
      rw [lastOf, if_pos ⟨n, List.mem_cons_self, Nat.le_of_not_lt hn⟩]

/-- `>>` of strings. -/
theorem Ready.extractStrings {l : List Str} (h : Ready s (l ++ ts)) (x : Str) :
    ∃ x' s', (Stream.extractStrings l.length x).run s = (x', s') ∧ Ready s' ts := by
  induction l generalizing s x with
  | nil => exact ⟨x, s, rfl, h⟩
  | cons u l ih =>
    obtain ⟨s₁, hrun, h₁⟩ := h.extractString x
    obtain ⟨x', s₂, hrun', h₂⟩ := ih h₁ u
    refine ⟨x', s₂, ?_, h₂⟩
    rw [List.length_cons, Stream.extractStrings, Stateful.run_bind, hrun]
    exact hrun'

end

end Stream

end OJ.Comm
