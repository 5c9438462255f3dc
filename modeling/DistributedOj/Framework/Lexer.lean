import Mathlib

/-!
# Texts of SQL

The tokens of a text as MySQL reads it (`lex`): words, single characters, and
literals between single quotes, in which a quote is doubled or follows a
backslash. Comments and blanks are left out, and a text ends at its first null
character. A double quote and a back quote are characters like others, for no
constant part of a text has one. A text may have values between quotes and words
between its constant parts (`render`): it is read as these parts with exactly
these values iff every value is `Plain` (`lex_render_iff`).
-/

namespace OJ.Framework.Lexer

/-- A single quote. -/
def quote : Char := '\x27'

def backslash : Char := '\x5c'

/-- The end of a C string. -/
def null : Char := '\x00'

inductive Token where
  | word (text : List Char)
  | char (c : Char)
  | literal (value : List Char)
  deriving DecidableEq, Repr

/-- What the characters so far have opened. -/
inductive Mode where
  | gap
  | word (text : List Char)
  | literal (value : List Char)
  | escape (value : List Char)
  | quoted (value : List Char)
  | dash
  | dashes
  | line
  | slash
  | block
  | star
  deriving DecidableEq, Repr

/-- The tokens so far. -/
structure State where
  tokens : List Token
  mode : Mode
  deriving DecidableEq, Repr

def isBlank (c : Char) : Bool := [' ', '\t', '\n', '\x0b', '\x0c', '\r'].contains c

def isWord (c : Char) : Bool := c.isAlphanum || c == '_' || c == '$' || 128 ≤ c.toNat

/-- What a character after a backslash stands for. -/
def unescape (c : Char) : List Char :=
  match c with
  | '0' => [null]
  | 'b' => ['\x08']
  | 'n' => ['\n']
  | 'r' => ['\r']
  | 't' => ['\t']
  | 'Z' => ['\x1a']
  | '%' => [backslash, '%']
  | '_' => [backslash, '_']
  | c => [c]

/-- A character between tokens. -/
def start (tokens : List Token) (c : Char) : State :=
  if isWord c then ⟨tokens, .word [c]⟩
  else if c = quote then ⟨tokens, .literal []⟩
  else if isBlank c then ⟨tokens, .gap⟩
  else if c = '-' then ⟨tokens, .dash⟩
  else if c = '#' then ⟨tokens, .line⟩
  else if c = '/' then ⟨tokens, .slash⟩
  else ⟨tokens ++ [.char c], .gap⟩

/-- A character after a `-`, which is a token unless it opens a comment. -/
def afterDash (tokens : List Token) (c : Char) : State :=
  if c = '-' then ⟨tokens, .dashes⟩ else start (tokens ++ [.char '-']) c

/-- The next character. -/
def step (s : State) (c : Char) : State :=
  match s.mode with
  | .gap => start s.tokens c
  | .word text =>
    if isWord c then ⟨s.tokens, .word (text ++ [c])⟩ else start (s.tokens ++ [.word text]) c
  | .literal value =>
    if c = quote then ⟨s.tokens, .quoted value⟩
    else if c = backslash then ⟨s.tokens, .escape value⟩
    else ⟨s.tokens, .literal (value ++ [c])⟩
  | .escape value => ⟨s.tokens, .literal (value ++ unescape c)⟩
  | .quoted value =>
    if c = quote then ⟨s.tokens, .literal (value ++ [quote])⟩
    else start (s.tokens ++ [.literal value]) c
  | .dash => afterDash s.tokens c
  | .dashes =>
    if c = '\n' then ⟨s.tokens, .gap⟩
    else if isBlank c then ⟨s.tokens, .line⟩
    else afterDash (s.tokens ++ [.char '-']) c
  | .line => ⟨s.tokens, if c = '\n' then .gap else .line⟩
  | .slash => if c = '*' then ⟨s.tokens, .block⟩ else start (s.tokens ++ [.char '/']) c
  | .block => ⟨s.tokens, if c = '*' then .star else .block⟩
  | .star => ⟨s.tokens, if c = '/' then .gap else if c = '*' then .star else .block⟩

/-- The tokens at the end, unless a literal or a comment is open. -/
def finish (s : State) : Option (List Token) :=
  match s.mode with
  | .gap | .dashes | .line => some s.tokens
  | .word text => some (s.tokens ++ [.word text])
  | .quoted value => some (s.tokens ++ [.literal value])
  | .dash => some (s.tokens ++ [.char '-'])
  | .slash => some (s.tokens ++ [.char '/'])
  | .literal _ | .escape _ | .block | .star => none

/-- A C string. -/
def cString (text : List Char) : List Char := text.takeWhile (· ≠ null)

def lexFrom (s : State) (text : List Char) : Option (List Token) :=
  finish ((cString text).foldl step s)

def lex (text : List Char) : Option (List Token) := lexFrom ⟨[], .gap⟩ text

/-! ## The tokens so far stay -/

section
variable {ts us toks : List Token} {s : State} {c : Char} {text : List Char}

/-- The state with further tokens before its own. -/
def State.after (ts : List Token) (s : State) : State := ⟨ts ++ s.tokens, s.mode⟩

theorem start_append (ts us : List Token) (c : Char) :
    start (ts ++ us) c = (start us c).after ts := by
  simp only [start, State.after, List.append_assoc]
  split_ifs <;> rfl

theorem afterDash_append (ts us : List Token) (c : Char) :
    afterDash (ts ++ us) c = (afterDash us c).after ts := by
  simp only [afterDash, List.append_assoc, start_append]
  split_ifs <;> rfl

theorem step_after (ts : List Token) (s : State) (c : Char) :
    step (s.after ts) c = (step s c).after ts := by
  obtain ⟨us, mode⟩ := s
  cases mode <;>
    simp only [step, State.after, List.append_assoc, start_append, afterDash_append] <;>
    split_ifs <;> rfl

/-- What is read does not depend on the tokens before it. -/
theorem foldl_after (ts : List Token) (s : State) (text : List Char) :
    text.foldl step (s.after ts) = (text.foldl step s).after ts := by
  induction text generalizing s with
  | nil => rfl
  | cons c text ih => rw [List.foldl_cons, List.foldl_cons, step_after, ih]

theorem foldl_gap (ts : List Token) (text : List Char) :
    text.foldl step ⟨ts, .gap⟩ = (text.foldl step ⟨[], .gap⟩).after ts := by
  rw [← foldl_after, State.after, List.append_nil]

theorem finish_after (ts : List Token) (s : State) :
    finish (s.after ts) = (finish s).map (ts ++ ·) := by
  obtain ⟨us, mode⟩ := s
  cases mode <;> simp [finish, State.after]

end

/-! ## Literals -/

/-- After the quote that opens a literal: its value, and what follows it. -/
inductive Reads : List Char → List Char → List Char → Prop
  | close {rest : List Char} : (∀ c ∈ rest.head?, c ≠ quote) → Reads (quote :: rest) [] rest
  | double {text value rest : List Char} :
      Reads text value rest → Reads (quote :: quote :: text) (quote :: value) rest
  | escape {text value rest : List Char} (c : Char) :
      Reads text value rest → Reads (backslash :: c :: text) (unescape c ++ value) rest
  | char {text value rest : List Char} {c : Char} : c ≠ quote → c ≠ backslash →
      Reads text value rest → Reads (c :: text) (c :: value) rest

/-- A value that stands for itself between quotes: no quote, and a backslash only
before `%` or `_`. -/
inductive Verbatim : List Char → Prop
  | nil : Verbatim []
  | pattern {c : Char} {value : List Char} : c = '%' ∨ c = '_' → Verbatim value →
      Verbatim (backslash :: c :: value)
  | char {c : Char} {value : List Char} : c ≠ quote → c ≠ backslash → Verbatim value →
      Verbatim (c :: value)

section
variable {ts toks : List Token} {text value rest v : List Char} {c sep : Char}

theorem unescape_of_pattern (h : c = '%' ∨ c = '_') : unescape c = [backslash, c] := by
  rcases h with rfl | rfl
  · rfl
  · rfl

/-- An escape is shorter than what stands for it, except before `%` and `_`. -/
theorem length_unescape (c : Char) : (unescape c).length ≤ 2 ∧
    ((unescape c).length = 2 → c = '%' ∨ c = '_') := by
  unfold unescape
  split <;> simp

/-- A value that stands for itself is read as itself. -/
theorem Verbatim.reads (h : Verbatim value) (hr : ∀ c ∈ rest.head?, c ≠ quote) :
    Reads (value ++ quote :: rest) value rest := by
  induction h with
  | nil => exact .close hr
  | @pattern c value hc _ ih =>
    have := Reads.escape c ih
    rw [unescape_of_pattern hc] at this
    exact this
  | char hq hb _ ih => exact .char hq hb ih

/-- A literal is at least as long as its value, and no longer only if the value
stands for itself. -/
theorem Reads.length_le (h : Reads text value rest) : value.length + 1 + rest.length ≤ text.length ∧
    (value.length + 1 + rest.length = text.length →
      Verbatim value ∧ text = value ++ quote :: rest) := by
  induction h with
  | close _ => simp [Verbatim.nil, Nat.add_comm]
  | @double text value rest _ ih =>
    simp only [List.length_cons]
    omega
  | @escape text value rest c _ ih =>
    obtain ⟨hle, hpat⟩ := length_unescape c
    simp only [List.length_cons, List.length_append]
    refine ⟨by omega, fun heq => ?_⟩
    have hc := hpat (by omega)
    obtain ⟨hv, ht⟩ := ih.2 (by omega)
    rw [unescape_of_pattern hc, ht]
    exact ⟨.pattern hc hv, rfl⟩
  | @char text value rest c hq hb _ ih =>
    simp only [List.length_cons]
    refine ⟨by omega, fun heq => ?_⟩
    obtain ⟨hv, ht⟩ := ih.2 (by omega)
    rw [ht]
    exact ⟨.char hq hb hv, rfl⟩

theorem Reads.eq_append (h : Reads text value rest) : ∃ before, text = before ++ quote :: rest := by
  induction h with
  | close _ => exact ⟨[], rfl⟩
  | double _ ih =>
    obtain ⟨before, rfl⟩ := ih
    exact ⟨quote :: quote :: before, rfl⟩
  | escape c _ ih =>
    obtain ⟨before, rfl⟩ := ih
    exact ⟨backslash :: c :: before, rfl⟩
  | @char _ _ _ c _ _ _ ih =>
    obtain ⟨before, rfl⟩ := ih
    exact ⟨c :: before, rfl⟩

/-- A quote and a separator stand at a position. -/
def Breaks (sep : Char) (text : List Char) (i : Nat) : Prop :=
  text[i]? = some quote ∧ text[i + 1]? = some sep

/-- A separator at the front is read as itself. -/
theorem Reads.head_eq (hq : sep ≠ quote) (hb : sep ≠ backslash) (h : Reads text value rest)
    (ht : text[0]? = some sep) : value[0]? = some sep := by
  cases h with
  | close | double => exact absurd (Option.some.inj ht).symm hq
  | escape => exact absurd (Option.some.inj ht).symm hb
  | char => exact ht

/-- A quote and a separator inside a literal are those of its value at an earlier
position: the quote takes two characters. -/
theorem Reads.breaks (hq : sep ≠ quote) (hb : sep ≠ backslash) (h : Reads text value rest) {i : Nat}
    (hi : i + 1 + rest.length + 1 < text.length) (ht : Breaks sep text i) :
    ∃ j < i, Breaks sep value j := by
  induction h generalizing i with
  | close =>
    simp only [List.length_cons] at hi
    omega
  | @double text value rest h ih =>
    match i with
    | 0 => exact absurd (Option.some.inj ht.2).symm hq
    | 1 => exact ⟨0, by omega, rfl, h.head_eq hq hb ht.2⟩
    | i + 2 =>
      simp only [List.length_cons] at hi
      obtain ⟨j, hj, hbreak⟩ := ih (by omega) ht
      exact ⟨j + 1, by omega, hbreak⟩
  | @escape text value rest c h ih =>
    match i with
    | 0 => exact absurd (Option.some.inj ht.1) (by decide)
    | 1 =>
      have hc : c = quote := Option.some.inj ht.1
      rw [hc]
      exact ⟨0, by omega, rfl, h.head_eq hq hb ht.2⟩
    | i + 2 =>
      simp only [List.length_cons] at hi
      obtain ⟨j, hj, hbreak⟩ := ih (by omega) ht
      have hle := (length_unescape c).1
      refine ⟨(unescape c).length + j, by omega, ?_⟩
      rw [Breaks, Nat.add_assoc, List.getElem?_append_right (by omega),
        List.getElem?_append_right (by omega)]
      simpa [Breaks, Nat.add_assoc] using hbreak
  | @char text value rest c hq' hb' h ih =>
    match i with
    | 0 => exact absurd (Option.some.inj ht.1) hq'
    | i + 1 =>
      simp only [List.length_cons] at hi
      obtain ⟨j, hj, hbreak⟩ := ih (by omega) ht
      exact ⟨j + 1, by omega, hbreak⟩

theorem Breaks.append {i : Nat} (h : Breaks sep value i) (text : List Char) :
    Breaks sep (value ++ text) i := by
  have hlt : i + 1 < value.length := (List.getElem?_eq_some_iff.mp h.2).1
  rw [Breaks, List.getElem?_append_left (by omega), List.getElem?_append_left hlt]
  exact h

/-- A literal whose text starts with its value has no quote and separator. -/
theorem Reads.not_breaks (hq : sep ≠ quote) (hb : sep ≠ backslash) {tail : List Char}
    (h : Reads (value ++ tail) value rest) (i : Nat)
    (hi : i + 1 + rest.length + 1 < (value ++ tail).length) :
    ¬ Breaks sep (value ++ tail) i := by
  induction i using Nat.strong_induction_on with
  | _ i ih =>
    intro ht
    obtain ⟨j, hj, hbreak⟩ := h.breaks hq hb hi ht
    exact ih j hj (by omega) (hbreak.append tail)

/-- A value before a quote and what is no quote and no backslash stands for itself,
if it is what is read. Otherwise the literal goes on behind that quote, which then
is a quote before a separator inside the literal. -/
theorem Reads.verbatim (h : Reads (value ++ quote :: rest) value v)
    (hr : ∀ c ∈ rest.head?, c ≠ quote ∧ c ≠ backslash) : Verbatim value ∧ v = rest := by
  obtain ⟨hle, heq⟩ := h.length_le
  simp only [List.length_append, List.length_cons] at hle heq
  by_cases hlen : v.length = rest.length
  · obtain ⟨hv, ht⟩ := heq (by omega)
    exact ⟨hv, (List.cons.inj (List.append_cancel_left ht)).2.symm⟩
  obtain ⟨sep, tail, rfl⟩ : ∃ sep tail, rest = sep :: tail := by
    cases rest with
    | nil =>
      simp only [List.length_nil] at hle hlen
      omega
    | cons sep tail => exact ⟨sep, tail, rfl⟩
  obtain ⟨hq, hb⟩ := hr sep rfl
  have hbreak : Breaks sep (value ++ quote :: sep :: tail) value.length := by
    rw [Breaks, List.getElem?_append_right le_rfl, List.getElem?_append_right (by omega)]
    simp
  refine absurd hbreak (h.not_breaks hq hb value.length ?_)
  obtain ⟨before, ht⟩ := h.eq_append
  have hbefore := congrArg List.length ht
  simp only [List.length_append, List.length_cons] at hbefore hle hlen ⊢
  -- The quote that closes the literal is not where the separator is.
  have hne : before.length ≠ value.length + 1 := by
    intro e
    have hsep := hbreak.2
    rw [ht, ← e, List.getElem?_append_right le_rfl, Nat.sub_self] at hsep
    exact hq (Option.some.inj hsep).symm
  omega

/-! ## Literals in a text -/

/-- An open literal is closed somewhere, if there are tokens at the end. -/
theorem exists_reads {u : List Char} (h : finish (text.foldl step ⟨ts, .literal u⟩) = some toks) :
    ∃ value rest, Reads text value rest ∧
      finish (rest.foldl step ⟨ts ++ [.literal (u ++ value)], .gap⟩) = some toks := by
  induction hn : text.length using Nat.strong_induction_on generalizing text u with
  | _ n ih =>
    match text with
    | [] => cases h
    | c :: text =>
      rw [List.length_cons] at hn
      by_cases hq : c = quote
      · subst hq
        match text with
        | [] => exact ⟨[], [], .close (by simp), by rw [List.append_nil]; exact h⟩
        | d :: text =>
          rw [List.length_cons] at hn
          by_cases hd : d = quote
          · subst hd
            obtain ⟨value, rest, hr, hf⟩ := ih text.length (by omega) (u := u ++ [quote]) h rfl
            exact ⟨_, rest, .double hr, by rw [List.append_assoc] at hf; exact hf⟩
          · refine ⟨[], d :: text, .close (by simpa using hd), ?_⟩
            have hs : step ⟨ts, .quoted u⟩ d = step ⟨ts ++ [.literal u], .gap⟩ d := if_neg hd
            rw [List.append_nil, List.foldl_cons, ← hs]
            exact h
      by_cases hb : c = backslash
      · subst hb
        match text with
        | [] => cases h
        | d :: text =>
          rw [List.length_cons] at hn
          obtain ⟨value, rest, hr, hf⟩ := ih text.length (by omega) (u := u ++ unescape d) h rfl
          exact ⟨_, rest, .escape d hr, by rw [List.append_assoc] at hf; exact hf⟩
      · have hs : step ⟨ts, .literal u⟩ c = ⟨ts, .literal (u ++ [c])⟩ := (if_neg hq).trans (if_neg hb)
        rw [List.foldl_cons, hs] at h
        obtain ⟨value, rest, hr, hf⟩ := ih text.length (by omega) h rfl
        exact ⟨_, rest, .char hq hb hr, by rw [List.append_assoc] at hf; exact hf⟩

/-- A literal that is closed is a token. -/
theorem Reads.foldl_step (h : Reads text value rest) (u : List Char) :
    finish (text.foldl step ⟨ts, .literal u⟩) =
      finish (rest.foldl step ⟨ts ++ [.literal (u ++ value)], .gap⟩) := by
  induction h generalizing u with
  | @close rest hr =>
    rw [List.append_nil]
    cases rest with
    | nil => rfl
    | cons d rest =>
      have hs : step ⟨ts, .quoted u⟩ d = step ⟨ts ++ [.literal u], .gap⟩ d := if_neg (hr d rfl)
      rw [List.foldl_cons (l := rest), ← hs]
      rfl
  | double _ ih =>
    have := ih (u ++ [quote])
    rw [List.append_assoc] at this
    exact this
  | escape c _ ih =>
    have := ih (u ++ unescape c)
    rw [List.append_assoc] at this
    exact this
  | @char _ _ _ c hq hb _ ih =>
    have hs : step ⟨ts, .literal u⟩ c = ⟨ts, .literal (u ++ [c])⟩ := (if_neg hq).trans (if_neg hb)
    rw [List.foldl_cons, hs, ih, List.append_assoc]
    rfl

/-- A value that stands for itself in a C string. -/
def Plain (value : List Char) : Prop := null ∉ value ∧ Verbatim value

theorem cString_append (h : null ∉ value) (text : List Char) :
    cString (value ++ text) = value ++ cString text :=
  List.takeWhile_append_of_pos fun _ hc => decide_eq_true fun e => h (e ▸ hc)

theorem cString_cons (h : c ≠ null) (text : List Char) : cString (c :: text) = c :: cString text :=
  List.takeWhile_cons_of_pos (decide_eq_true h)

theorem cString_eq (h : null ∉ value) : cString value = value := by
  have hc := cString_append h []
  rw [List.append_nil] at hc
  rw [hc]
  exact List.append_nil value

/-- A text that goes on behind a null character does not reach what comes after. -/
theorem cString_of_null (h : null ∈ value) (text : List Char) :
    (cString (value ++ text)).length < value.length := by
  obtain ⟨before, after, rfl, hb⟩ := List.eq_append_cons_of_mem h
  rw [List.append_assoc, cString_append hb, List.cons_append, cString,
    List.takeWhile_cons_of_neg (by simp)]
  simp

theorem head?_cString (hc : c ∈ (cString text).head?) : c ∈ text.head? := by
  cases text with
  | nil => exact hc
  | cons d text =>
    rw [cString, List.takeWhile_cons] at hc
    split at hc
    · exact hc
    · cases hc

/-- Whatever follows, the tokens so far come first. -/
theorem tokens_of_finish {t : Token} (h : finish (text.foldl step ⟨ts ++ [t], .gap⟩) = some toks) :
    ∃ more, toks = ts ++ t :: more := by
  rw [foldl_gap, finish_after] at h
  obtain ⟨more, -, rfl⟩ := Option.map_eq_some_iff.mp h
  exact ⟨more, by rw [List.append_assoc]; rfl⟩

/-- A value between quotes is read as itself iff it is plain. -/
theorem lexFrom_value (hr : ∀ c ∈ rest.head?, c ≠ quote ∧ c ≠ backslash) :
    lexFrom ⟨ts, .literal []⟩ (value ++ quote :: rest) = some (ts ++ .literal value :: toks) ↔
      Plain value ∧
        lexFrom ⟨ts ++ [.literal value], .gap⟩ rest = some (ts ++ .literal value :: toks) := by
  have hquote : quote ≠ null := by decide
  constructor
  · intro h
    obtain ⟨v, after, hreads, hf⟩ := exists_reads h
    obtain ⟨more, e⟩ := tokens_of_finish hf
    obtain rfl : value = v := Token.literal.inj (List.cons.inj (List.append_cancel_left e)).1
    by_cases hnull : null ∈ value
    · have hle := hreads.length_le.1
      have hlt := cString_of_null hnull (quote :: rest)
      omega
    · rw [cString_append hnull, cString_cons hquote] at hreads
      obtain ⟨hv, rfl⟩ := hreads.verbatim fun c hc => hr c (head?_cString hc)
      exact ⟨⟨hnull, hv⟩, hf⟩
  · rintro ⟨⟨hnull, hv⟩, h⟩
    rw [lexFrom, cString_append hnull, cString_cons hquote,
      (hv.reads fun c hc => (hr c (head?_cString hc)).1).foldl_step []]
    exact h

end

/-! ## Templates -/

/-- A part of a text that is read by itself. -/
structure Template (text : List Char) : Prop where
  null : null ∉ text
  gap : (text.foldl step ⟨[], .gap⟩).mode = .gap

/-- A template that a literal or a word may stand before. -/
structure Separator (text : List Char) : Prop extends Template text where
  head : ∀ c ∈ text.head?, c ≠ quote ∧ c ≠ backslash ∧ isWord c = false

/-- A text that ends in a word. -/
structure Bare (text : List Char) : Prop where
  null : null ∉ text
  word : ∃ tokens w, text.foldl step ⟨[], .gap⟩ = ⟨tokens, .word w⟩

/-- What stands between the templates of a text. -/
inductive Item where
  | literal (value : List Char)
  | bare (text : List Char)

def Item.text : Item → List Char
  | literal value => quote :: (value ++ [quote])
  | bare text => text

def Item.tokens : Item → List Token
  | literal value => [.literal value]
  | bare text => (lex text).getD []

def Item.Ok : Item → Prop
  | literal _ => True
  | bare text => Bare text

def Item.Plain : Item → Prop
  | literal value => Lexer.Plain value
  | bare _ => True

def tokensOf (text : List Char) : List Token := (text.foldl step ⟨[], .gap⟩).tokens

/-- Items, and a template after each. -/
def render : List Item → List (List Char) → List Char
  | item :: items, sep :: seps => item.text ++ (sep ++ render items seps)
  | _, _ => []

/-- The items and the templates, each by itself. -/
def shape : List Item → List (List Char) → List Token
  | item :: items, sep :: seps => item.tokens ++ (tokensOf sep ++ shape items seps)
  | _, _ => []

/-- Templates between items: only the last one may be empty. -/
def Separators (seps : List (List Char)) : Prop :=
  (∀ sep ∈ seps, Separator sep) ∧ ∀ sep ∈ seps.dropLast, sep ≠ []

instance (text : List Char) : Decidable (Template text) :=
  decidable_of_iff (Lexer.null ∉ text ∧ (text.foldl step ⟨[], .gap⟩).mode = .gap)
    ⟨fun h => ⟨h.1, h.2⟩, fun h => ⟨h.null, h.gap⟩⟩

instance (text : List Char) : Decidable (Separator text) :=
  decidable_of_iff
    (Template text ∧ text.head?.all fun c => c ≠ quote ∧ c ≠ backslash ∧ isWord c = false)
    ⟨fun h => ⟨h.1, fun c hc => of_decide_eq_true ((Option.all_eq_true _ _).mp h.2 c hc)⟩,
      fun h => ⟨h.toTemplate, (Option.all_eq_true _ _).mpr fun c hc => decide_eq_true (h.head c hc)⟩⟩

instance (seps : List (List Char)) : Decidable (Separators seps) :=
  inferInstanceAs (Decidable (_ ∧ _))

section
variable {text rest : List Char} {item : Item} {items : List Item} {sep : List Char}
  {seps : List (List Char)} {ts : List Token}

theorem Template.foldl_step (h : Template text) (ts : List Token) :
    text.foldl step ⟨ts, .gap⟩ = ⟨ts ++ tokensOf text, .gap⟩ := by
  rw [foldl_gap, State.after, h.gap]
  rfl

theorem Template.lexFrom (h : Template text) (ts : List Token) (rest : List Char) :
    Lexer.lexFrom ⟨ts, .gap⟩ (text ++ rest) = Lexer.lexFrom ⟨ts ++ tokensOf text, .gap⟩ rest := by
  rw [Lexer.lexFrom, cString_append h.null, List.foldl_append, h.foldl_step]
  rfl

theorem Separators.tail (h : Separators (sep :: seps)) : Separators seps := by
  refine ⟨fun s hs => h.1 s (List.mem_cons_of_mem _ hs), fun s hs => ?_⟩
  cases seps with
  | nil => cases hs
  | cons sep' seps => exact h.2 s (List.mem_cons_of_mem _ hs)

/-- What comes after an item does not extend it. -/
theorem Separators.head (h : Separators (sep :: seps)) (items : List Item) :
    ∀ c ∈ (sep ++ render items seps).head?, c ≠ quote ∧ c ≠ backslash ∧ isWord c = false := by
  have hsep := (h.1 sep List.mem_cons_self).head
  cases sep with
  | cons c sep => exact hsep
  | nil =>
    cases seps with
    | cons sep' seps => exact absurd rfl (h.2 [] List.mem_cons_self)
    | nil =>
      intro c hc
      cases items with
      | nil => cases hc
      | cons => cases hc

theorem lex_of_foldl (hnull : Lexer.null ∉ text) {tokens : List Token} {w : List Char}
    (hw : text.foldl step ⟨[], .gap⟩ = ⟨tokens, .word w⟩) :
    lex text = some (tokens ++ [.word w]) := by
  rw [lex, Lexer.lexFrom, cString_eq hnull, hw]
  rfl

/-- A word ends where no word goes on. -/
theorem Bare.lexFrom (h : Bare text) (hr : ∀ c ∈ rest.head?, isWord c = false) (ts : List Token) :
    Lexer.lexFrom ⟨ts, .gap⟩ (text ++ rest) =
      Lexer.lexFrom ⟨ts ++ (lex text).getD [], .gap⟩ rest := by
  obtain ⟨tokens, w, hw⟩ := h.word
  have hword : text.foldl step ⟨ts, .gap⟩ = ⟨ts ++ tokens, .word w⟩ := by
    rw [foldl_gap, hw]
    rfl
  rw [Lexer.lexFrom, cString_append h.null, List.foldl_append, hword, lex_of_foldl h.null hw,
    Option.getD_some, Lexer.lexFrom, ← List.append_assoc]
  cases hcut : cString rest with
  | nil => rfl
  | cons c text =>
    have hc : isWord c = false := hr c (head?_cString (by rw [hcut]; rfl))
    have hstep : step ⟨ts ++ tokens, .word w⟩ c = start (ts ++ tokens ++ [.word w]) c :=
      if_neg (by rw [hc]; exact Bool.false_ne_true)
    rw [List.foldl_cons, hstep]
    rfl

theorem foldl_word {w : List Char} (hw : ∀ c ∈ w, isWord c = true) (ts : List Token) (u : List Char) :
    w.foldl step ⟨ts, .word u⟩ = ⟨ts, .word (u ++ w)⟩ := by
  induction w generalizing u with
  | nil => rw [List.append_nil]; rfl
  | cons c w ih =>
    obtain ⟨hc, hw⟩ := List.forall_mem_cons.mp hw
    have hs : step ⟨ts, .word u⟩ c = ⟨ts, .word (u ++ [c])⟩ := if_pos hc
    rw [List.foldl_cons, hs, ih hw, List.append_assoc]
    rfl

theorem null_notMem_of_isWord {w : List Char} (hw : ∀ c ∈ w, isWord c = true) : Lexer.null ∉ w :=
  fun h => absurd (hw _ h) (by decide)

/-- A word, also after a `-`. -/
theorem foldl_of_isWord {w : List Char} (hne : w ≠ []) (hw : ∀ c ∈ w, isWord c = true) :
    w.foldl step ⟨[], .gap⟩ = ⟨[], .word w⟩ ∧
      ('-' :: w).foldl step ⟨[], .gap⟩ = ⟨[.char '-'], .word w⟩ := by
  obtain ⟨c, w, rfl⟩ := List.exists_cons_of_ne_nil hne
  obtain ⟨hc, hw⟩ := List.forall_mem_cons.mp hw
  have hone (ts : List Token) : start ts c = ⟨ts, .word [c]⟩ := if_pos hc
  have hdash : afterDash [] c = start [.char '-'] c :=
    if_neg fun e => absurd (e ▸ hc) (by decide)
  constructor
  · show w.foldl step (start [] c) = _
    rw [hone, foldl_word hw]
    rfl
  · show w.foldl step (afterDash [] c) = _
    rw [hdash, hone, foldl_word hw]
    rfl

/-- A text is read as its items and templates iff all literals are plain. -/
theorem lexFrom_render_iff (hitems : ∀ item ∈ items, item.Ok) (hseps : Separators seps)
    (hlen : items.length = seps.length) (ts : List Token) :
    lexFrom ⟨ts, .gap⟩ (render items seps) = some (ts ++ shape items seps) ↔
      ∀ item ∈ items, item.Plain := by
  induction items generalizing seps ts with
  | nil =>
    rw [render, shape, List.append_nil]
    · exact ⟨fun _ _ h => (List.not_mem_nil h).elim, fun _ => rfl⟩
    all_goals simp
  | cons item items ih =>
    obtain ⟨sep, seps, rfl⟩ := List.exists_cons_of_length_eq_add_one hlen.symm
    obtain ⟨hitem, hitems⟩ := List.forall_mem_cons.mp hitems
    have hhead := hseps.head items
    have hsep := (hseps.1 sep List.mem_cons_self).toTemplate
    have ih := ih hitems hseps.tail (Nat.succ.inj hlen)
    rw [render, shape, List.forall_mem_cons]
    cases item with
    | bare text =>
      have hitem : Bare text := hitem
      rw [Item.text, hitem.lexFrom fun c hc => (hhead c hc).2.2, hsep.lexFrom, Item.tokens,
        ← List.append_assoc, ← List.append_assoc, ih]
      exact (and_iff_right trivial).symm
    | literal value =>
      have hopen : lexFrom ⟨ts, .gap⟩ (quote :: (value ++ quote :: (sep ++ render items seps))) =
          lexFrom ⟨ts, .literal []⟩ (value ++ quote :: (sep ++ render items seps)) := by
        rw [lexFrom, cString_cons (by decide)]
        rfl
      have htokens : ts ++ .literal value :: (tokensOf sep ++ shape items seps) =
          ts ++ [.literal value] ++ tokensOf sep ++ shape items seps := by
        rw [List.append_assoc, List.append_assoc]
        rfl
      rw [Item.text, Item.tokens, List.cons_append, List.append_assoc, List.singleton_append, hopen,
        List.singleton_append, lexFrom_value fun c hc => ⟨(hhead c hc).1, (hhead c hc).2.1⟩, htokens,
        hsep.lexFrom, ih]
      rfl

theorem lex_render_iff (htext : Template text) (hitems : ∀ item ∈ items, item.Ok)
    (hseps : Separators seps) (hlen : items.length = seps.length) :
    lex (text ++ render items seps) = some (tokensOf text ++ shape items seps) ↔
      ∀ item ∈ items, item.Plain := by
  rw [lex, htext.lexFrom, List.nil_append]
  exact lexFrom_render_iff hitems hseps hlen _

-- A quote is doubled, a newline is escaped, and the rest is a comment.
example : lex "n='it''s\\n' -- x".toList =
    some [.word "n".toList, .char '=', .literal "it's\n".toList] := by decide +kernel

/-- Two items that are told apart whatever follows them. -/
def Item.Apart (item item' : Item) : Prop :=
  ∀ ts ts', item.tokens ++ ts = item'.tokens ++ ts' → item = item' ∧ ts = ts'

theorem Item.apart_literal (value value' : List Char) : (literal value).Apart (literal value') := by
  intro ts ts' h
  obtain ⟨h, hts⟩ := List.cons.inj h
  rw [Token.literal.inj h]
  exact ⟨rfl, hts⟩

/-- The tokens tell which items they are of. -/
theorem shape_inj {items' : List Item} (h : List.Forall₂ Item.Apart items items')
    (hlen : items.length = seps.length) (hs : shape items seps = shape items' seps) :
    items = items' := by
  induction h generalizing seps with
  | nil => rfl
  | @cons item item' items items' hitem _ ih =>
    obtain ⟨sep, seps, rfl⟩ := List.exists_cons_of_length_eq_add_one hlen.symm
    obtain ⟨rfl, hrest⟩ := hitem _ _ hs
    rw [ih (Nat.succ.inj hlen) (List.append_cancel_left hrest)]

end

end OJ.Framework.Lexer
