import DistributedOj.Comm.Digits
import DistributedOj.Framework.Calendar

/-!
# `timeToString` and `convertStringToTimeT`

`localtime`, `strftime`, `strptime` and `mktime` in a time zone with a fixed
offset. `strptime` reads back what `strftime` wrote in the same format, as long as
nothing in it runs into what follows (`strptime_strftime`), and leaves the rest of
the `struct tm` as it was. So a time comes back as it was, or an hour earlier if
what `tm_isdst` happened to be is positive (`convertStringToTimeT_timeToString`).
-/

namespace OJ.Comm

open OJ.Framework

/-- `struct tm`. -/
structure Tm where
  tmSec : Int
  tmMin : Int
  tmHour : Int
  tmMday : Int
  tmMon : Int
  tmYear : Int
  tmWday : Int
  tmYday : Int
  tmIsdst : Int
  deriving DecidableEq

/-- The day number of 1970-01-01. -/
def epoch : Int := daysBeforeYear 1970

/-- `localtime` at `offset` seconds from UTC. -/
def localtime (offset t : Int) : Tm :=
  let date := dateOf (epoch + (t + offset) / 86400)
  let sec := (t + offset) % 86400
  { tmSec := sec % 60
    tmMin := sec / 60 % 60
    tmHour := sec / 3600
    tmMday := date.day + 1
    tmMon := date.month
    tmYear := date.year - 1900
    tmWday := ((t + offset) / 86400 + 4) % 7
    tmYday := epoch + (t + offset) / 86400 - daysBeforeYear date.year
    tmIsdst := 0 }

/-- `mktime`, which takes a positive `tm_isdst` for a clock that is an hour
ahead, and does not read `tm_wday` and `tm_yday`. -/
def mktime (offset : Int) (tm : Tm) : Int :=
  let day := dayNumber (tm.tmYear + 1900 + tm.tmMon / 12) (tm.tmMon % 12).toNat (tm.tmMday - 1) - epoch
  day * 86400 + tm.tmHour * 3600 + tm.tmMin * 60 + tm.tmSec - offset -
    if tm.tmIsdst > 0 then 3600 else 0

/-! ## Formats -/

/-- `%02d`. -/
def twoDigits (n : Int) : Str := if 0 ≤ n ∧ n < 10 then '0' :: toStringI n else toStringI n

/-- What a conversion stands for. -/
inductive Field where
  | Y | m | d | H | M | S
  deriving DecidableEq

namespace Field

/-- The number that `strftime` writes. -/
def get (tm : Tm) : Field → Int
  | Y => tm.tmYear + 1900
  | m => tm.tmMon + 1
  | d => tm.tmMday
  | H => tm.tmHour
  | M => tm.tmMin
  | S => tm.tmSec

/-- What `strptime` does with the number that it has read. -/
def set (n : Int) (tm : Tm) : Field → Tm
  | Y => { tm with tmYear := n - 1900 }
  | m => { tm with tmMon := n - 1 }
  | d => { tm with tmMday := n }
  | H => { tm with tmHour := n }
  | M => { tm with tmMin := n }
  | S => { tm with tmSec := n }

/-- The least and the greatest number that `strptime` accepts. -/
def low : Field → Nat
  | m | d => 1
  | _ => 0

def high : Field → Nat
  | Y => 9999
  | m => 12
  | d => 31
  | H => 23
  | M => 59
  | S => 61

/-- How many digits it reads at most. -/
def width : Field → Nat
  | Y => 4
  | _ => 2

/-- The digits that `strftime` writes: two, but for the year. -/
def text (n : Int) : Field → Str
  | Y => toStringI n
  | _ => twoDigits n

def ofChar : Char → Option Field
  | 'Y' => some Y
  | 'm' => some m
  | 'd' => some d
  | 'H' => some H
  | 'M' => some M
  | 'S' => some S
  | _ => none

end Field

/-- A part of a format: a character for itself, or a conversion. -/
inductive Conv where
  | char (c : Char)
  | field (f : Field)
  deriving DecidableEq

/-- A format with the conversions above. -/
def conversions : Str → List Conv
  | '%' :: c :: fmt =>
    match Field.ofChar c with
    | some f => .field f :: conversions fmt
    | none => .char c :: conversions fmt
  | c :: fmt => .char c :: conversions fmt
  | [] => []

def strftime (tm : Tm) (fmt : List Conv) : Str :=
  fmt.flatMap fun
    | .char c => [c]
    | .field f => f.text (f.get tm)

/-- The digits of a number, at most `n` of them and no more than can lead to a
number up to `high`, with `val` read so far. -/
def getDigits (high : Nat) : Nat → Nat → Str → Nat × Str
  | n + 1, val, c :: cs =>
    if c.isDigit ∧ val * 10 ≤ high then getDigits high n (val * 10 + (c.toNat - '0'.toNat)) cs
    else (val, c :: cs)
  | _, val, cs => (val, cs)

/-- A number of at most `n` digits from `low` to `high`. -/
def getNumber (low high n : Nat) (text : Str) : Option (Nat × Str) :=
  let text := text.dropWhile isSpace
  if text.head?.any Char.isDigit then
    let (val, rest) := getDigits high n 0 text
    if low ≤ val ∧ val ≤ high then some (val, rest) else none
  else none

/-- The `struct tm` after `strptime`, which stops where the text does not
match. -/
def strptime : List Conv → Str → Tm → Tm
  | [], _, tm => tm
  | .char c :: fmt, text, tm =>
    if isSpace c then strptime fmt (text.dropWhile isSpace) tm
    else if text.head? = some c then strptime fmt text.tail tm
    else tm
  | .field f :: fmt, text, tm =>
    match getNumber f.low f.high f.width text with
    | some (n, text) => strptime fmt text (f.set n tm)
    | none => tm

/-! ## `StringUtil` -/

/-- `timeToString`, whose buffer holds any year that is an `int`. -/
def timeToString (offset t : Int) : Str :=
  strftime (localtime offset t) (conversions "'%Y-%m-%d %H:%M:%S'".toList)

/-- `convertStringToTimeT`, with what its `struct tm` holds at first. -/
def convertStringToTimeT (offset : Int) (tm : Tm) (timestamp : Str) : Int :=
  mktime offset (strptime (conversions "%Y-%m-%d %H:%M:%S".toList) timestamp tm)

/-! ## Numbers -/

theorem le_digitsVal {ds : Str} (h : ∀ c ∈ ds, c.isDigit = true) (n : Nat) : n ≤ digitsVal n ds := by
  induction ds generalizing n with
  | nil => exact le_rfl
  | cons c ds ih =>
    obtain ⟨hc, h⟩ := List.forall_mem_cons.mp h
    rw [digitsVal, if_pos hc]
    have := ih h (10 * n + (c.toNat - '0'.toNat))
    omega

/-- All the digits are read if they are no more than there may be. -/
theorem getDigits_append {ds rest : Str} (h : ∀ c ∈ ds, c.isDigit = true)
    (hrest : ∀ c ∈ rest.head?, c.isDigit = false) {high n val : Nat} (hn : ds.length ≤ n)
    (hval : digitsVal val ds ≤ high) : getDigits high n val (ds ++ rest) = (digitsVal val ds, rest) := by
  induction ds generalizing n val with
  | nil =>
    cases n with
    | zero => rfl
    | succ n =>
      cases rest with
      | nil => rfl
      | cons c cs =>
        have hc := hrest c rfl
        rw [List.nil_append, getDigits, if_neg (by simp [hc])]
        rfl
  | cons c ds ih =>
    obtain ⟨hc, h⟩ := List.forall_mem_cons.mp h
    rw [digitsVal, if_pos hc] at hval ⊢
    have hle := le_digitsVal h (10 * val + (c.toNat - '0'.toNat))
    cases n with
    | zero => cases hn
    | succ n =>
      rw [List.cons_append, getDigits, if_pos ⟨hc, by omega⟩, Nat.mul_comm val 10]
      exact ih h (Nat.le_of_succ_le_succ hn) hval

/-- What a text of digits is for `getNumber`. -/
structure Reads (f : Field) (n : Nat) (ds : Str) : Prop where
  digits : ∀ c ∈ ds, c.isDigit = true
  ne_nil : ds ≠ []
  length : ds.length ≤ f.width
  value : digitsVal 0 ds = n

theorem Reads.head {f : Field} {n : Nat} {ds : Str} (h : Reads f n ds) (rest : Str) :
    ∃ c ∈ (ds ++ rest).head?, c.isDigit = true := by
  obtain ⟨c, cs, rfl⟩ := List.exists_cons_of_ne_nil h.ne_nil
  exact ⟨c, rfl, h.digits c List.mem_cons_self⟩

theorem dropWhile_isSpace {c : Char} {text : Str} (h : c ∈ text.head?) (hc : isSpace c = false) :
    text.dropWhile isSpace = text := by
  cases text with
  | nil => cases h
  | cons d cs =>
    cases h
    exact List.dropWhile_cons_of_neg (by rw [hc]; exact Bool.false_ne_true)

theorem Reads.getNumber {f : Field} {n : Nat} {ds rest : Str} (h : Reads f n ds)
    (hrest : ∀ c ∈ rest.head?, c.isDigit = false) (hlow : f.low ≤ n) (hhigh : n ≤ f.high) :
    getNumber f.low f.high f.width (ds ++ rest) = some (n, rest) := by
  obtain ⟨c, hc, hdigit⟩ := h.head rest
  rw [Comm.getNumber, dropWhile_isSpace hc (isSpace_of_isDigit hdigit)]
  have hany : (ds ++ rest).head?.any Char.isDigit = true := by
    rw [hc]
    exact hdigit
  rw [if_pos hany, getDigits_append h.digits hrest h.length (h.value ▸ hhigh), h.value]
  exact if_pos ⟨hlow, hhigh⟩

theorem length_toStringU {n k : Nat} (h : n < 10 ^ k) (hk : 0 < k) : (toStringU n).length ≤ k :=
  Nat.toDigits_length 10 n k hk h

theorem reads_toStringU (f : Field) {n : Nat} (h : n < 10 ^ f.width) (hf : 0 < f.width) :
    Reads f n (toStringU n) where
  digits _ := isDigit_of_mem_toStringU
  ne_nil := toStringU_ne_nil n
  length := length_toStringU h hf
  value := digitsVal_toStringU n

theorem reads_twoDigits {f : Field} (hf : f.width = 2) {n : Nat} (h : n < 100) :
    Reads f n (twoDigits n) := by
  rw [twoDigits]
  split
  · next hn =>
    refine ⟨?_, List.cons_ne_nil _ _, ?_, ?_⟩
    · exact List.forall_mem_cons.mpr ⟨rfl, fun c hc => isDigit_of_mem_toStringU hc⟩
    · have := length_toStringU (show n < 10 ^ 1 by omega) Nat.one_pos
      rw [hf]
      exact Nat.succ_le_succ this
    · exact digitsVal_toStringU n
  · exact reads_toStringU f (by rw [hf]; omega) (by rw [hf]; exact Nat.two_pos)

/-- What `strftime` writes for a number in range. -/
theorem reads_text (f : Field) {n : Nat} (h : n ≤ f.high) : Reads f n (f.text n) := by
  cases f with
  | Y => exact reads_toStringU .Y (by show n < 10000; exact Nat.lt_succ_of_le h) (by decide)
  | m => exact reads_twoDigits rfl (Nat.lt_of_le_of_lt h (by decide))
  | d => exact reads_twoDigits rfl (Nat.lt_of_le_of_lt h (by decide))
  | H => exact reads_twoDigits rfl (Nat.lt_of_le_of_lt h (by decide))
  | M => exact reads_twoDigits rfl (Nat.lt_of_le_of_lt h (by decide))
  | S => exact reads_twoDigits rfl (Nat.lt_of_le_of_lt h (by decide))

/-! ## `strptime` after `strftime` -/

/-- Two parts of a format, one after the other, that `strptime` tells apart. -/
def Apart : Conv → Conv → Prop
  | .field _, .field _ => False
  | .field _, .char c => c.isDigit = false
  | .char c, .char d => isSpace c = true → isSpace d = false
  | .char _, .field _ => True

instance : DecidableRel Apart
  | .field _, .field _ => isFalse id
  | .field _, .char c => inferInstanceAs (Decidable (c.isDigit = false))
  | .char c, .char d => inferInstanceAs (Decidable (isSpace c = true → isSpace d = false))
  | .char _, .field _ => isTrue trivial

/-- A number that `strptime` accepts for a field. -/
def InRange (tm : Tm) (f : Field) : Prop := f.low ≤ f.get tm ∧ f.get tm ≤ f.high

/-- The fields of a format, taken over from `tm`. -/
def copy (tm : Tm) : List Conv → Tm → Tm
  | [], tm₀ => tm₀
  | .char _ :: fmt, tm₀ => copy tm fmt tm₀
  | .field f :: fmt, tm₀ => copy tm fmt (f.set (f.get tm) tm₀)

section
variable {tm : Tm} {fmt : List Conv} {f : Field} {c : Char}

/-- What a field in range comes to. -/
theorem InRange.reads (h : InRange tm f) :
    ∃ n : Nat, f.get tm = n ∧ f.low ≤ n ∧ n ≤ f.high ∧ Reads f n (f.text (f.get tm)) := by
  obtain ⟨hlow, hhigh⟩ := h
  obtain ⟨n, hn⟩ := Int.eq_ofNat_of_zero_le ((Int.natCast_nonneg _).trans hlow)
  rw [hn] at hlow hhigh ⊢
  exact ⟨n, rfl, Int.ofNat_le.mp hlow, Int.ofNat_le.mp hhigh, reads_text f (Int.ofNat_le.mp hhigh)⟩

theorem strftime_cons_char : strftime tm (.char c :: fmt) = c :: strftime tm fmt := rfl

theorem strftime_cons_field :
    strftime tm (.field f :: fmt) = f.text (f.get tm) ++ strftime tm fmt := rfl

/-- No digit follows a field. -/
theorem head_after_field (h : (Conv.field f :: fmt).IsChain Apart) :
    ∀ c ∈ (strftime tm fmt).head?, c.isDigit = false := by
  cases fmt with
  | nil => exact nofun
  | cons a fmt =>
    have hab := (List.isChain_cons_cons.mp h).1
    cases a with
    | char d =>
      intro c hc
      rw [← Option.some.inj hc]
      exact hab
    | field g => exact hab.elim

/-- No space follows a space. -/
theorem dropWhile_after_space (h : (Conv.char c :: fmt).IsChain Apart) (hc : isSpace c = true)
    (hrange : ∀ f, .field f ∈ fmt → InRange tm f) :
    (strftime tm fmt).dropWhile isSpace = strftime tm fmt := by
  cases fmt with
  | nil => rfl
  | cons a fmt =>
    have hab := (List.isChain_cons_cons.mp h).1
    cases a with
    | char d => exact dropWhile_isSpace rfl (hab hc)
    | field g =>
      obtain ⟨n, -, -, -, hreads⟩ := (hrange g List.mem_cons_self).reads
      obtain ⟨c, hmem, hdigit⟩ := hreads.head (strftime tm fmt)
      exact dropWhile_isSpace hmem (isSpace_of_isDigit hdigit)

/-- `strptime` reads what `strftime` wrote. -/
theorem strptime_strftime (h : fmt.IsChain Apart) (hrange : ∀ f, .field f ∈ fmt → InRange tm f) (tm₀ : Tm) :
    strptime fmt (strftime tm fmt) tm₀ = copy tm fmt tm₀ := by
  induction fmt generalizing tm₀ with
  | nil => rfl
  | cons a fmt ih =>
    have hrange' : ∀ f, .field f ∈ fmt → InRange tm f := fun f hf => hrange f (List.mem_cons_of_mem a hf)
    have ih := ih h.tail hrange'
    cases a with
    | char c =>
      rw [strftime_cons_char, strptime]
      split
      · next hc =>
        rw [List.dropWhile_cons_of_pos hc, dropWhile_after_space h hc hrange']
        exact ih tm₀
      · rw [List.head?_cons, if_pos rfl]
        exact ih tm₀
    | field f =>
      obtain ⟨n, hn, hlow, hhigh, hreads⟩ := (hrange f List.mem_cons_self).reads
      rw [strftime_cons_field, strptime, hreads.getNumber (head_after_field h) hlow hhigh]
      rw [copy, hn]
      exact ih (f.set n tm₀)

end

/-! ## A time and its text -/

/-- A time whose year has a text that `strptime` accepts: at most four digits and
no sign. -/
def Representable (offset t : Int) : Prop := InRange (localtime offset t) .Y

instance (offset t : Int) : Decidable (Representable offset t) :=
  inferInstanceAs (Decidable (_ ∧ _))

/-- The text between the quotes of a literal. -/
def unquote (literal : Str) : Str := (literal.drop 1).dropLast

section
variable {offset t : Int}

/-- All fields of a time are in range, if its year is. -/
theorem localtime_inRange (h : Representable offset t) (f : Field) :
    InRange (localtime offset t) f := by
  have hmonth := dateOf_month (epoch + (t + offset) / 86400)
  have hday := dateOf_day (epoch + (t + offset) / 86400)
  cases f with
  | Y => exact h
  | m =>
    show (1 : Int) ≤ (_ : Nat) + 1 ∧ ((_ : Nat) : Int) + 1 ≤ 12
    omega
  | d =>
    show (1 : Int) ≤ (_ : Nat) + 1 ∧ ((_ : Nat) : Int) + 1 ≤ 31
    omega
  | H =>
    show (0 : Int) ≤ (t + offset) % 86400 / 3600 ∧ (t + offset) % 86400 / 3600 ≤ 23
    omega
  | M =>
    show (0 : Int) ≤ (t + offset) % 86400 / 60 % 60 ∧ (t + offset) % 86400 / 60 % 60 ≤ 59
    omega
  | S =>
    show (0 : Int) ≤ (t + offset) % 86400 % 60 ∧ (t + offset) % 86400 % 60 ≤ 61
    omega

/-- `mktime` of the six fields of a time. -/
theorem mktime_localtime {tm : Tm} (h : ∀ f : Field, f.get tm = f.get (localtime offset t)) :
    mktime offset tm = t - if tm.tmIsdst > 0 then 3600 else 0 := by
  have hY : tm.tmYear + 1900 = (dateOf (epoch + (t + offset) / 86400)).year - 1900 + 1900 := h .Y
  have hm : tm.tmMon + 1 = ((dateOf (epoch + (t + offset) / 86400)).month : Int) + 1 := h .m
  have hd : tm.tmMday = ((dateOf (epoch + (t + offset) / 86400)).day : Int) + 1 := h .d
  have hH : tm.tmHour = (t + offset) % 86400 / 3600 := h .H
  have hM : tm.tmMin = (t + offset) % 86400 / 60 % 60 := h .M
  have hS : tm.tmSec = (t + offset) % 86400 % 60 := h .S
  have hmonth := dateOf_month (epoch + (t + offset) / 86400)
  have hnumber := dayNumber_dateOf (epoch + (t + offset) / 86400)
  have hyear : tm.tmYear + 1900 + tm.tmMon / 12 = (dateOf (epoch + (t + offset) / 86400)).year := by
    omega
  have hmon : (tm.tmMon % 12).toNat = (dateOf (epoch + (t + offset) / 86400)).month := by
    omega
  have hday : tm.tmMday - 1 = (dateOf (epoch + (t + offset) / 86400)).day := by
    omega
  rw [mktime, hyear, hmon, hday, hnumber, hH, hM, hS]
  omega

theorem unquote_timeToString (offset t : Int) : unquote (timeToString offset t) =
    strftime (localtime offset t) (conversions "%Y-%m-%d %H:%M:%S".toList) := by
  have hconv : conversions "'%Y-%m-%d %H:%M:%S'".toList =
      .char '\'' :: (conversions "%Y-%m-%d %H:%M:%S".toList ++ [.char '\'']) := by decide
  rw [timeToString, hconv, strftime_cons_char, unquote, List.drop_one, List.tail_cons, strftime,
    List.flatMap_append]
  exact List.dropLast_concat

/-- A time comes back from its text, less an hour if `tm_isdst` is positive. -/
theorem convertStringToTimeT_timeToString (h : Representable offset t) (tm : Tm) :
    convertStringToTimeT offset tm (unquote (timeToString offset t)) =
      t - if tm.tmIsdst > 0 then 3600 else 0 := by
  have hformat : (conversions "%Y-%m-%d %H:%M:%S".toList).IsChain Apart := by decide
  rw [convertStringToTimeT, unquote_timeToString,
    strptime_strftime hformat fun f _ => localtime_inRange h f]
  have hconv : conversions "%Y-%m-%d %H:%M:%S".toList = [.field .Y, .char '-', .field .m, .char '-',
      .field .d, .char ' ', .field .H, .char ':', .field .M, .char ':', .field .S] := by decide
  rw [hconv]
  refine mktime_localtime fun f => ?_
  cases f with
  | Y => exact sub_add_cancel _ _
  | m => exact sub_add_cancel _ _
  | d => rfl
  | H => rfl
  | M => rfl
  | S => rfl

end

end OJ.Comm
