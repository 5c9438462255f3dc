import Mathlib

/-!
# Strings

`std::string` as a list of characters, and what `util.hpp` and the standard
library do with it: `getline` on a whole file, `StringUtil::SplitString`
(`boost::split` with `token_compress_on`), `atoi`, `stoi` and `std::to_string`. The
text of a number has no `_` and determines the number
(`underscore_notMem_toStringI`, `toStringI_inj`).
-/

namespace OJ.Comm

/-- `std::string`. -/
abbrev Str := List Char

/-- The lines that `getline` reads off the rest of a file: a last line without
its newline counts, unless it is empty. -/
def getlineAux (line : Str) : Str → List Str
  | [] => if line = [] then [] else [line]
  | c :: cs => if c = '\n' then line :: getlineAux [] cs else getlineAux (line ++ [c]) cs

/-- `while (std::getline(in, line))`. -/
def getline (file : Str) : List Str := getlineAux [] file

/-- The tokens of the rest of a string: `token` so far, and `sepd` if the last
character was a separator, which further separators extend. -/
def splitAux (sep : Char → Bool) (token : Str) : Bool → Str → List Str
  | _, [] => [token]
  | sepd, c :: cs =>
    if sep c then
      if sepd then splitAux sep token true cs else token :: splitAux sep [] true cs
    else splitAux sep (token ++ [c]) false cs

/-- `StringUtil::SplitString`: adjacent separators are merged, and one at an
end of the string leaves an empty token there. -/
def splitString (str : Str) (sep : Str) : List Str := splitAux (sep.contains ·) [] false str

/-- `isspace`. -/
def isSpace (c : Char) : Bool := [' ', '\t', '\n', '\x0b', '\x0c', '\r'].contains c

/-- The digits at the start of a string, as a number. -/
def digitsVal (n : Nat) : Str → Nat
  | [] => n
  | c :: cs => if c.isDigit then digitsVal (10 * n + (c.toNat - '0'.toNat)) cs else n

/-- `strtol` to base 10, which stops at the ends of `long`. -/
def strtol (str : Str) : Int :=
  match str.dropWhile isSpace with
  | '-' :: ds => max (-(digitsVal 0 ds : Int)) (-2 ^ 63)
  | '+' :: ds => min (digitsVal 0 ds : Int) (2 ^ 63 - 1)
  | ds => min (digitsVal 0 ds : Int) (2 ^ 63 - 1)

/-- `atoi`: `strtol`, as a 32-bit `int`. -/
def atoi (str : Str) : Int := (strtol str).bmod (2 ^ 32)

/-- `std::stoi`: `none` where it throws, for want of a digit or because the
number is no `int`. -/
def stoi (str : Str) : Option Int :=
  let number (sign : Int) (ds : Str) : Option Int :=
    if ds.head?.any Char.isDigit ∧ -2 ^ 31 ≤ sign * digitsVal 0 ds ∧ sign * digitsVal 0 ds < 2 ^ 31 then
      some (sign * digitsVal 0 ds)
    else none
  match str.dropWhile isSpace with
  | '-' :: ds => number (-1) ds
  | '+' :: ds => number 1 ds
  | ds => number 1 ds

/-- `StringUtil::isValidNumber`. -/
def isValidNumber (str : Str) : Bool := str ≠ [] && str.all Char.isDigit

/-- What `getline` with a delimiter reads off the rest of a stream. -/
def getlineDelimAux (delim : Char) (line : Str) : Str → List Str
  | [] => if line = [] then [] else [line]
  | c :: cs =>
    if c = delim then line :: getlineDelimAux delim [] cs else getlineDelimAux delim (line ++ [c]) cs

/-- `while (std::getline(in, line, delim))`. -/
def getlineDelim (delim : Char) (text : Str) : List Str := getlineDelimAux delim [] text

/-- `std::to_string` of an unsigned number. -/
def toStringU (n : Nat) : Str := Nat.toDigits 10 n

/-- `std::to_string` of a signed number. -/
def toStringI : Int → Str
  | .ofNat n => toStringU n
  | .negSucc n => '-' :: toStringU (n + 1)

theorem toStringU_inj {m n : Nat} : toStringU m = toStringU n ↔ m = n := by
  refine ⟨fun h => ?_, fun h => h ▸ rfl⟩
  have := congrArg (Nat.ofDigitChars 10 · 0) h
  simpa only [toStringU, Nat.ofDigitChars_ten_toDigits] using this

theorem isDigit_of_mem_toStringU {n : Nat} {c : Char} (h : c ∈ toStringU n) : c.isDigit :=
  Nat.isDigit_of_mem_toDigits (by decide) (by decide) h

theorem toStringU_ne_nil (n : Nat) : toStringU n ≠ [] := Nat.toDigits_ne_nil

theorem underscore_notMem_toStringU (n : Nat) : '_' ∉ toStringU n :=
  Nat.underscore_not_in_toDigits

theorem minus_notMem_toStringU (n : Nat) : '-' ∉ toStringU n := fun h => by
  have := isDigit_of_mem_toStringU h
  exact absurd this (by decide)

theorem underscore_notMem_toStringI (n : Int) : '_' ∉ toStringI n := by
  cases n with
  | ofNat n => exact underscore_notMem_toStringU n
  | negSucc n =>
    simp only [toStringI, List.mem_cons, not_or]
    exact ⟨by decide, underscore_notMem_toStringU _⟩

theorem toStringI_inj {m n : Int} : toStringI m = toStringI n ↔ m = n := by
  refine ⟨fun h => ?_, fun h => h ▸ rfl⟩
  -- The sign is read off the first character.
  cases m with
  | ofNat m =>
    cases n with
    | ofNat n => rw [toStringU_inj.mp h]
    | negSucc n =>
      refine absurd ?_ (minus_notMem_toStringU m)
      rw [show toStringU m = '-' :: toStringU (n + 1) from h]
      exact List.mem_cons_self
  | negSucc m =>
    cases n with
    | ofNat n =>
      refine absurd ?_ (minus_notMem_toStringU n)
      rw [show toStringU n = '-' :: toStringU (m + 1) from h.symm]
      exact List.mem_cons_self
    | negSucc n =>
      have := toStringU_inj.mp (List.cons.inj h).2
      rw [Nat.succ.inj this]

end OJ.Comm
