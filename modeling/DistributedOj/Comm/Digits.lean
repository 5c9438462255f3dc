import DistributedOj.Comm.Text

/-!
# Texts of digits

What `atoi`, `std::stoi` and `isValidNumber` make of a text of digits: its decimal
value, if that is an `int` (`atoi_of_valid`, `stoi_of_valid`). `atoi` reads back
what `std::to_string` makes of an `int` (`atoi_toStringI`).
-/

namespace OJ.Comm

theorem isSpace_of_isDigit {c : Char} (h : c.isDigit = true) : isSpace c = false := by
  refine Bool.eq_false_iff.mpr fun hs => ?_
  simp only [isSpace, List.contains_iff_mem, List.mem_cons, List.not_mem_nil, or_false] at hs
  rcases hs with rfl | rfl | rfl | rfl | rfl | rfl <;> exact absurd h (by decide)

theorem digit_ne_sign {c : Char} (h : c.isDigit = true) : c ≠ '-' ∧ c ≠ '+' :=
  ⟨by rintro rfl; exact absurd h (by decide), by rintro rfl; exact absurd h (by decide)⟩

theorem head_isDigit {c : Char} {cs : Str} (h : isValidNumber (c :: cs) = true) : c.isDigit = true := by
  simp only [isValidNumber, List.all_cons, Bool.and_eq_true] at h
  exact h.2.1

theorem dropWhile_of_valid {c : Char} {cs : Str} (h : isValidNumber (c :: cs) = true) :
    (c :: cs).dropWhile isSpace = c :: cs :=
  List.dropWhile_cons_of_neg (by rw [isSpace_of_isDigit (head_isDigit h)]; exact Bool.false_ne_true)

theorem strtol_of_valid {str : Str} (h : isValidNumber str = true) :
    strtol str = min (digitsVal 0 str : Int) (2 ^ 63 - 1) := by
  cases str with
  | nil => exact absurd h (by decide)
  | cons c cs =>
    obtain ⟨hm, hp⟩ := digit_ne_sign (head_isDigit h)
    rw [strtol, dropWhile_of_valid h]
    split
    · next e => exact absurd (List.cons.inj e).1 hm
    · next e => exact absurd (List.cons.inj e).1 hp
    · rfl

theorem atoi_of_valid {str : Str} (h : isValidNumber str = true) (hb : digitsVal 0 str < 2 ^ 31) :
    atoi str = digitsVal 0 str := by
  rw [atoi, strtol_of_valid h, min_eq_left (by omega)]
  exact Int.bmod_eq_of_le (by omega) (by omega)

theorem colon_notMem_of_valid {str : Str} (h : isValidNumber str = true) : ':' ∉ str := by
  intro hc
  simp only [isValidNumber, Bool.and_eq_true, List.all_eq_true] at h
  exact absurd (h.2 ':' hc) (by decide)

/-- `std::stoi` reads a text of digits, unless the number is no `int`. -/
theorem stoi_of_valid {str : Str} (h : isValidNumber str = true) :
    stoi str = if digitsVal 0 str < 2 ^ 31 then some (digitsVal 0 str : Int) else none := by
  cases str with
  | nil => exact absurd h (by decide)
  | cons c cs =>
    have hc := head_isDigit h
    obtain ⟨hm, hp⟩ := digit_ne_sign hc
    rw [stoi, dropWhile_of_valid h]
    split
    · next e => exact absurd (List.cons.inj e).1 hm
    · next e => exact absurd (List.cons.inj e).1 hp
    · simp only [List.head?_cons, Option.any_some, hc, true_and, one_mul]
      congr 1
      exact propext (by omega)

theorem digitsVal_of_isDigit {str : Str} (h : ∀ c ∈ str, c.isDigit = true) (n : Nat) :
    digitsVal n str = Nat.ofDigitChars 10 str n := by
  induction str generalizing n with
  | nil => rfl
  | cons c cs ih =>
    obtain ⟨hc, h⟩ := List.forall_mem_cons.mp h
    rw [digitsVal, if_pos hc, ih h, Nat.ofDigitChars_cons]

theorem digitsVal_toStringU (n : Nat) : digitsVal 0 (toStringU n) = n := by
  rw [digitsVal_of_isDigit fun c hc => isDigit_of_mem_toStringU hc]
  exact Nat.ofDigitChars_ten_toDigits

theorem isValidNumber_toStringU (n : Nat) : isValidNumber (toStringU n) = true := by
  simp only [isValidNumber, Bool.and_eq_true, decide_eq_true_eq, List.all_eq_true]
  exact ⟨toStringU_ne_nil n, fun c hc => isDigit_of_mem_toStringU hc⟩

/-- `atoi` reads back an `int`. -/
theorem atoi_toStringI {n : Int} (hlow : -2 ^ 31 ≤ n) (hhigh : n < 2 ^ 31) : atoi (toStringI n) = n := by
  cases n with
  | ofNat n =>
    have hn : n < 2 ^ 31 := by
      have : (n : Int) < 2 ^ 31 := hhigh
      omega
    have h := atoi_of_valid (isValidNumber_toStringU n) (by rw [digitsVal_toStringU]; exact hn)
    rw [digitsVal_toStringU] at h
    exact h
  | negSucc n =>
    have hstr : strtol (toStringI (.negSucc n)) = max (-(digitsVal 0 (toStringU (n + 1)) : Int)) (-2 ^ 63) :=
      rfl
    have hmax : max (-((n + 1 : Nat) : Int)) (-2 ^ 63) = .negSucc n := by omega
    rw [atoi, hstr, digitsVal_toStringU, hmax]
    exact Int.bmod_eq_of_le (by omega) (by omega)

end OJ.Comm
