import DistributedOj.Comm.Files

/-!
# Reading in pieces

`getline` reads what stands before the first delimiter, then the rest
(`getlineDelim_cons`, `getlineDelim_last`), and `SplitString` finds two tokens iff
there is one run of separators (`splitString_pair_iff`). So `ReadFile` gives back
a text with its last newline added if it is missing, or with no newlines at all
(`readFileTo_law`).
-/

namespace OJ.Comm

open OJ.Framework

section
variable {delim : Char} {piece : Str}

theorem getlineDelimAux_cons (h : delim ∉ piece) (line rest : Str) :
    getlineDelimAux delim line (piece ++ delim :: rest) = (line ++ piece) :: getlineDelim delim rest := by
  induction piece generalizing line with
  | nil => rw [List.nil_append, getlineDelimAux, if_pos rfl, List.append_nil, getlineDelim]
  | cons c piece ih =>
    obtain ⟨hc, hp⟩ := not_or.mp (mt List.mem_cons.mpr h)
    rw [List.cons_append, getlineDelimAux, if_neg (Ne.symm hc), ih hp, List.append_assoc]
    rfl

/-- What stands before a delimiter is one piece. -/
theorem getlineDelim_cons (h : delim ∉ piece) (rest : Str) :
    getlineDelim delim (piece ++ delim :: rest) = piece :: getlineDelim delim rest :=
  getlineDelimAux_cons h [] rest

theorem getlineDelimAux_last (h : delim ∉ piece) (line : Str) :
    getlineDelimAux delim line piece = if line ++ piece = [] then [] else [line ++ piece] := by
  induction piece generalizing line with
  | nil => rw [getlineDelimAux, List.append_nil]
  | cons c piece ih =>
    obtain ⟨hc, hp⟩ := not_or.mp (mt List.mem_cons.mpr h)
    rw [getlineDelimAux, if_neg (Ne.symm hc), ih hp, List.append_assoc]
    rfl

/-- A last piece counts unless it is empty. -/
theorem getlineDelim_last (h : delim ∉ piece) :
    getlineDelim delim piece = if piece = [] then [] else [piece] :=
  getlineDelimAux_last h []

end

theorem getline_eq (file : Str) : getline file = getlineDelim '\n' file := by
  have aux (line : Str) : getlineAux line file = getlineDelimAux '\n' line file := by
    induction file generalizing line with
    | nil => rfl
    | cons c cs ih => rw [getlineAux, getlineDelimAux, ih, ih]
  exact aux []

/-- A file that ends each line with a newline. -/
theorem getline_flatMap {lines : List Str} (h : ∀ line ∈ lines, '\n' ∉ line) :
    getline (lines.flatMap (· ++ ['\n'])) = lines := by
  rw [getline_eq]
  induction lines with
  | nil => rfl
  | cons line lines ih =>
    obtain ⟨hline, h⟩ := List.forall_mem_cons.mp h
    rw [List.flatMap_cons, List.append_assoc]
    exact (getlineDelim_cons hline _).trans (congrArg (line :: ·) (ih h))

/-- What holds of a text without delimiters, and of a text if it holds of what
comes after its first piece. -/
theorem pieces_induction (delim : Char) {P : Str → Prop} (last : ∀ piece, delim ∉ piece → P piece)
    (cons : ∀ piece rest, delim ∉ piece → P rest → P (piece ++ delim :: rest)) (text : Str) : P text := by
  induction hn : text.length using Nat.strong_induction_on generalizing text with
  | _ n ih =>
    by_cases h : delim ∈ text
    · obtain ⟨piece, rest, rfl, hp⟩ := List.eq_append_cons_of_mem h
      refine cons piece rest hp (ih rest.length ?_ rest rfl)
      rw [← hn, List.length_append, List.length_cons]
      omega
    · exact last text h

/-! ## `SplitString` -/

section
variable {sep : Char → Bool} {c : Char} {piece rest : Str}

theorem splitAux_ne_nil (token : Str) (sepd : Bool) (str : Str) : splitAux sep token sepd str ≠ [] := by
  induction str generalizing token sepd with
  | nil => simp [splitAux]
  | cons c str ih =>
    rw [splitAux]
    split
    · split
      · exact ih token true
      · exact List.cons_ne_nil _ _
    · exact ih _ false

/-- A text without separators is the rest of a token. -/
theorem splitAux_last (h : ∀ c ∈ piece, sep c = false) (token : Str) (sepd : Bool) :
    splitAux sep token sepd piece = [token ++ piece] := by
  induction piece generalizing token sepd with
  | nil => rw [splitAux, List.append_nil]
  | cons c piece ih =>
    obtain ⟨hc, hp⟩ := List.forall_mem_cons.mp h
    rw [splitAux, hc, if_neg Bool.false_ne_true, ih hp, List.append_assoc]
    rfl

/-- A separator ends a token. -/
theorem splitAux_cons (h : ∀ c ∈ piece, sep c = false) (hc : sep c = true) (token : Str) :
    splitAux sep token false (piece ++ c :: rest) = (token ++ piece) :: splitAux sep [] true rest := by
  induction piece generalizing token with
  | nil => rw [List.nil_append, splitAux, if_pos hc, if_neg Bool.false_ne_true, List.append_nil]
  | cons d piece ih =>
    obtain ⟨hd, hp⟩ := List.forall_mem_cons.mp h
    rw [List.cons_append, splitAux, hd, if_neg Bool.false_ne_true, ih hp, List.append_assoc]
    rfl

/-- Further separators are merged with it. -/
theorem splitAux_replicate (hc : sep c = true) (n : Nat) :
    splitAux sep [] true (List.replicate n c ++ rest) = splitAux sep [] true rest := by
  induction n with
  | zero => rfl
  | succ n ih => rw [List.replicate_succ, List.cons_append, splitAux, if_pos hc, if_pos rfl, ih]

/-- Before anything but a separator it does not matter what came before. -/
theorem splitAux_start (h : ∀ c ∈ rest.head?, sep c = false) :
    splitAux sep [] true rest = splitAux sep [] false rest := by
  cases rest with
  | nil => rfl
  | cons c rest =>
    rw [splitAux, splitAux, h c rfl, if_neg Bool.false_ne_true, if_neg Bool.false_ne_true]

end

/-- A text starts with a run of a character, which may be empty. -/
theorem exists_replicate (c : Char) (str : Str) :
    ∃ n tail, str = List.replicate n c ++ tail ∧ tail.head? ≠ some c := by
  induction str with
  | nil => exact ⟨0, [], rfl, by simp⟩
  | cons d str ih =>
    by_cases h : d = c
    · obtain ⟨n, tail, e, ht⟩ := ih
      exact ⟨n + 1, tail, by rw [h, e, List.replicate_succ, List.cons_append], ht⟩
    · exact ⟨0, d :: str, rfl, by simpa using h⟩

/-- Two tokens are what stands before and after a run of separators. -/
theorem splitString_pair_iff {c : Char} {str a b : Str} : splitString str [c] = [a, b] ↔
    c ∉ a ∧ c ∉ b ∧ ∃ n, str = a ++ List.replicate (n + 1) c ++ b := by
  have hne {d : Char} (h : d ≠ c) : [c].contains d = false := by simpa using h
  have hsep {piece : Str} (h : c ∉ piece) : ∀ d ∈ piece, [c].contains d = false :=
    fun d hd => hne fun e => h (e ▸ hd)
  have hc : [c].contains c = true := by simp
  constructor
  · intro h
    rw [splitString] at h
    by_cases hs : c ∈ str
    · obtain ⟨piece, rest, rfl, hp⟩ := List.eq_append_cons_of_mem hs
      obtain ⟨n, tail, rfl, ht⟩ := exists_replicate c rest
      rw [splitAux_cons (hsep hp) hc, List.nil_append, splitAux_replicate hc,
        splitAux_start fun d hd => hne fun e => ht (e ▸ hd)] at h
      obtain ⟨rfl, hb⟩ := List.cons.inj h
      by_cases htail : c ∈ tail
      · obtain ⟨piece', rest', rfl, hp'⟩ := List.eq_append_cons_of_mem htail
        rw [splitAux_cons (hsep hp') hc] at hb
        exact absurd (List.cons.inj hb).2 (splitAux_ne_nil _ _ _)
      · rw [splitAux_last (hsep htail), List.nil_append] at hb
        obtain ⟨rfl, -⟩ := List.cons.inj hb
        exact ⟨hp, htail, n, by rw [List.replicate_succ, List.append_assoc, List.cons_append]⟩
    · rw [splitAux_last (hsep hs)] at h
      cases h
  · rintro ⟨ha, hb, n, rfl⟩
    have hhead : ∀ d ∈ b.head?, [c].contains d = false := fun d hd => hsep hb d (List.mem_of_mem_head? hd)
    rw [splitString, List.replicate_succ, List.append_assoc, List.cons_append, splitAux_cons (hsep ha) hc,
      splitAux_replicate hc, splitAux_start hhead, splitAux_last (hsep hb), List.nil_append, List.nil_append]

/-! ## `ReadFile` -/

namespace FileUtil

/-- The loop of `ReadFile`. -/
def addLines (keep : Bool) : Str → List Str → Str
  | content, [] => content
  | content, line :: lines => addLines keep (content ++ line ++ if keep then "\n".toList else []) lines

/-- `clear()`. -/
def clear (_ : Str) : Str := []

/-- `ReadFile` with what `*content` held before. -/
def readFileTo (ok : Bool) (target content : Str) (keep : Bool) : StateM Fs (Bool × Str) := do
  let content := clear content
  match ← readAt target with
  | some text => if ok then return (true, addLines keep content (getline text)) else return (false, content)
  | none => return (false, content)

theorem addLines_eq (keep : Bool) (lines : List Str) (content : Str) : addLines keep content lines =
    content ++ lines.flatMap (· ++ if keep then "\n".toList else []) := by
  induction lines generalizing content with
  | nil => rw [addLines, List.flatMap_nil, List.append_nil]
  | cons line lines ih => rw [addLines, ih, List.flatMap_cons, List.append_assoc, List.append_assoc, List.append_assoc]

/-- What `*content` held is gone. -/
theorem readFileTo_eq (ok : Bool) (target content : Str) (keep : Bool) :
    readFileTo ok target content keep = readFile ok target keep := by
  rw [readFileTo, readFile]
  refine bind_congr fun text => ?_
  cases text with
  | none => rfl
  | some text =>
    dsimp only
    rw [addLines_eq, clear, List.nil_append]

end FileUtil

/-- A text with the last newline added if it is missing, or without newlines. -/
def readBack (keep : Bool) (text : Str) : Str :=
  if keep then if text = [] ∨ text.getLast? = some '\n' then text else text ++ ['\n']
  else text.filter (· ≠ '\n')

theorem filter_newline {piece : Str} (h : '\n' ∉ piece) : piece.filter (· ≠ '\n') = piece :=
  List.filter_eq_self.mpr fun _ hc => decide_eq_true fun e => h (e ▸ hc)

theorem flatMap_getline (keep : Bool) (text : Str) :
    (getline text).flatMap (· ++ if keep then "\n".toList else []) = readBack keep text := by
  rw [getline_eq]
  induction text using pieces_induction '\n' with
  | last piece h =>
    have hlast : piece.getLast? ≠ some '\n' := fun e => h (List.mem_of_getLast? e)
    rw [getlineDelim_last h, readBack, filter_newline h]
    by_cases hp : piece = []
    · rw [hp]
      cases keep with
      | false => rfl
      | true => rfl
    · rw [if_neg hp, if_neg (not_or.mpr ⟨hp, hlast⟩)]
      cases keep with
      | false => simp
      | true => simp
  | cons piece rest h ih =>
    rw [getlineDelim_cons h, List.flatMap_cons, ih, readBack, readBack, List.filter_append,
      filter_newline h]
    cases keep with
    | false => simp
    | true =>
      by_cases hr : rest = []
      · simp [hr]
      · have hlast : (piece ++ '\n' :: rest).getLast? = rest.getLast? := by
          rw [List.getLast?_append, List.getLast?_cons, List.getLast?_eq_some_getLast hr]
          rfl
        rw [if_pos rfl, if_pos rfl, hlast]
        by_cases hn : rest.getLast? = some '\n'
        · simp [hn]
        · simp [hn, hr]

theorem readFileTo_of_some {fs : Fs} {target text : Str} (h : fs target = some text) (ok : Bool)
    (content : Str) (keep : Bool) : ((FileUtil.readFileTo ok target content keep).run fs).1 =
      if ok then (true, readBack keep text) else (false, []) := by
  rw [FileUtil.readFileTo_eq, run_readFile, h, Option.elim_some, flatMap_getline]
  cases ok with
  | false => rfl
  | true => rfl

theorem readBack_true (text : Str) : readBack true text = text ∨ readBack true text = text ++ ['\n'] := by
  rw [readBack, if_pos rfl]
  split
  · exact .inl rfl
  · exact .inr rfl

/-- `ReadFile` after a `WriteFile` that stores all of `s`, whatever `*content`
held; and with `keep` what it reads of any file differs from it by at most one
final newline. -/
theorem readFileTo_law (fs : Fs) (target s content : Str) {n : Nat} (hn : s.length ≤ n) (ok keep : Bool) :
    ((FileUtil.writeFile (some n) target s).run fs).1 = true ∧
    ((FileUtil.readFileTo ok target content keep).run
        ((FileUtil.writeFile (some n) target s).run fs).2).1 =
      (if ok then (true, readBack keep s) else (false, [])) ∧
    ∀ (fs : Fs) (text : Str), fs target = some text →
      ((FileUtil.readFileTo true target content true).run fs).1.2 ∈ [text, text ++ ['\n']] := by
  rw [run_writeFile]
  refine ⟨rfl, readFileTo_of_some ?_ ok content keep, ?_⟩
  · show Function.update fs target (some (s.take n)) target = some s
    rw [Function.update_self, List.take_of_length_le hn]
  · intro fs text h
    rw [readFileTo_of_some h, List.mem_pair]
    exact readBack_true text

theorem readFileTo_law_two : ((FileUtil.readFileTo true "f".toList "old".toList true).run
    ((FileUtil.writeFile (some 3) "f".toList "a\nb".toList).run fun _ => none).2).1 =
      (true, "a\nb\n".toList) :=
  (readFileTo_law _ "f".toList "a\nb".toList "old".toList (by decide) true true).2.1

end OJ.Comm
