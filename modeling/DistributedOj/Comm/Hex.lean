import DistributedOj.Comm.Text

/-!
# Hexadecimal digests

`sprintf` with `%02x` writes each byte as two digits, so that the text of a
digest determines it (`hexText_inj`).
-/

namespace OJ.Comm

/-- `%02x` of a byte. -/
def hexByte (b : UInt8) : Str := [Nat.digitChar (b.toNat / 16), Nat.digitChar (b.toNat % 16)]

/-- The bytes of a digest, one after another. -/
def hexText (bytes : List UInt8) : Str := bytes.flatMap hexByte

/-- The sixteen digits differ. -/
theorem digitChar_inj {m n : Nat} (hm : m < 16) (hn : n < 16) (h : Nat.digitChar m = Nat.digitChar n) :
    m = n := by
  have all : ∀ m n : Fin 16, Nat.digitChar m.val = Nat.digitChar n.val → m.val = n.val := by decide
  exact all ⟨m, hm⟩ ⟨n, hn⟩ h

theorem hexByte_inj {a b : UInt8} (h : hexByte a = hexByte b) : a = b := by
  have ha := a.toNat_lt
  have hb := b.toNat_lt
  injection h with hhigh hlow
  injection hlow with hlow
  have high := digitChar_inj (by omega) (by omega) hhigh
  have low := digitChar_inj (by omega) (by omega) hlow
  refine UInt8.toNat_inj.mp ?_
  omega

theorem length_hexText (bytes : List UInt8) : (hexText bytes).length = 2 * bytes.length := by
  induction bytes with
  | nil => rfl
  | cons b bytes ih =>
    have : (hexText (b :: bytes)).length = 2 + (hexText bytes).length := by simp [hexText, hexByte]; omega
    rw [this, ih, List.length_cons]
    omega

/-- The text determines the bytes, two digits at a time. -/
theorem hexText_inj {as bs : List UInt8} (h : hexText as = hexText bs) : as = bs := by
  have hlen : as.length = bs.length := by
    have := congrArg List.length h
    rw [length_hexText, length_hexText] at this
    omega
  induction as generalizing bs with
  | nil => exact (List.length_eq_zero_iff.mp hlen.symm).symm
  | cons a as ih =>
    obtain ⟨b, bs, rfl⟩ : ∃ b bs', bs = b :: bs' := by
      cases bs with
      | nil => cases hlen
      | cons b bs => exact ⟨b, bs, rfl⟩
    obtain ⟨hab, hrest⟩ := List.append_inj (show hexByte a ++ hexText as = hexByte b ++ hexText bs from h) rfl
    rw [hexByte_inj hab, ih hrest (Nat.succ.inj hlen)]

end OJ.Comm
