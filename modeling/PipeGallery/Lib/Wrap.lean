import Mathlib.Data.BitVec

set_option autoImplicit false

/-!
# Counters that wrap

A counter that never stops is kept in a word of `w` bits. The difference of two words tells which count came
first as long as the counts are near each other.

* `word`, `word_succ`, `word_add`;
* **`sub_lt_iff`**: the test `(a - b) < h` on words is `b ≤ a` on counts;
* `sub_eq_zero_iff`.
-/

namespace PipeGallery.Lib

variable {w : ℕ}

/-- The word that holds a count. -/
def word (w n : ℕ) : BitVec w := BitVec.ofNat w n

theorem word_succ (n : ℕ) : word w n + 1#w = word w (n + 1) := by
  rw [word, word, BitVec.ofNat_add]

theorem word_add (n : ℕ) (x : BitVec w) : word w n + x = word w (n + x.toNat) := by
  rw [word, word, BitVec.ofNat_add, BitVec.ofNat_toNat, BitVec.setWidth_eq]

/-- Behind the other count the difference is small. -/
theorem toNat_sub_of_le {a b : ℕ} (h : b ≤ a) (hw : a - b < 2 ^ w) : (word w a - word w b).toNat = a - b := by
  have he : word w a = word w b + word w (a - b) := by
    rw [word, word, word, ← BitVec.ofNat_add, Nat.add_sub_cancel' h]
  rw [he, add_sub_cancel_left, word, BitVec.toNat_ofNat, Nat.mod_eq_of_lt hw]

/-- In front of it the difference wraps. -/
theorem toNat_sub_of_lt {a b : ℕ} (h : a < b) (hw : b - a < 2 ^ w) :
    (word w a - word w b).toNat = 2 ^ w - (b - a) := by
  have he : word w b = word w a + word w (b - a) := by
    rw [word, word, word, ← BitVec.ofNat_add, Nat.add_sub_cancel' h.le]
  have hpos : 0 < b - a := Nat.sub_pos_of_lt h
  rw [he, sub_add_cancel_left, BitVec.toNat_neg, word, BitVec.toNat_ofNat, Nat.mod_eq_of_lt hw]
  exact Nat.mod_eq_of_lt (by omega)

/-- **Which count came first.** -/
theorem sub_lt_iff {a b h : ℕ} (hh : h ≤ 2 ^ w) (hab : a < b + h) (hba : b ≤ a + (2 ^ w - h))
    (hb : b < a + 2 ^ w) : (word w a - word w b).toNat < h ↔ b ≤ a := by
  constructor
  · intro hlt
    by_contra hle
    rw [toNat_sub_of_lt (by omega) (by omega)] at hlt
    omega
  · intro hle
    rw [toNat_sub_of_le hle (by omega)]
    omega

theorem sub_eq_zero_iff {a b : ℕ} (hab : a < b + 2 ^ w) (hba : b < a + 2 ^ w) :
    word w a - word w b = 0#w ↔ a = b := by
  constructor
  · intro h
    have h0 : (word w a - word w b).toNat = 0 := by rw [h]; exact BitVec.toNat_zero
    rcases Nat.lt_or_ge a b with hlt | hle
    · rw [toNat_sub_of_lt hlt (by omega)] at h0
      omega
    · rw [toNat_sub_of_le hle (by omega)] at h0
      omega
  · rintro rfl
    exact BitVec.sub_self _

end PipeGallery.Lib
