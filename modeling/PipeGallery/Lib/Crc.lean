import Mathlib.Algebra.CharP.Two
import Mathlib.Data.List.GetD
import Mathlib.FieldTheory.Finite.Basic
import Mathlib.RingTheory.AdjoinRoot

set_option autoImplicit false

/-!
# Cyclic redundancy checks

A register of `w` bits divides a message, word by word and most significant bit first, by a polynomial
of degree `w` over the field with two elements.

* `shift`, `feed`, `crc`: the register;
* `ofReg`, `ofWords`, `generator`: the polynomials;
* **`ofReg_crc`**: the register is the remainder;
* `bitAt`, `flipped`, **`crc_eq_iff_of_crc_eq`**: which received words pass the check;
* **`not_dvd_burst`**, **`not_dvd_odd`**, **`not_dvd_pair`**: errors that the generator divides.
-/

namespace PipeGallery.Lib.Crc

open Polynomial

variable {w : ℕ}

/-! ## The register -/

/-- One step of the division; `g` is the generator without its leading term. -/
def shift (g v : BitVec w) : BitVec w := if v.msb then (v <<< 1) ^^^ g else v <<< 1

/-- A word of the message. -/
def feed (g r b : BitVec w) : BitVec w := (shift g)^[w] (r ^^^ b)

def crc (g init : BitVec w) (m : List (BitVec w)) : BitVec w := m.foldl (feed g) init

/-! ## Polynomials -/

/-- Bit `i` is the coefficient of `X ^ i`. -/
noncomputable def ofReg (v : BitVec w) : (ZMod 2)[X] :=
  ∑ i ∈ Finset.range w, if v.getLsbD i then X ^ i else 0

/-- The first bit of the first word is the leading coefficient. -/
noncomputable def ofWords (m : List (BitVec w)) : (ZMod 2)[X] :=
  m.foldl (fun p b => p * X ^ w + ofReg b) 0

noncomputable def generator (g : BitVec w) : (ZMod 2)[X] := X ^ w + ofReg g

theorem coeff_ofReg (v : BitVec w) (k : ℕ) : (ofReg v).coeff k = if v.getLsbD k then 1 else 0 := by
  rw [ofReg, finsetSum_coeff]
  by_cases hk : k < w
  · rw [Finset.sum_eq_single_of_mem k (Finset.mem_range.mpr hk)]
    · split_ifs <;> simp
    · intro i _ hi
      split_ifs <;> simp [coeff_X_pow, hi.symm]
  · rw [BitVec.getLsbD_of_ge v k (not_lt.mp hk)]
    refine Finset.sum_eq_zero fun i hi => ?_
    have hik : k ≠ i := by
      rintro rfl
      exact hk (Finset.mem_range.mp hi)
    split_ifs <;> simp [coeff_X_pow, hik]

theorem degree_ofReg_lt (v : BitVec w) : (ofReg v).degree < w := by
  refine (degree_lt_iff_coeff_zero _ _).mpr fun k hk => ?_
  rw [coeff_ofReg, BitVec.getLsbD_of_ge v k hk, if_neg Bool.false_ne_true]

theorem ofReg_injective : Function.Injective (ofReg (w := w)) := by
  intro a b h
  refine BitVec.eq_of_getLsbD_eq fun k _ => ?_
  have hk := congrArg (coeff · k) h
  simp only [coeff_ofReg] at hk
  cases ha : a.getLsbD k <;> cases hb : b.getLsbD k <;> simp [ha, hb] at hk ⊢

theorem ofReg_xor (a b : BitVec w) : ofReg (a ^^^ b) = ofReg a + ofReg b := by
  ext k
  rw [coeff_add, coeff_ofReg, coeff_ofReg, coeff_ofReg, BitVec.getLsbD_xor]
  cases a.getLsbD k <;> cases b.getLsbD k <;> simp [CharTwo.add_self_eq_zero]

/-- The bit shifted out is the coefficient of `X ^ w`. -/
theorem ofReg_shiftLeft (v : BitVec w) :
    ofReg (v <<< 1) = ofReg v * X + if v.msb then X ^ w else 0 := by
  ext k
  rw [coeff_add, coeff_ofReg, BitVec.getLsbD_shiftLeft, BitVec.msb_eq_getLsbD_last]
  rcases k with _ | k
  · rcases w with _ | w
    · simp
    · cases v.getLsbD (w + 1 - 1) <;> simp
  · rw [coeff_mul_X, coeff_ofReg, Nat.add_sub_cancel]
    rcases Nat.lt_trichotomy (k + 1) w with h | rfl | h
    · cases v.getLsbD k <;> cases v.getLsbD (w - 1) <;> simp [coeff_X_pow, h, h.ne]
    · rw [Nat.add_sub_cancel]
      cases v.getLsbD k <;> simp [CharTwo.add_self_eq_zero]
    · rw [BitVec.getLsbD_of_ge v k (by omega)]
      cases v.getLsbD (w - 1) <;> simp [coeff_X_pow, h.ne']

theorem monic_generator (g : BitVec w) : (generator g).Monic := monic_X_pow_add (degree_ofReg_lt g)

theorem degree_generator (g : BitVec w) : (generator g).degree = w := by
  rw [generator, degree_add_eq_left_of_degree_lt] <;> rw [degree_X_pow]
  exact degree_ofReg_lt g

theorem ofReg_shift (g v : BitVec w) :
    ofReg (shift g v) = ofReg v * X + if v.msb then generator g else 0 := by
  rw [shift]
  split_ifs with h
  · rw [ofReg_xor, ofReg_shiftLeft, if_pos h, generator, add_assoc]
  · rw [ofReg_shiftLeft, if_neg h]

theorem ofWords_concat (m : List (BitVec w)) (b : BitVec w) :
    ofWords (m ++ [b]) = ofWords m * X ^ w + ofReg b := by
  rw [ofWords, List.foldl_concat, ← ofWords]

/-! ## The remainder -/

section
variable (g : BitVec w)

open AdjoinRoot

theorem mk_shift (v : BitVec w) :
    mk (generator g) (ofReg (shift g v)) = mk (generator g) (ofReg v) * root (generator g) := by
  rw [ofReg_shift, map_add, map_mul, mk_X]
  split_ifs
  · rw [mk_self, add_zero]
  · rw [map_zero, add_zero]

theorem mk_shift_iterate (v : BitVec w) (n : ℕ) :
    mk (generator g) (ofReg ((shift g)^[n] v)) =
      mk (generator g) (ofReg v) * root (generator g) ^ n := by
  induction n with
  | zero => rw [Function.iterate_zero_apply, pow_zero, mul_one]
  | succ n ih => rw [Function.iterate_succ_apply', mk_shift, ih, pow_succ, mul_assoc]

/-- A register holds a residue in one way. -/
theorem mk_ofReg_inj {a b : BitVec w} :
    mk (generator g) (ofReg a) = mk (generator g) (ofReg b) ↔ a = b := by
  refine ⟨fun h => ofReg_injective (sub_eq_zero.mp ?_), fun h => by rw [h]⟩
  by_contra hne
  refine (monic_generator g).not_dvd_of_degree_lt hne ?_ (mk_eq_mk.mp h)
  rw [degree_generator]
  exact (degree_sub_le _ _).trans_lt (max_lt (degree_ofReg_lt a) (degree_ofReg_lt b))

theorem mk_crc (init : BitVec w) (m : List (BitVec w)) :
    mk (generator g) (ofReg (crc g init m)) =
      mk (generator g) (ofReg init * X ^ (w * m.length) + ofWords m * X ^ w) := by
  induction m using List.reverseRecOn with
  | nil => rw [crc, ofWords]; simp
  | append_singleton m b ih =>
    rw [crc, List.foldl_concat, ← crc, feed, mk_shift_iterate, ofReg_xor, map_add, ih, ofWords_concat,
      List.length_append, List.length_singleton]
    simp only [map_add, map_mul, map_pow, mk_X]
    ring

/-- **The register after a message** is the remainder of the message, followed by a word of zeros and
with `init` added in front. -/
theorem ofReg_crc (init : BitVec w) (m : List (BitVec w)) :
    ofReg (crc g init m) =
      (ofReg init * X ^ (w * m.length) + ofWords m * X ^ w) %ₘ generator g := by
  have hr : ofReg (crc g init m) %ₘ generator g = ofReg (crc g init m) := by
    rw [modByMonic_eq_self_iff (monic_generator g), degree_generator]
    exact degree_ofReg_lt _
  rw [← hr]
  exact modByMonic_eq_of_dvd_sub (monic_generator g) (mk_eq_mk.mp (mk_crc g init m))

/-- A message and its check value form a multiple of the generator. -/
theorem crc_eq_iff_dvd (init b : BitVec w) (m : List (BitVec w)) :
    crc g init m = b ↔
      generator g ∣ ofReg init * X ^ (w * m.length) + ofWords (m ++ [b]) := by
  rw [← mk_ofReg_inj g, mk_crc, mk_eq_mk, ofWords_concat, CharTwo.sub_eq_add, add_assoc]

/-- **What passes the check instead of a checked message.** -/
theorem crc_eq_iff_of_crc_eq {init b b' : BitVec w} {m m' : List (BitVec w)}
    (h : crc g init m = b) (hm : m'.length = m.length) :
    crc g init m' = b' ↔ generator g ∣ ofWords (m ++ [b]) + ofWords (m' ++ [b']) := by
  rw [crc_eq_iff_dvd, hm, ← dvd_add_right ((crc_eq_iff_dvd g init b m).mp h)]
  have hc : ∀ i p q : (ZMod 2)[X], i + p + (i + q) = p + q := by
    intro i p q
    rw [add_add_add_comm, CharTwo.add_self_eq_zero, zero_add]
  rw [hc]

end

/-! ## Flipped bits -/

/-- Bit `p`, counted from the most significant bit of the first word. -/
def bitAt (c : List (BitVec w)) (p : ℕ) : Bool := (c.getD (p / w) 0).getMsbD (p % w)

/-- The positions of the bits in which `c'` differs from `c`. -/
def flipped (c c' : List (BitVec w)) : Finset ℕ :=
  {p ∈ Finset.range (w * c.length) | bitAt c p ≠ bitAt c' p}

theorem lt_of_mem_flipped {c c' : List (BitVec w)} {p : ℕ} (hp : p ∈ flipped c c') :
    p < w * c.length := Finset.mem_range.mp (Finset.mem_filter.mp hp).1

theorem bitAt_concat_of_lt {c : List (BitVec w)} {p : ℕ} (b : BitVec w) (hp : p < w * c.length) :
    bitAt (c ++ [b]) p = bitAt c p := by
  rw [bitAt, bitAt, List.getD_append _ _ _ _ (Nat.div_lt_of_lt_mul hp)]

theorem bitAt_concat_last (c : List (BitVec w)) (b : BitVec w) {j : ℕ} (hj : j < w) :
    bitAt (c ++ [b]) (w * c.length + j) = b.getMsbD j := by
  have hw : 0 < w := by omega
  rw [bitAt, Nat.mul_add_div hw, Nat.mul_add_mod, Nat.div_eq_of_lt hj, Nat.mod_eq_of_lt hj, add_zero,
    List.getD_append_right _ _ _ _ le_rfl, Nat.sub_self, List.getD_cons_zero]

theorem ofReg_eq_sum_getMsbD (b : BitVec w) :
    ofReg b = ∑ j ∈ Finset.range w, if b.getMsbD j then X ^ (w - 1 - j) else 0 := by
  rw [ofReg, ← Finset.sum_range_reflect]
  refine Finset.sum_congr rfl fun j hj => ?_
  rw [BitVec.getMsbD, decide_eq_true (Finset.mem_range.mp hj), Bool.true_and]

theorem ofWords_eq_sum (c : List (BitVec w)) :
    ofWords c =
      ∑ p ∈ Finset.range (w * c.length), if bitAt c p then X ^ (w * c.length - 1 - p) else 0 := by
  induction c using List.reverseRecOn with
  | nil => simp [ofWords]
  | append_singleton c b ih =>
    rw [ofWords_concat, List.length_append, List.length_singleton, Nat.mul_succ,
      Finset.sum_range_add, ih, Finset.sum_mul, ofReg_eq_sum_getMsbD]
    congr 1
    · refine Finset.sum_congr rfl fun p hp => ?_
      have hp' := Finset.mem_range.mp hp
      have he : w * c.length + w - 1 - p = w * c.length - 1 - p + w := by omega
      rw [bitAt_concat_of_lt b hp', he, ite_mul, zero_mul, pow_add]
    · refine Finset.sum_congr rfl fun j hj => ?_
      have hj' := Finset.mem_range.mp hj
      have he : w * c.length + w - 1 - (w * c.length + j) = w - 1 - j := by omega
      rw [bitAt_concat_last c b hj', he]

/-- **The error polynomial** has a term for each flipped bit. -/
theorem ofWords_add_ofWords {c c' : List (BitVec w)} (h : c'.length = c.length) :
    ofWords c + ofWords c' = ∑ p ∈ flipped c c', X ^ (w * c.length - 1 - p) := by
  rw [ofWords_eq_sum c, ofWords_eq_sum c', h, ← Finset.sum_add_distrib, flipped, Finset.sum_filter]
  refine Finset.sum_congr rfl fun p _ => ?_
  cases bitAt c p <;> cases bitAt c' p <;> simp [CharTwo.add_self_eq_zero]

/-! ## Errors that are no multiple of the generator -/

section
variable {g : BitVec w}

theorem isCoprime_generator_X (hg : g.getLsbD 0) : IsCoprime (generator g) (X : (ZMod 2)[X]) := by
  have hw : 0 ≠ w := by
    rintro rfl
    simp at hg
  refine IsCoprime.symm ((irreducible_X.coprime_iff_not_dvd).mpr fun h => ?_)
  rw [X_dvd_iff, generator, coeff_add, coeff_X_pow, if_neg hw, coeff_ofReg, if_pos hg] at h
  exact one_ne_zero (zero_add (1 : ZMod 2) ▸ h)

/-- Dropping the zeros after the last flipped bit. -/
theorem dvd_of_dvd_mul_X_pow (hg : g.getLsbD 0) {p : (ZMod 2)[X]} {n : ℕ}
    (h : generator g ∣ p * X ^ n) : generator g ∣ p :=
  (isCoprime_generator_X hg).pow_right.dvd_of_dvd_mul_right h

theorem degree_sum_X_pow_lt {S : Finset ℕ} {f : ℕ → ℕ} {n : ℕ} (h : ∀ p ∈ S, f p < n) :
    (∑ p ∈ S, (X : (ZMod 2)[X]) ^ f p).degree < n := by
  refine (degree_sum_le _ _).trans_lt ((Finset.sup_lt_iff (WithBot.bot_lt_coe n)).mpr ?_)
  intro p hp
  rw [degree_X_pow]
  exact WithBot.coe_lt_coe.mpr (h p hp)

/-- The last flipped bit is the constant term. -/
theorem sum_X_pow_sub_ne_zero {S : Finset ℕ} {q : ℕ} (hq : q ∈ S) (hle : ∀ p ∈ S, p ≤ q) :
    ∑ p ∈ S, (X : (ZMod 2)[X]) ^ (q - p) ≠ 0 := by
  intro h0
  have hc := congrArg (coeff · 0) h0
  simp only [finsetSum_coeff, coeff_X_pow, coeff_zero] at hc
  rw [Finset.sum_eq_single_of_mem q hq, if_pos (Nat.sub_self q).symm] at hc
  · exact one_ne_zero hc
  · intro p hp hpq
    have := hle p hp
    exact if_neg (by omega)

/-- **Bursts**: flipped bits within `w` consecutive positions. -/
theorem not_dvd_burst (hg : g.getLsbD 0) {S : Finset ℕ} {N k : ℕ} (hS : S.Nonempty)
    (hN : ∀ p ∈ S, p < N) (hk : ∀ p ∈ S, k ≤ p ∧ p < k + w) :
    ¬ generator g ∣ ∑ p ∈ S, (X : (ZMod 2)[X]) ^ (N - 1 - p) := by
  set q := S.max' hS
  have hqS : q ∈ S := S.max'_mem hS
  have hle : ∀ p ∈ S, p ≤ q := fun p hp => S.le_max' p hp
  have hsplit : ∑ p ∈ S, (X : (ZMod 2)[X]) ^ (N - 1 - p) =
      (∑ p ∈ S, X ^ (q - p)) * X ^ (N - 1 - q) := by
    rw [Finset.sum_mul]
    refine Finset.sum_congr rfl fun p hp => ?_
    have := hle p hp
    have := hN q hqS
    rw [← pow_add]
    congr 1
    omega
  intro h
  rw [hsplit] at h
  refine (monic_generator g).not_dvd_of_degree_lt (sum_X_pow_sub_ne_zero hqS hle) ?_
    (dvd_of_dvd_mul_X_pow hg h)
  rw [degree_generator]
  refine degree_sum_X_pow_lt fun p hp => ?_
  have := hk p hp
  have := hk q hqS
  omega

/-- **Odd errors** escape no generator with an even number of terms. -/
theorem not_dvd_odd (hg : (generator g).eval 1 = 0) {S : Finset ℕ} (hS : Odd S.card) (f : ℕ → ℕ) :
    ¬ generator g ∣ ∑ p ∈ S, (X : (ZMod 2)[X]) ^ f p := by
  intro h
  have h1 := eval_dvd h (x := 1)
  rw [hg, zero_dvd_iff, eval_finsetSum] at h1
  simp only [eval_pow, eval_X, one_pow, Finset.sum_const, nsmul_eq_mul, mul_one] at h1
  rw [ZMod.natCast_eq_zero_iff_even] at h1
  exact Nat.not_even_iff_odd.mpr hS h1

/-- **Two errors** escape only at a distance at which the register comes back to `1`. -/
theorem not_dvd_pair (hg : g.getLsbD 0) {a d : ℕ} (hd : (shift g)^[d] 1 ≠ 1) :
    ¬ generator g ∣ (X : (ZMod 2)[X]) ^ a + X ^ (a + d) := by
  intro h
  have hw : 0 < w := by
    rcases w with _ | w
    · simp at hg
    · exact Nat.succ_pos w
  have h1 : ofReg (1 : BitVec w) = 1 := by
    ext k
    rw [coeff_ofReg, coeff_one]
    rcases k with _ | k
    · simp [hw]
    · simp
  have hfac : (X : (ZMod 2)[X]) ^ a + X ^ (a + d) = (X ^ d - 1) * X ^ a := by
    rw [CharTwo.sub_eq_add, add_mul, one_mul, ← pow_add, add_comm, add_comm d]
  rw [hfac] at h
  have hmk := AdjoinRoot.mk_eq_mk.mpr (dvd_of_dvd_mul_X_pow hg h)
  refine hd ((mk_ofReg_inj g).mp ?_)
  rw [mk_shift_iterate, h1, map_one, one_mul]
  rw [map_pow, AdjoinRoot.mk_X, map_one] at hmk
  exact hmk

end

end PipeGallery.Lib.Crc
