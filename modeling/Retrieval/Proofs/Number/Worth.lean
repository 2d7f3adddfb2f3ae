import Mathlib
import Retrieval.Number.Binary

/-!
# What doubles are worth

A double is worth a whole number of steps of the least positive one. Bits unpack to forms in which
the mantissa is as long as the exponent allows, such forms are packed without loss, and they are
compared as what they are worth, infinity counting as what would follow the greatest double. Just
the finite doubles have an exact value.
-/

namespace Retrieval.Number

open Float.Model (UnpackedFloat Format)
open Float.Model.UnpackedFloat

/-- What a mantissa and an exponent are worth, in steps of the least positive double. -/
def size (mantissa : Nat) (exponent : Int) : Nat := mantissa * 2 ^ (exponent + 1074).toNat

/-- What would follow the greatest double. -/
def limit : Nat := size (2 ^ 53) 971

def worth : UnpackedFloat → Int
  | .infinity s => s.apply limit
  | .finite s mantissa exponent _ => s.apply (size mantissa exponent)
  | .zero _ | .notANumber => 0

def IsCanonical : UnpackedFloat → Prop
  | .finite _ mantissa exponent _ =>
      mantissa < 2 ^ 53 ∧ -1074 ≤ exponent ∧ exponent ≤ 971 ∧
        (2 ^ 52 ≤ mantissa ∨ exponent = -1074)
  | _ => True

section Packing

theorem exponentBias_eq : ((Format.binary64.exponentBias : Nat) : Int) = 1023 := rfl

theorem mantissaBits_eq : ((Format.binary64.mantissaBitsWithoutImplicit : Nat) : Int) = 52 := rfl

theorem toNat_one_append (v : BitVec 52) : (1#1 ++ v).toNat = 2 ^ 52 + v.toNat := by
  rw [BitVec.toNat_append, ← Nat.shiftLeft_add_eq_or_of_lt v.isLt]
  rfl

theorem log2_eq_of_bounds {m n : Nat} (hlow : 2 ^ n ≤ m) (hhigh : m < 2 ^ (n + 1)) :
    m.log2 = n := by
  have hm : m ≠ 0 := by
    have := Nat.two_pow_pos n
    omega
  have h₁ := (Nat.le_log2 hm).2 hlow
  have h₂ := (Nat.log2_lt hm).2 hhigh
  omega

theorem isCanonical_unpack (b : BitVec Format.binary64.numBits) :
    IsCanonical (unpack .binary64 b) := by
  have hmantissa : (unpackMantissa b).toNat < 2 ^ 52 := (unpackMantissa b).isLt
  have hexponent : (unpackExponent b).toNat < 2 ^ 11 := (unpackExponent b).isLt
  unfold unpack
  dsimp only
  rw [exponentBias_eq, mantissaBits_eq]
  split_ifs with hall hnone hzero hnone
  · trivial
  · trivial
  · trivial
  · have hzero' : (unpackExponent b).toNat = 0 := by
      rw [hzero]
      rfl
    exact ⟨by omega, by omega, by omega, Or.inr (by omega)⟩
  · have hne : (unpackExponent b).toNat ≠ 2 ^ 11 - 1 := fun h =>
      hall (BitVec.toNat_inj.1 (h.trans rfl))
    have hpos : (unpackExponent b).toNat ≠ 0 := fun h =>
      hzero (BitVec.toNat_inj.1 (h.trans rfl))
    have happend := toNat_one_append (unpackMantissa b)
    exact ⟨by omega, by omega, by omega, Or.inl (by omega)⟩

theorem ofBitVec_unpackSign (s : Sign) (e : BitVec 11) (m : BitVec 52) :
    Sign.ofBitVec (unpackSign (packComponents .binary64 s e m)) = s := by
  simp only [unpackSign, packComponents, BitVec.extractLsb]
  rw [BitVec.extractLsb'_append_eq_of_le (by omega),
    BitVec.extractLsb'_append_eq_of_le (by omega)]
  cases s <;> rfl

theorem unpack_packComponents (s : Sign) (e : BitVec 11) (m : BitVec 52) :
    unpack .binary64 (packComponents .binary64 s e m) =
      if e = -1#11 then if m = 0#52 then .infinity s else .notANumber
      else if e = 0#11 then
        if h : m = 0#52 then .zero s
        else .finite s m.toNat (-1074)
          (Nat.pos_of_ne_zero fun hzero => h (BitVec.toNat_inj.1 hzero))
      else .finite s (2 ^ 52 + m.toNat) (e.toNat - 1075) (by omega) := by
  unfold unpack
  dsimp only
  simp only [unpackExponent_packComponents, unpackMantissa_packComponents, ofBitVec_unpackSign,
    exponentBias_eq, toNat_one_append]
  split_ifs with hall hnone hzero hnone
  · rfl
  · rfl
  · rfl
  · rw [hzero]
    rfl
  · rfl

theorem unpack_pack_normal (s : Sign) {m : Nat} {e : Int} (hm : 0 < m) (hlow : 2 ^ 52 ≤ m)
    (hhigh : m < 2 ^ 53) (he : -1074 ≤ e) :
    unpack .binary64 (pack .binary64 (.finite s m e hm)) =
      if e ≤ 971 then .finite s m e hm else .infinity s := by
  have hlog : m.log2 + 1 = Format.binary64.mantissaBits := by
    rw [log2_eq_of_bounds hlow hhigh]
    rfl
  rw [pack]
  dsimp only
  rw [exponentBias_eq, mantissaBits_eq, if_pos hlog]
  by_cases hfits : e ≤ 971
  · have hplain : ¬ 2 ^ Format.binary64.exponentBits ≤ (e + 1023 + 52).toNat + 1 := by
      show ¬ 2 ^ 11 ≤ _
      omega
    have hexponent : (BitVec.ofNat 11 (e + 1023 + 52).toNat).toNat = (e + 1075).toNat := by
      rw [BitVec.toNat_ofNat]
      omega
    have hmantissa : 2 ^ 52 + (BitVec.ofNat 52 m).toNat = m := by
      rw [BitVec.toNat_ofNat]
      omega
    have hall : BitVec.ofNat 11 (e + 1023 + 52).toNat ≠ -1#11 := fun h => by
      have := hexponent.symm.trans (congrArg BitVec.toNat h)
      change _ = 2047 at this
      omega
    have hnone : BitVec.ofNat 11 (e + 1023 + 52).toNat ≠ 0#11 := fun h => by
      have := hexponent.symm.trans (congrArg BitVec.toNat h)
      change _ = 0 at this
      omega
    rw [if_neg hplain, if_pos hfits, unpack_packComponents, if_neg hall, if_neg hnone]
    congr 1
    rw [hexponent]
    omega
  · have hlarge : 2 ^ Format.binary64.exponentBits ≤ (e + 1023 + 52).toNat + 1 := by
      show 2 ^ 11 ≤ _
      omega
    rw [if_pos hlarge, if_neg hfits]
    cases s <;> rfl

theorem unpack_pack_subnormal (s : Sign) {m : Nat} (hm : 0 < m) (hhigh : m < 2 ^ 52) :
    unpack .binary64 (pack .binary64 (.finite s m (-1074) hm)) = .finite s m (-1074) hm := by
  have hlog : ¬ m.log2 + 1 = Format.binary64.mantissaBits := by
    have := (Nat.log2_lt hm.ne').2 hhigh
    show ¬ m.log2 + 1 = 53
    omega
  have hmantissa : (BitVec.ofNat 52 m).toNat = m := by
    rw [BitVec.toNat_ofNat]
    omega
  have hsome : BitVec.ofNat 52 m ≠ 0#52 := fun h => by
    have := hmantissa.symm.trans (congrArg BitVec.toNat h)
    change _ = 0 at this
    omega
  rw [pack]
  dsimp only
  rw [if_neg hlog, if_neg (by decide), unpack_packComponents, if_neg (by decide), if_pos rfl,
    dif_neg hsome]
  congr 1

theorem unpack_pack {u : UnpackedFloat} (h : IsCanonical u) :
    unpack .binary64 (pack .binary64 u) = u := by
  cases u with
  | notANumber => rfl
  | infinity s => cases s <;> rfl
  | zero s => cases s <;> rfl
  | finite s m e hm =>
      obtain ⟨hlt, hlow, hhigh, hform⟩ := h
      by_cases hnormal : 2 ^ 52 ≤ m
      · rw [unpack_pack_normal s hm hnormal hlt hlow, if_pos hhigh]
      · obtain rfl : e = -1074 := by omega
        exact unpack_pack_subnormal s hm (by omega)

theorem unpack_pack_ne_notANumber {u : UnpackedFloat} (hu : u ≠ .notANumber) :
    unpack .binary64 (pack .binary64 u) ≠ .notANumber := by
  cases u with
  | notANumber => exact absurd rfl hu
  | infinity s => cases s <;> exact nofun
  | zero s => cases s <;> exact nofun
  | finite s m e hm =>
      have hinfinite : unpack .binary64 (packedInfinity .binary64 s) ≠ .notANumber := by
        cases s <;> exact nofun
      rw [pack]
      dsimp only
      rw [exponentBias_eq, mantissaBits_eq]
      split_ifs with hlarge hnormal
      · exact hinfinite
      · have hplain : BitVec.ofNat 11 (e + 1023 + 52).toNat ≠ -1#11 := fun h => by
          have hfull := congrArg BitVec.toNat h
          rw [BitVec.toNat_ofNat] at hfull
          change _ = 2047 at hfull
          change ¬ 2 ^ 11 ≤ _ at hlarge
          omega
        rw [unpack_packComponents, if_neg hplain]
        split_ifs <;> exact nofun
      · rw [unpack_packComponents, if_neg (by decide)]
        split_ifs <;> exact nofun

end Packing

section Order

theorem size_pos {m : Nat} (hm : 0 < m) (e : Int) : 0 < size m e :=
  Nat.mul_pos hm (Nat.two_pow_pos _)

theorem limit_pos : 0 < limit := size_pos (by decide) _

theorem size_lt_of_exponent_lt {m m' : Nat} {e e' : Int} (hm : m < 2 ^ 53) (hm' : 2 ^ 52 ≤ m')
    (he : -1074 ≤ e) (hlt : e < e') : size m e < size m' e' := by
  obtain ⟨k, hk⟩ : ∃ k, (e' + 1074).toNat = (e + 1074).toNat + 1 + k :=
    ⟨(e' - e - 1).toNat, by omega⟩
  calc size m e < 2 ^ 53 * 2 ^ (e + 1074).toNat :=
        Nat.mul_lt_mul_of_pos_right hm (Nat.two_pow_pos _)
    _ = 2 ^ 52 * 2 ^ ((e + 1074).toNat + 1) := by
        rw [Nat.pow_succ]
        ring
    _ ≤ 2 ^ 52 * 2 ^ ((e + 1074).toNat + 1 + k) :=
        Nat.mul_le_mul_left _ (Nat.pow_le_pow_right (by decide) (Nat.le_add_right _ _))
    _ ≤ size m' e' := by
        rw [size, hk]
        exact Nat.mul_le_mul_right _ hm'

theorem size_lt_limit {m : Nat} {e : Int} (hm : m < 2 ^ 53) (he : e ≤ 971) :
    size m e < limit := by
  calc size m e < 2 ^ 53 * 2 ^ (e + 1074).toNat :=
        Nat.mul_lt_mul_of_pos_right hm (Nat.two_pow_pos _)
    _ ≤ limit := Nat.mul_le_mul_left _ (Nat.pow_le_pow_right (by decide) (by omega))

theorem compare_size {m m' : Nat} {e e' : Int} {s s' : Sign} {hm : 0 < m} {hm' : 0 < m'}
    (h : IsCanonical (.finite s m e hm)) (h' : IsCanonical (.finite s' m' e' hm')) :
    (compare e e').then (compare m m') = compare (size m e) (size m' e') := by
  obtain ⟨hhigh, hlow, -, hform⟩ := h
  obtain ⟨hhigh', hlow', -, hform'⟩ := h'
  rcases lt_trichotomy e e' with hlt | rfl | hgt
  · have hsize : size m e < size m' e' :=
      size_lt_of_exponent_lt hhigh (hform'.resolve_right (by omega)) hlow hlt
    rw [compare_lt_iff_lt.2 hlt, compare_lt_iff_lt.2 hsize]
    rfl
  · have hpos : 0 < 2 ^ (e + 1074).toNat := Nat.two_pow_pos _
    rw [compare_eq_iff_eq.2 rfl, Ordering.then]
    rcases lt_trichotomy m m' with hlt | rfl | hgt
    · have hsize : size m e < size m' e := Nat.mul_lt_mul_of_pos_right hlt hpos
      rw [compare_lt_iff_lt.2 hlt, compare_lt_iff_lt.2 hsize]
    · rw [compare_eq_iff_eq.2 rfl, compare_eq_iff_eq.2 rfl]
    · have hsize : size m' e < size m e := Nat.mul_lt_mul_of_pos_right hgt hpos
      rw [compare_gt_iff_gt.2 hgt, compare_gt_iff_gt.2 hsize]
  · have hsize : size m' e' < size m e :=
      size_lt_of_exponent_lt hhigh' (hform.resolve_right (by omega)) hlow' hgt
    rw [compare_gt_iff_gt.2 hgt, compare_gt_iff_gt.2 hsize]
    rfl

theorem compare_natCast (m n : Nat) : compare (m : Int) n = compare m n := by
  rcases lt_trichotomy m n with h | rfl | h
  · rw [compare_lt_iff_lt.2 h, compare_lt_iff_lt.2 (Int.ofNat_lt.2 h)]
  · rw [compare_eq_iff_eq.2 rfl, compare_eq_iff_eq.2 rfl]
  · rw [compare_gt_iff_gt.2 h, compare_gt_iff_gt.2 (Int.ofNat_lt.2 h)]

theorem compare_neg (m n : Int) : compare (-m) (-n) = (compare m n).swap := by
  rw [← Std.OrientedCmp.eq_swap]
  rcases lt_trichotomy m n with h | rfl | h
  · rw [compare_gt_iff_gt.2 h, compare_gt_iff_gt.2 (neg_lt_neg h)]
  · rw [compare_eq_iff_eq.2 rfl, compare_eq_iff_eq.2 rfl]
  · rw [compare_lt_iff_lt.2 h, compare_lt_iff_lt.2 (neg_lt_neg h)]

theorem worth_pos {m : Nat} {e : Int} (hm : 0 < m) : 0 < worth (.finite .positive m e hm) :=
  Int.natCast_pos.2 (size_pos hm e)

theorem worth_neg {m : Nat} {e : Int} (hm : 0 < m) : worth (.finite .negative m e hm) < 0 :=
  neg_neg_of_pos (Int.natCast_pos.2 (size_pos hm e))

theorem abs_worth_lt {u : UnpackedFloat} (h : IsCanonical u) (hu : ∀ s, u ≠ .infinity s) :
    |worth u| < limit := by
  have hlimit : (0 : Int) < limit := Int.natCast_pos.2 limit_pos
  cases u with
  | infinity s => exact absurd rfl (hu s)
  | notANumber | zero s =>
      rw [worth, abs_zero]
      exact hlimit
  | finite s m e hm =>
      have hsize : (size m e : Int) < limit := Int.ofNat_lt.2 (size_lt_limit h.1 h.2.2.1)
      cases s
      · rwa [worth, Sign.apply, abs_neg, abs_of_nonneg (Int.natCast_nonneg _)]
      · rwa [worth, Sign.apply, abs_of_nonneg (Int.natCast_nonneg _)]

theorem compare_eq {a b : UnpackedFloat} (ha : IsCanonical a) (hb : IsCanonical b)
    (hna : a ≠ .notANumber) (hnb : b ≠ .notANumber) :
    a.compare b = some (compare (worth a) (worth b)) := by
  have hlt {m n : Int} (h : m < n) : some Ordering.lt = some (compare m n) :=
    congrArg some (compare_lt_iff_lt.2 h).symm
  have hgt {m n : Int} (h : n < m) : some Ordering.gt = some (compare m n) :=
    congrArg some (compare_gt_iff_gt.2 h).symm
  fun_cases UnpackedFloat.compare a b
  case case1 => exact absurd rfl hna
  case case2 => exact absurd rfl hnb
  -- Infinity on one side or on both.
  case case3 s t =>
    have hlimit : (0 : Int) < limit := Int.natCast_pos.2 limit_pos
    cases s <;> cases t
    · exact congrArg some (compare_eq_iff_eq.2 rfl).symm
    · exact hlt (show -(limit : Int) < limit by omega)
    · exact hgt (show -(limit : Int) < limit by omega)
    · exact congrArg some (compare_eq_iff_eq.2 rfl).symm
  case case4 _ h => exact hgt (abs_lt.1 (abs_worth_lt hb h)).2
  case case5 _ h => exact hlt (abs_lt.1 (abs_worth_lt hb h)).1
  case case6 h => exact hlt (abs_lt.1 (abs_worth_lt ha h)).2
  case case7 h => exact hgt (abs_lt.1 (abs_worth_lt ha h)).1
  -- Zero on one side or on both.
  case case8 hm _ => exact hgt (worth_pos hm)
  case case9 hm _ => exact hlt (worth_neg hm)
  case case10 hm => exact hlt (worth_pos hm)
  case case11 hm => exact hgt (worth_neg hm)
  case case12 => exact congrArg some (compare_eq_iff_eq.2 rfl).symm
  -- Mantissas with their exponents, by their signs.
  case case13 =>
    rw [compare_size ha hb, ← compare_natCast, ← compare_neg]
    rfl
  case case14 hm _ _ hm' => exact hlt ((worth_neg hm).trans (worth_pos hm'))
  case case15 hm _ _ hm' => exact hgt ((worth_neg hm').trans (worth_pos hm))
  case case16 =>
    rw [compare_size ha hb, ← compare_natCast]
    rfl

end Order

namespace Binary

theorem ofBits?_eq_none_iff {bits : Nat} :
    ofBits? bits = none ↔ bits / 2 ^ 52 % 2048 = 2047 := by
  unfold ofBits?
  dsimp only
  split
  · next h => exact iff_of_true rfl h
  · next h =>
    refine iff_of_false ?_ h
    split <;> exact Option.some_ne_none _

theorem isFinite_eq_false_iff {x : Float} :
    x.isFinite = false ↔ x.toBits.toNat / 2 ^ 52 % 2048 = 2047 := by
  let exponent : BitVec Format.binary64.exponentBits :=
    UnpackedFloat.unpackExponent x.toBits.toBitVec
  have hexponent : exponent = -1#_ ↔ x.toBits.toNat / 2 ^ 52 % 2048 = 2047 := by
    rw [← BitVec.toNat_inj, ← Nat.shiftRight_eq_div_pow]
    rfl
  rw [← hexponent]
  show (UnpackedFloat.unpack Format.binary64 x.toBits.toBitVec).isFinite = false ↔ _
  unfold UnpackedFloat.unpack
  dsimp only
  by_cases h : exponent = -1#_
  · rw [if_pos h]
    refine iff_of_true ?_ h
    split <;> rfl
  · rw [if_neg h]
    refine iff_of_false ?_ h
    split
    · split <;> exact Bool.noConfusion
    · exact Bool.noConfusion

theorem ofFloat?_eq_none_iff {x : Float} : ofFloat? x = none ↔ x.isFinite = false :=
  ofBits?_eq_none_iff.trans isFinite_eq_false_iff.symm

end Binary

end Retrieval.Number
