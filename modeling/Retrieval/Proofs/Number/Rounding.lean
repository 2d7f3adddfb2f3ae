import Retrieval.Proofs.Number.Worth

/-!
# Rounding keeps the order

A difference of doubles is rounded once, to the nearest double, halves going to the even mantissa.
The bits that are shifted out of a mantissa are followed step by step: two of them tell on which
side of the middle the rest lies, which makes the shift a division that is rounded. What is greater
is then not rounded to less, also where the last bit moves on and where the range of doubles ends.
-/

namespace Retrieval.Number

open Float.Model (UnpackedFloat Format totalExponent)
open Float.Model.UnpackedFloat

/-- The whole number nearest to `number / 2 ^ shift`, halves going to the even one. -/
def toNearest (number shift : Nat) : Nat :=
  let whole := number / 2 ^ shift
  let rest := number % 2 ^ shift
  if 2 * rest < 2 ^ shift then whole
  else if 2 ^ shift < 2 * rest then whole + 1 else whole + whole % 2

theorem toNearest_near (number shift : Nat) :
    2 * number ≤ 2 * (toNearest number shift * 2 ^ shift) + 2 ^ shift ∧
      2 * (toNearest number shift * 2 ^ shift) ≤ 2 * number + 2 ^ shift := by
  have hsplit : number / 2 ^ shift * 2 ^ shift + number % 2 ^ shift = number :=
    Nat.div_add_mod' number (2 ^ shift)
  have hrest : number % 2 ^ shift < 2 ^ shift := Nat.mod_lt _ (Nat.two_pow_pos _)
  unfold toNearest
  dsimp only
  split_ifs with hless hmore
  · omega
  · rw [Nat.add_mul, Nat.one_mul]
    omega
  · rcases Nat.mod_two_eq_zero_or_one (number / 2 ^ shift) with heven | hodd
    · rw [heven, Nat.add_zero]
      omega
    · rw [hodd, Nat.add_mul, Nat.one_mul]
      omega

theorem toNearest_mono {m n : Nat} (h : m ≤ n) (shift : Nat) :
    toNearest m shift ≤ toNearest n shift := by
  rcases Nat.eq_or_lt_of_le h with rfl | hlt
  · exact Nat.le_refl _
  · by_contra hgt
    have hstep : (toNearest n shift + 1) * 2 ^ shift ≤ toNearest m shift * 2 ^ shift :=
      Nat.mul_le_mul_right _ (by omega)
    rw [Nat.add_mul, Nat.one_mul] at hstep
    have hm := (toNearest_near m shift).2
    have hn := (toNearest_near n shift).1
    omega

theorem toNearest_scale (m shift j : Nat) :
    toNearest (m * 2 ^ j) (shift + j) = toNearest m shift := by
  have hpos : 0 < 2 ^ j := Nat.two_pow_pos j
  have hwhole : m * 2 ^ j / 2 ^ (shift + j) = m / 2 ^ shift := by
    rw [Nat.pow_add, Nat.mul_div_mul_right _ _ hpos]
  have hrest : m * 2 ^ j % 2 ^ (shift + j) = m % 2 ^ shift * 2 ^ j := by
    rw [Nat.pow_add, Nat.mul_mod_mul_right]
  have hless : 2 * (m % 2 ^ shift * 2 ^ j) < 2 ^ (shift + j) ↔
      2 * (m % 2 ^ shift) < 2 ^ shift := by
    rw [Nat.pow_add, ← Nat.mul_assoc, Nat.mul_lt_mul_right hpos]
  have hmore : 2 ^ (shift + j) < 2 * (m % 2 ^ shift * 2 ^ j) ↔
      2 ^ shift < 2 * (m % 2 ^ shift) := by
    rw [Nat.pow_add, ← Nat.mul_assoc, Nat.mul_lt_mul_right hpos]
  simp only [toNearest, hwhole, hrest, hless, hmore]

@[simp] theorem toNearest_zero_shift (m : Nat) : toNearest m 0 = m := by
  simp [toNearest, Nat.mod_one]

theorem toNearest_le {number shift : Nat} (hhigh : number < 2 ^ (shift + 53)) :
    toNearest number shift ≤ 2 ^ 53 := by
  by_contra h
  have hstep : (2 ^ 53 + 1) * 2 ^ shift ≤ toNearest number shift * 2 ^ shift :=
    Nat.mul_le_mul_right _ (by omega)
  have hnear := (toNearest_near number shift).2
  have hpos := Nat.two_pow_pos shift
  rw [Nat.pow_add, Nat.mul_comm] at hhigh
  rw [Nat.add_mul, Nat.one_mul] at hstep
  omega

theorem le_toNearest {number shift : Nat} (hlow : 2 ^ (shift + 52) ≤ number) :
    2 ^ 52 ≤ toNearest number shift := by
  by_contra h
  have hstep : (toNearest number shift + 1) * 2 ^ shift ≤ 2 ^ 52 * 2 ^ shift :=
    Nat.mul_le_mul_right _ (by omega)
  have hnear := (toNearest_near number shift).1
  have hpos := Nat.two_pow_pos shift
  rw [Nat.pow_add, Nat.mul_comm] at hlow
  rw [Nat.add_mul, Nat.one_mul] at hstep
  omega

section Shifting

/-- What has been shifted out of a mantissa, and what the two bits beside it tell of that. -/
structure Shifted (number shift : Nat) (m : ExtendedMantissa) (rest : Nat) : Prop where
  split : number = m.mantissa * 2 ^ shift + rest
  small : rest < 2 ^ shift
  round : m.roundBit = true ↔ 2 ^ shift ≤ 2 * rest
  sticky : m.stickyBit = false ↔ 2 * rest = if m.roundBit then 2 ^ shift else 0

namespace Shifted

variable {number shift rest : Nat} {m : ExtendedMantissa}

theorem start (number : Nat) : Shifted number 0 ⟨number, false, false⟩ 0 where
  split := by simp
  small := by simp
  round := by simp
  sticky := by simp

theorem none_iff (h : Shifted number shift m rest) :
    (m.roundBit || m.stickyBit) = false ↔ rest = 0 := by
  have hpos := Nat.two_pow_pos shift
  have hround := h.round
  have hsticky := h.sticky
  cases hbit : m.roundBit with
  | true =>
      have := hround.1 hbit
      simp only [Bool.true_or, Bool.true_eq_false, false_iff]
      omega
  | false =>
      rw [hbit, if_neg Bool.false_ne_true] at hsticky
      rw [Bool.false_or, hsticky]
      omega

theorem next (h : Shifted number shift m rest) :
    Shifted number (shift + 1) m.shiftRightOne (rest + m.mantissa % 2 * 2 ^ shift) := by
  have hpow : 2 ^ (shift + 1) = 2 * 2 ^ shift := Nat.pow_succ'
  have hsmall := h.small
  have hround : m.shiftRightOne.roundBit = true ↔ m.mantissa % 2 = 1 := by
    simp [ExtendedMantissa.shiftRightOne]
  have hlast := Nat.mod_two_eq_zero_or_one m.mantissa
  refine ⟨?_, ?_, ?_, ?_⟩
  · calc number = (2 * (m.mantissa / 2) + m.mantissa % 2) * 2 ^ shift + rest := by
          rw [Nat.div_add_mod]
          exact h.split
      _ = m.mantissa / 2 * 2 ^ (shift + 1) + (rest + m.mantissa % 2 * 2 ^ shift) := by
          rw [hpow]
          ring
  · rcases hlast with hlast | hlast <;> rw [hlast, hpow] <;> omega
  · rw [hround, hpow]
    rcases hlast with hlast | hlast <;> rw [hlast] <;> omega
  · have hnone : m.shiftRightOne.stickyBit = false ↔ rest = 0 := h.none_iff
    rw [hnone, hpow]
    rcases hlast with hlast | hlast
    · have hzero : m.shiftRightOne.roundBit ≠ true := fun hbit => by
        have := hround.1 hbit
        omega
      rw [if_neg hzero, hlast]
      omega
    · rw [if_pos (hround.2 hlast), hlast]
      omega

theorem whole (h : Shifted number shift m rest) : number / 2 ^ shift = m.mantissa := by
  rw [h.split, Nat.mul_comm, Nat.mul_add_div (Nat.two_pow_pos shift), Nat.div_eq_of_lt h.small,
    Nat.add_zero]

theorem rounded (h : Shifted number shift m rest) : m.roundedMantissa = toNearest number shift := by
  have hrest : number % 2 ^ shift = rest := by
    rw [h.split, Nat.mul_comm, Nat.mul_add_mod, Nat.mod_eq_of_lt h.small]
  have hround := h.round
  have hsticky := h.sticky
  have hsmall := h.small
  obtain ⟨mantissa, round, sticky⟩ := m
  unfold toNearest ExtendedMantissa.roundedMantissa
  dsimp only at hround hsticky ⊢
  rw [h.whole, hrest]
  -- The two bits tell whether nothing, less than half, just half or more than half is left.
  cases round <;> cases sticky <;> simp at hround hsticky
  · exact (if_pos hround).symm
  · exact (if_pos hround).symm
  · rw [if_neg (by omega), if_neg (by omega)]
    rfl
  · rw [if_neg (by omega), if_pos (by omega)]
    rfl

end Shifted

theorem exists_shifted (number shift : Nat) :
    ∃ rest, Shifted number shift ((⟨number, false, false⟩ : ExtendedMantissa) >>> shift) rest := by
  induction shift with
  | zero => exact ⟨0, .start number⟩
  | succ shift ih =>
      obtain ⟨rest, h⟩ := ih
      exact ⟨_, h.next⟩

theorem shiftToExponent_exact (m : Nat) (e target : Int) :
    (shiftToExponent m e .exact target).1.roundedMantissa = toNearest m (target - e).toNat ∧
      (shiftToExponent m e .exact target).1.mantissa = m / 2 ^ (target - e).toNat ∧
      (shiftToExponent m e .exact target).2 = e + (target - e).toNat := by
  obtain ⟨rest, h⟩ := exists_shifted m (target - e).toNat
  exact ⟨h.rounded, h.whole.symm, rfl⟩

theorem decreaseExponent_eq (m : Nat) (e target : Int) :
    decreaseExponent m e target = (m * 2 ^ (e - target).toNat, e - (e - target).toNat) := by
  rw [decreaseExponent, Nat.shiftLeft_eq]

end Shifting

section Nearest

/-- Where the last bit of a double stands that is worth about as much as a number. -/
def lastBit (number : Nat) : Nat := number.log2 - 52

/-- What the double nearest to a number is worth, or would be if doubles had no greatest one. -/
def nearest (number : Nat) : Nat := toNearest number (lastBit number) * 2 ^ lastBit number

theorem lt_pow_lastBit (number : Nat) : number < 2 ^ (lastBit number + 53) := by
  have hlog : number.log2 + 1 ≤ lastBit number + 53 := by
    unfold lastBit
    omega
  exact (Nat.lt_log2_self (n := number)).trans_le (Nat.pow_le_pow_right (by decide) hlog)

theorem pow_lastBit_le {number : Nat} (h : lastBit number ≠ 0) :
    2 ^ (lastBit number + 52) ≤ number := by
  have hlog : lastBit number + 52 = number.log2 := by
    unfold lastBit at h ⊢
    omega
  rw [hlog]
  refine Nat.log2_self_le fun hzero => h ?_
  rw [hzero, lastBit]
  rfl

theorem lastBit_mono {m n : Nat} (hm : 0 < m) (h : m ≤ n) : lastBit m ≤ lastBit n := by
  have hlog : m.log2 ≤ n.log2 :=
    (Nat.le_log2 (by omega)).2 ((Nat.log2_self_le hm.ne').trans h)
  unfold lastBit
  omega

@[simp] theorem nearest_zero : nearest 0 = 0 := rfl

theorem nearest_mono {m n : Nat} (h : m ≤ n) : nearest m ≤ nearest n := by
  rcases Nat.eq_zero_or_pos m with rfl | hm
  · exact nearest_zero ▸ Nat.zero_le _
  rcases Nat.eq_or_lt_of_le (lastBit_mono hm h) with heq | hlt
  · rw [nearest, nearest, heq]
    exact Nat.mul_le_mul_right _ (toNearest_mono h _)
  · -- Between the two stands a power of two, which is a double itself.
    calc nearest m ≤ 2 ^ 53 * 2 ^ lastBit m :=
          Nat.mul_le_mul_right _ (toNearest_le (lt_pow_lastBit m))
      _ = 2 ^ 52 * 2 ^ (lastBit m + 1) := by
          rw [Nat.pow_succ]
          ring
      _ ≤ 2 ^ 52 * 2 ^ lastBit n :=
          Nat.mul_le_mul_left _ (Nat.pow_le_pow_right (by decide) hlt)
      _ ≤ nearest n := Nat.mul_le_mul_right _ (le_toNearest (pow_lastBit_le (by omega)))

theorem nearest_pos {number : Nat} (h : 0 < number) : 0 < nearest number := by
  refine Nat.mul_pos ?_ (Nat.two_pow_pos _)
  by_cases hbit : lastBit number = 0
  · rw [hbit, toNearest_zero_shift]
    exact h
  · have := le_toNearest (pow_lastBit_le hbit)
    omega

theorem log2_size {m : Nat} (hm : 0 < m) (e : Int) :
    (size m e).log2 = m.log2 + (e + 1074).toNat := by
  have hpos := Nat.two_pow_pos (e + 1074).toNat
  have hlow := Nat.mul_le_mul_right (2 ^ (e + 1074).toNat) (Nat.log2_self_le hm.ne')
  have hhigh := Nat.mul_lt_mul_of_pos_right (Nat.lt_log2_self (n := m)) hpos
  rw [← Nat.pow_add] at hlow hhigh
  exact log2_eq_of_bounds hlow (by rwa [Nat.add_right_comm] at hhigh)

theorem size_eq (m t : Nat) : size m ((t : Int) - 1074) = m * 2 ^ t := by
  rw [size]
  congr 2
  omega

/-- Doubles are not changed by rounding. -/
theorem nearest_size {m : Nat} {e : Int} (hm : 0 < m) (hhigh : m < 2 ^ 53) :
    nearest (size m e) = size m e := by
  have hlog := (Nat.log2_lt hm.ne').2 hhigh
  obtain ⟨j, hj⟩ : ∃ j, (e + 1074).toNat = lastBit (size m e) + j := by
    refine ⟨(e + 1074).toNat - lastBit (size m e), ?_⟩
    rw [lastBit, log2_size hm]
    omega
  have hsize : size m e = m * 2 ^ j * 2 ^ lastBit (size m e) := by
    conv_lhs => rw [size, hj]
    rw [Nat.mul_assoc, ← Nat.pow_add, Nat.add_comm j]
  have hscale := toNearest_scale (m * 2 ^ j) 0 (lastBit (size m e))
  rw [Nat.zero_add, ← hsize, toNearest_zero_shift] at hscale
  rw [nearest, hscale, ← hsize]

theorem targetExponent_eq {m : Nat} (hm : 0 < m) {e : Int} (he : -1074 ≤ e) :
    Format.binary64.targetExponent (totalExponent m e) = (lastBit (size m e) : Int) - 1074 := by
  have hmin : Format.binary64.minExponent = -1074 := by decide
  have hbits : ((Format.binary64.mantissaBits : Nat) : Int) = 53 := rfl
  rw [lastBit, log2_size hm, Format.targetExponent, totalExponent, hmin, hbits]
  omega

end Nearest

section Round

/-- Rounding shifts twice; the second time it only makes room for a carry. -/
theorem roundWithAccuracy_eq (s : Sign) (m : Nat) (e : Int) :
    roundWithAccuracy .binary64 s m e .exact =
      let target := Format.binary64.targetExponent (totalExponent m e)
      let k := toNearest m (target - e).toNat
      let stop := e + (target - e).toNat
      let carry := (Format.binary64.targetExponent (totalExponent k stop) - stop).toNat
      if h : k / 2 ^ carry = 0 then .zero s
      else .finite s (k / 2 ^ carry) (stop + carry) (Nat.pos_of_ne_zero h) := by
  obtain ⟨hround, -, hstop⟩ :=
    shiftToExponent_exact m e (Format.binary64.targetExponent (totalExponent m e))
  unfold roundWithAccuracy shiftToTargetExponent
  dsimp only
  rw [hround, hstop]
  generalize toNearest m _ = k
  generalize e + ((Format.binary64.targetExponent (totalExponent m e) - e).toNat : Int) = stop
  obtain ⟨-, hmantissa, hcarry⟩ :=
    shiftToExponent_exact k stop (Format.binary64.targetExponent (totalExponent k stop))
  simp only [hmantissa, hcarry]

/-- A mantissa of full length that is too large to be packed is worth as much as infinity. -/
theorem worth_finite (s : Sign) {k t : Nat} (hk : 0 < k) (hhigh : k < 2 ^ 53)
    (hlow : t ≠ 0 → 2 ^ 52 ≤ k) :
    worth (unpack .binary64 (pack .binary64 (.finite s k ((t : Int) - 1074) hk))) =
      s.apply (min (k * 2 ^ t) limit : Nat) := by
  rw [← size_eq]
  by_cases hnormal : 2 ^ 52 ≤ k
  · rw [unpack_pack_normal s hk hnormal hhigh (by omega)]
    by_cases hfits : (t : Int) - 1074 ≤ 971
    · rw [if_pos hfits, worth, Nat.min_eq_left (size_lt_limit hhigh hfits).le]
    · have hlimit : limit ≤ size k ((t : Int) - 1074) := by
        calc limit = 2 ^ 52 * 2 ^ ((971 + 1074 : Int).toNat + 1) := by
              rw [limit, size, Nat.pow_succ]
              ring
          _ ≤ 2 ^ 52 * 2 ^ ((t : Int) - 1074 + 1074).toNat :=
              Nat.mul_le_mul_left _ (Nat.pow_le_pow_right (by decide) (by omega))
          _ ≤ size k ((t : Int) - 1074) := Nat.mul_le_mul_right _ hnormal
      rw [if_neg hfits, worth, Nat.min_eq_right hlimit]
  · obtain rfl : t = 0 := by
      by_contra ht
      exact hnormal (hlow ht)
    have hsmall : size k (((0 : Nat) : Int) - 1074) < limit := size_lt_limit hhigh (by decide)
    rw [Nat.min_eq_left hsmall.le]
    exact congrArg worth (unpack_pack_subnormal s hk (by omega))

theorem carry_eq {k t : Nat} (hk : 0 < k) (hhigh : k ≤ 2 ^ 53) :
    (Format.binary64.targetExponent (totalExponent k ((t : Int) - 1074)) -
      ((t : Int) - 1074)).toNat = if k < 2 ^ 53 then 0 else 1 := by
  have hlog := log2_size hk ((t : Int) - 1074)
  rw [size_eq] at hlog
  rw [targetExponent_eq hk (by omega), size_eq, lastBit, hlog]
  split_ifs with hsmall
  · have := (Nat.log2_lt hk.ne').2 hsmall
    omega
  · obtain rfl : k = 2 ^ 53 := by omega
    rw [Nat.log2_two_pow]
    omega

theorem worth_roundWithAccuracy (s : Sign) {m : Nat} {e : Int} (hm : 0 < m) (he : -1074 ≤ e)
    (hlast : e ≤ (lastBit (size m e) : Int) - 1074) :
    worth (unpack .binary64 (pack .binary64 (roundWithAccuracy .binary64 s m e .exact))) =
      s.apply (min (nearest (size m e)) limit : Nat) := by
  have htarget := targetExponent_eq hm he
  rw [roundWithAccuracy_eq, htarget]
  dsimp only
  obtain ⟨j, hj⟩ : ∃ j : Nat, e = j - 1074 := ⟨(e + 1074).toNat, by omega⟩
  obtain ⟨shift, hshift⟩ : ∃ shift, lastBit (size m e) = shift + j :=
    ⟨lastBit (size m e) - j, by omega⟩
  have hk : toNearest m ((lastBit (size m e) : Int) - 1074 - e).toNat =
      toNearest (size m e) (lastBit (size m e)) := by
    have hsize : size m e = m * 2 ^ j := by
      rw [hj, size_eq]
    rw [hshift, hsize, toNearest_scale]
    congr 1
    omega
  have hstop : e + (((lastBit (size m e) : Int) - 1074 - e).toNat : Int) =
      (lastBit (size m e) : Int) - 1074 := by omega
  rw [hk, hstop]
  have hpos : 0 < nearest (size m e) := nearest_pos (size_pos hm e)
  have hhigh := toNearest_le (lt_pow_lastBit (size m e))
  have hlow : lastBit (size m e) ≠ 0 → 2 ^ 52 ≤ toNearest (size m e) (lastBit (size m e)) :=
    fun h => le_toNearest (pow_lastBit_le h)
  rw [nearest] at hpos ⊢
  generalize toNearest (size m e) (lastBit (size m e)) = k at hpos hhigh hlow ⊢
  generalize lastBit (size m e) = t at hpos hlow ⊢
  have hk : 0 < k := Nat.pos_of_mul_pos_right hpos
  rw [carry_eq hk hhigh]
  by_cases hsmall : k < 2 ^ 53
  · simp only [if_pos hsmall, Nat.pow_zero, Nat.div_one, hk.ne', ↓reduceDIte]
    rw [Int.natCast_zero, add_zero]
    exact worth_finite s hk hsmall hlow
  · -- The mantissa has been rounded up to a power of two, so it has one bit too many.
    obtain rfl : k = 2 ^ 53 := by omega
    have hcarry : (2 : Nat) ^ 53 * 2 ^ t = 2 ^ 52 * 2 ^ (t + 1) := by
      rw [Nat.pow_succ]
      ring
    have hhalf : (2 : Nat) ^ 53 / 2 ^ 1 = 2 ^ 52 := by decide
    have hstop : (t : Int) - 1074 + ((1 : Nat) : Int) = ((t + 1 : Nat) : Int) - 1074 := by omega
    have hhalved := worth_finite s (k := 2 ^ 52) (t := t + 1) (by decide) (by decide)
      fun _ => Nat.le_refl _
    rw [hcarry, ← hhalved]
    simp only [if_neg hsmall, hhalf, hstop, (by decide : (2 : Nat) ^ 52 ≠ 0), ↓reduceDIte]

/-- A number is rounded to the nearest double, whatever exponent it is given with. -/
theorem worth_round (s : Sign) {m : Nat} {e : Int} (hm : 0 < m) (he : -1074 ≤ e) :
    worth (unpack .binary64 (pack .binary64 (UnpackedFloat.round .binary64 s m e))) =
      s.apply (min (nearest (size m e)) limit : Nat) := by
  have htarget := targetExponent_eq hm he
  unfold UnpackedFloat.round
  dsimp only
  rw [decreaseExponent_eq, htarget]
  dsimp only
  obtain ⟨j, hj⟩ : ∃ j, j = (e - ((lastBit (size m e) : Int) - 1074)).toNat := ⟨_, rfl⟩
  rw [← hj]
  have hsize : size (m * 2 ^ j) (e - j) = size m e := by
    rw [size, size, Nat.mul_assoc, ← Nat.pow_add]
    congr 2
    omega
  have hrounded := worth_roundWithAccuracy s (Nat.mul_pos hm (Nat.two_pow_pos j))
    (e := e - j) (by omega) (by rw [hsize]; omega)
  rwa [hsize] at hrounded

/-- What the double nearest to a number is worth, infinity included. -/
def rounded (number : Int) : Int :=
  if number < 0 then -(min (nearest (-number).toNat) limit : Nat)
  else (min (nearest number.toNat) limit : Nat)

theorem rounded_mono {a b : Int} (h : a ≤ b) : rounded a ≤ rounded b := by
  unfold rounded
  split_ifs with ha hb hb
  · have hnearest : nearest (-b).toNat ≤ nearest (-a).toNat := nearest_mono (by omega)
    omega
  · omega
  · omega
  · have hnearest : nearest a.toNat ≤ nearest b.toNat := nearest_mono (by omega)
    omega

@[simp] theorem rounded_zero : rounded 0 = 0 := by
  simp [rounded]

theorem rounded_apply (s : Sign) {n : Nat} (hn : 0 < n) :
    rounded (s.apply n) = s.apply (min (nearest n) limit : Nat) := by
  cases s with
  | negative =>
      have hneg : -(n : Int) < 0 := by omega
      rw [Sign.apply, rounded, if_pos hneg, neg_neg, Int.toNat_natCast]
      rfl
  | positive =>
      have hpos : ¬ (n : Int) < 0 := by omega
      rw [Sign.apply, rounded, if_neg hpos, Int.toNat_natCast]
      rfl

theorem rounded_worth {u : UnpackedFloat} (h : IsCanonical u) (hu : u.isFinite = true) :
    rounded (worth u) = worth u := by
  cases u with
  | notANumber | zero s => exact rounded_zero
  | infinity s => cases hu
  | finite s m e hm =>
      rw [worth, rounded_apply s (size_pos hm e), nearest_size hm h.1,
        Nat.min_eq_left (size_lt_limit h.1 h.2.2.1).le]

end Round

section Subtraction

theorem worth_normalize {m e : Int} (he : -1074 ≤ e) :
    worth (unpack .binary64 (pack .binary64 (UnpackedFloat.normalize .binary64 m e .positive))) =
      rounded (m * 2 ^ (e + 1074).toNat) := by
  have hscaled (s : Sign) (n : Nat) :
      s.apply n * 2 ^ (e + 1074).toNat = s.apply (size n e : Nat) := by
    cases s <;> simp [Sign.apply, size]
  unfold UnpackedFloat.normalize
  rcases lt_trichotomy m 0 with hneg | rfl | hm
  · have hsign : m = Sign.negative.apply ((-m).toNat : Nat) := by
      show m = -_
      omega
    have hpos : 0 < (-m).toNat := by omega
    rw [compare_lt_iff_lt.2 hneg]
    dsimp only
    rw [worth_round .negative hpos he]
    conv_rhs => rw [hsign, hscaled, rounded_apply _ (size_pos hpos e)]
  · rw [compare_eq_iff_eq.2 rfl, zero_mul, rounded_zero]
    exact congrArg worth (unpack_pack (u := .zero .positive) trivial)
  · have hsign : m = Sign.positive.apply (m.toNat : Nat) := by
      show m = (m.toNat : Int)
      omega
    have hpos : 0 < m.toNat := by omega
    rw [compare_gt_iff_gt.2 hm]
    dsimp only
    rw [worth_round .positive hpos he]
    conv_rhs => rw [hsign, hscaled, rounded_apply _ (size_pos hpos e)]

theorem worth_neg_sign (s : Sign) {m : Nat} {e : Int} (hm : 0 < m) :
    worth (.finite (-s) m e hm) = -worth (.finite s m e hm) := by
  cases s with
  | negative => exact (neg_neg _).symm
  | positive => rfl

theorem size_lower {m : Nat} {e low : Int} (hlow : -1074 ≤ low) (h : low ≤ e) :
    size m e = m * 2 ^ (e - low).toNat * 2 ^ (low + 1074).toNat := by
  rw [size, Nat.mul_assoc, ← Nat.pow_add]
  congr 2
  omega

theorem worth_sub {a b : UnpackedFloat} (ha : IsCanonical a) (hb : IsCanonical b)
    (hfa : a.isFinite = true) (hfb : b.isFinite = true) :
    worth (unpack .binary64 (pack .binary64 (a.sub .binary64 b))) =
      rounded (worth a - worth b) := by
  cases a with
  | notANumber => cases hfa
  | infinity s => cases hfa
  | zero s =>
      cases b with
      | notANumber => cases hfb
      | infinity t => cases hfb
      | zero t =>
          show _ = rounded (0 - 0)
          rw [sub_zero, rounded_zero]
          cases s <;> cases t <;> rfl
      | finite t m e hm =>
          have hneg : IsCanonical (.finite (-t) m e hm) := hb
          show worth (unpack .binary64 (pack .binary64 (.finite (-t) m e hm))) = rounded (0 - _)
          rw [unpack_pack hneg, zero_sub, ← worth_neg_sign, rounded_worth hneg rfl]
  | finite s m e hm =>
      cases b with
      | notANumber => cases hfb
      | infinity t => cases hfb
      | zero t =>
          show worth (unpack .binary64 (pack .binary64 (.finite s m e hm))) = rounded (_ - 0)
          rw [unpack_pack ha, sub_zero, rounded_worth ha rfl]
      | finite t m' e' hm' =>
          have hlow : -1074 ≤ min e e' := le_min ha.2.1 hb.2.1
          unfold UnpackedFloat.sub
          dsimp only
          rw [decreaseExponent_eq, decreaseExponent_eq]
          dsimp only
          rw [worth_normalize hlow, Int.sub_mul, worth, worth, size_lower hlow (min_le_left e e'),
            size_lower hlow (min_le_right e e')]
          cases s <;> cases t <;> simp [Sign.apply]

theorem round_ne_notANumber (s : Sign) (m : Nat) (e : Int) :
    UnpackedFloat.round .binary64 s m e ≠ .notANumber := by
  unfold UnpackedFloat.round roundWithAccuracy
  dsimp only
  split_ifs <;> exact nofun

theorem sub_ne_notANumber {s : Sign} {m : Nat} {e : Int} (hm : 0 < m) {b : UnpackedFloat}
    (hb : b ≠ .notANumber) : UnpackedFloat.sub .binary64 (.finite s m e hm) b ≠ .notANumber := by
  cases b with
  | notANumber => exact absurd rfl hb
  | infinity t => exact nofun
  | zero t => exact nofun
  | finite t m' e' hm' =>
      unfold UnpackedFloat.sub UnpackedFloat.normalize
      dsimp only
      split
      · exact round_ne_notANumber _ _ _
      · exact nofun
      · exact round_ne_notANumber _ _ _

end Subtraction

end Retrieval.Number
