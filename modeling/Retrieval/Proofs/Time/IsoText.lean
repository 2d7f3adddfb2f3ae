import Mathlib.Algebra.Order.Ring.Int
import Retrieval.Proofs.Text.Trim
import Retrieval.Proofs.Time.Calendar
import Retrieval.Value.Timestamp

/-!
# Reading back what was written

The text under which an instant is stored names that instant. The text is taken apart in the order
in which it is read: digits of a fixed number, the date, the time of day, the offset.
-/

namespace Retrieval.Time

open Number Text

def fixedDigits : (count : Nat) → (n : Nat) → List Char
  | 0, _ => []
  | count + 1, n => fixedDigits count (n / 10) ++ [Nat.digitChar (n % 10)]

theorem fixedDigits_zero (count : Nat) : fixedDigits count 0 = List.replicate count '0' := by
  induction count with
  | zero => rfl
  | succ count ih => rw [fixedDigits, Nat.zero_div, ih, List.replicate_succ']; rfl

@[simp] theorem length_fixedDigits (count n : Nat) : (fixedDigits count n).length = count := by
  induction count generalizing n with
  | zero => rfl
  | succ count ih => rw [fixedDigits, List.length_append, ih]; rfl

theorem isDigit_of_mem_fixedDigits {count n : Nat} {c : Char} (h : c ∈ fixedDigits count n) :
    c.isDigit = true := by
  induction count generalizing n with
  | zero => cases h
  | succ count ih =>
      rcases List.mem_append.1 h with h | h
      · exact ih h
      · rw [List.mem_singleton.1 h, Nat.isDigit_digitChar]
        exact decide_eq_true (Nat.mod_lt n (by decide))

theorem toList_padZeros {count n : Nat} (hcount : 1 ≤ count) (h : n < 10 ^ count) :
    (padZeros count n).toList = fixedDigits count n := by
  have htext : (toString n).toList = Nat.toDigits 10 n := by
    rw [Nat.toString_eq_repr, Nat.repr_eq_ofList_toDigits, String.toList_ofList]
  rw [padZeros, padLeft, String.toList_append, String.toList_ofList, ← String.length_toList, htext]
  clear htext
  induction count generalizing n with
  | zero => omega
  | succ count ih =>
      rw [fixedDigits]
      by_cases hn : n < 10
      · rw [Nat.toDigits_of_lt_base hn, Nat.div_eq_of_lt hn, Nat.mod_eq_of_lt hn, fixedDigits_zero]
        rfl
      · have hcount : 1 ≤ count := by
          cases count with
          | zero => omega
          | succ count => omega
        have hdiv : n / 10 < 10 ^ count := by
          rw [Nat.pow_succ] at h
          omega
        rw [Nat.toDigits_of_base_le (by decide) (by omega), List.length_append,
          List.length_singleton, Nat.add_sub_add_right, ← List.append_assoc]
        exact congrArg (· ++ [(n % 10).digitChar]) (ih hcount hdiv)

theorem toList_padTwo {n : Nat} (h : n < 10 ^ 2) : (padZeros 2 n).toList = fixedDigits 2 n :=
  toList_padZeros (by omega) h

theorem digits?_succ (count value : Nat) (text : List Char) :
    digits? (count + 1) value text = (digits? count value text).bind fun r => digits? 1 r.1 r.2 := by
  induction count generalizing value text with
  | zero => rfl
  | succ count ih =>
      cases text with
      | nil => rfl
      | cons c text =>
          rw [digits?, digits?]
          split
          · exact ih _ _
          · rfl

theorem digits?_fixedDigits {count n : Nat} (h : n < 10 ^ count) (value : Nat) (rest : List Char) :
    digits? count value (fixedDigits count n ++ rest) = some (value * 10 ^ count + n, rest) := by
  induction count generalizing n rest with
  | zero =>
      have : n = 0 := by omega
      simp [digits?, fixedDigits, this]
  | succ count ih =>
      have hdiv : n / 10 < 10 ^ count := by
        rw [Nat.pow_succ] at h
        omega
      have hlast : n % 10 < 10 := Nat.mod_lt n (by decide)
      rw [digits?_succ, fixedDigits, List.append_assoc, ih hdiv]
      simp only [Option.bind_some, List.singleton_append, digits?, Nat.isDigit_digitChar, hlast,
        decide_true, if_true, Nat.toNat_digitChar_of_lt_ten hlast, Option.some.injEq, Prod.mk.injEq,
        and_true]
      rw [Nat.pow_succ, ← Nat.mul_assoc]
      omega

namespace Date

def text (d : Date) : List Char :=
  fixedDigits 4 d.year ++ '-' :: (fixedDigits 2 d.month ++ '-' :: fixedDigits 2 d.day)

theorem monthLength_le (year month : Nat) : monthLength year month ≤ 31 := by
  have hall : ∀ length ∈ monthLengths year, length ≤ 31 := by
    unfold monthLengths
    split <;> decide
  unfold monthLength
  rw [List.getD_eq_getElem?_getD]
  cases h : (monthLengths year)[month - 1]? with
  | none => exact Nat.zero_le _
  | some length => exact hall length (List.mem_of_getElem? h)

theorem isValid_iff {d : Date} : d.isValid = true ↔ (1 ≤ d.year ∧ d.year ≤ lastYear) ∧
    (1 ≤ d.month ∧ d.month ≤ 12) ∧ 1 ≤ d.day ∧ d.day ≤ monthLength d.year d.month := by
  simp [isValid, and_assoc]

theorem toList_render {d : Date} (h : d.isValid = true) : d.render.toList = d.text := by
  obtain ⟨⟨-, hyear⟩, ⟨-, hmonth⟩, -, hday⟩ := isValid_iff.1 h
  have hlength := monthLength_le d.year d.month
  have hlast : lastYear < 10 ^ 4 := by decide
  have hfour : (padZeros 4 d.year).toList = fixedDigits 4 d.year :=
    toList_padZeros (by omega) (by omega)
  simp only [render, String.toList_append, text, hfour, toList_padTwo (by omega : d.month < 10 ^ 2),
    toList_padTwo (by omega : d.day < 10 ^ 2)]
  simp

end Date

namespace Clock

def text (c : Clock) : List Char :=
  fixedDigits 2 c.hour ++ ':' :: (fixedDigits 2 c.minute ++ ':' :: (fixedDigits 2 c.second ++
    if c.micro = 0 then [] else '.' :: fixedDigits 6 c.micro))

theorem isValid_iff {c : Clock} : c.isValid = true ↔
    c.hour < 24 ∧ c.minute < 60 ∧ c.second < 60 ∧ c.micro < 1000000 := by
  simp [isValid, and_assoc]

theorem toList_render {c : Clock} (h : c.isValid = true) : (c.render true).toList = c.text := by
  obtain ⟨hhour, hminute, hsecond, hmicro⟩ := isValid_iff.1 h
  have hfraction : (if c.micro ≠ 0 then "." ++ padZeros 6 c.micro else "").toList =
      if c.micro = 0 then [] else '.' :: fixedDigits 6 c.micro := by
    by_cases hzero : c.micro = 0
    · simp [hzero]
    · rw [if_pos hzero, if_neg hzero, String.toList_append,
        toList_padZeros (by omega) (by omega : c.micro < 10 ^ 6)]
      rfl
  simp only [render, Bool.true_or, if_true, String.toList_append, hfraction, text,
    toList_padTwo (by omega : c.hour < 10 ^ 2), toList_padTwo (by omega : c.minute < 10 ^ 2),
    toList_padTwo (by omega : c.second < 10 ^ 2)]
  simp

theorem fields?_colon {n room : Nat} (h : n < 10 ^ 2) (hroom : 3 < room) (left : Nat)
    {colons : Option Bool} (hcolons : colons.getD true = true) (rest : List Char) :
    fields? (left + 1) colons room (fixedDigits 2 n ++ ':' :: rest) =
      (fields? left (some true) (room - 3) rest).map fun r => (n :: r.1, r.2) := by
  have hmark : colons.getD (some ':' == some ':') = true := hcolons
  rw [fields?, digits?_fixedDigits h]
  simp only [Option.bind_eq_bind, Option.bind_some, Nat.zero_mul, Nat.zero_add, List.head?_cons,
    hmark]
  rw [if_neg (by omega), Option.map_eq_bind]
  simp

theorem fields?_seconds {n : Nat} (h : n < 10 ^ 2) (rest : List Char) :
    fields? 1 (some true) 2 (fixedDigits 2 n ++ '+' :: rest) = some ([n], 0, true) := by
  rw [fields?, digits?_fixedDigits h]
  simp [isAtEnd]

theorem fields?_fraction {n micro : Nat} (h : n < 10 ^ 2) (hmicro : micro < 10 ^ 6)
    (rest : List Char) :
    fields? 1 (some true) 9 (fixedDigits 2 n ++ '.' :: (fixedDigits 6 micro ++ '+' :: rest)) =
      some ([n], micro, true) := by
  rw [fields?, digits?_fixedDigits h]
  simp [fields?.fraction?, digits?_fixedDigits hmicro, isAtEnd]

theorem clock?_text {c : Clock} (h : c.isValid = true) (rest : List Char) :
    clock? c.text.length (c.text ++ '+' :: rest) = some (c, true) := by
  obtain ⟨hhour, hminute, hsecond, hmicro⟩ := isValid_iff.1 h
  have hhour' : c.hour < 10 ^ 2 := by omega
  have hminute' : c.minute < 10 ^ 2 := by omega
  have hsecond' : c.second < 10 ^ 2 := by omega
  have hmicro' : c.micro < 10 ^ 6 := by omega
  unfold clock?
  by_cases hzero : c.micro = 0
  · have hlength : c.text.length = 8 := by simp [text, hzero]
    have hfields : fields? 3 none 8 (c.text ++ '+' :: rest) =
        some ([c.hour, c.minute, c.second], c.micro, true) := by
      simp only [text, if_pos hzero, List.append_nil, List.append_assoc, List.cons_append]
      rw [fields?_colon hhour' (by decide) 2 rfl, fields?_colon hminute' (by decide) 1 rfl,
        fields?_seconds hsecond', hzero]
      rfl
    rw [hlength, hfields]
    simp
  · have hlength : c.text.length = 15 := by simp [text, hzero]
    have hfields : fields? 3 none 15 (c.text ++ '+' :: rest) =
        some ([c.hour, c.minute, c.second], c.micro, true) := by
      simp only [text, if_neg hzero, List.append_assoc, List.cons_append]
      rw [fields?_colon hhour' (by decide) 2 rfl, fields?_colon hminute' (by decide) 1 rfl,
        fields?_fraction hsecond' hmicro']
      rfl
    rw [hlength, hfields]
    simp

theorem mem_text {c : Clock} {x : Char} (h : x ∈ c.text) :
    x.isDigit = true ∨ x = ':' ∨ x = '.' := by
  simp only [text, List.mem_append, List.mem_cons] at h
  rcases h with h | h | h | h | h | h
  · exact Or.inl (isDigit_of_mem_fixedDigits h)
  · exact Or.inr (Or.inl h)
  · exact Or.inl (isDigit_of_mem_fixedDigits h)
  · exact Or.inr (Or.inl h)
  · exact Or.inl (isDigit_of_mem_fixedDigits h)
  · split at h
    · cases h
    · rcases List.mem_cons.1 h with h | h
      · exact Or.inr (Or.inr h)
      · exact Or.inl (isDigit_of_mem_fixedDigits h)

theorem not_mark_of_mem_text {c : Clock} {x : Char} (h : x ∈ c.text) :
    (x == '+' || x == '-' || x == 'Z') = false := by
  have hne : x ≠ '+' ∧ x ≠ '-' ∧ x ≠ 'Z' := by
    refine ⟨?_, ?_, ?_⟩ <;> rintro rfl <;> rcases mem_text h with h | h | h <;> revert h <;> decide
  simp [hne]

theorem timeOfDay?_text {c : Clock} (h : c.isValid = true) :
    timeOfDay? (c.text ++ "+00:00".toList) = some (c, some 0) := by
  have hroom : ((c.text ++ "+00:00".toList).takeWhile
      fun x => !(x == '+' || x == '-' || x == 'Z')) = c.text := by
    rw [List.takeWhile_append_of_pos]
    · simp
    · intro x hx
      rw [not_mark_of_mem_text hx, Bool.not_false]
  unfold timeOfDay?
  dsimp only
  rw [hroom, List.drop_left]
  have hmark : "+00:00".toList = '+' :: "00:00".toList := rfl
  have hoffset : offset? false "00:00".toList = some 0 := by decide
  rw [hmark, clock?_text h]
  show (offset? false "00:00".toList).map (fun offset => (c, some offset)) = some (c, some 0)
  rw [hoffset]
  rfl

end Clock

theorem bounds_of_isDigit {c : Char} (h : c.isDigit = true) : 48 ≤ c.toNat ∧ c.toNat ≤ 57 := by
  simp only [Char.isDigit, Bool.and_eq_true, decide_eq_true_eq] at h
  exact h

theorem isBlank_of_isDigit {c : Char} (h : c.isDigit = true) : isBlank c = false := by
  obtain ⟨hlow, hhigh⟩ := bounds_of_isDigit h
  exact isBlank_of_sign (by omega) (by omega)

theorem bytesOf_eq_self {text : List Char} (h : ∀ c ∈ text, c.toNat < 128) :
    bytesOf text = text := by
  induction text with
  | nil => rfl
  | cons c rest ih =>
      have hc : c.toNat < 128 := h c List.mem_cons_self
      have hbytes : (String.utf8EncodeChar c).map (fun b => Char.ofNat b.toNat) = [c] := by
        have hone : String.utf8EncodeChar c = [UInt8.ofNat c.toNat] := by
          have hle : c.val.toNat ≤ 127 := Nat.le_of_lt_succ hc
          simp only [String.utf8EncodeChar, if_pos hle]
          rfl
        have hmod : c.toNat % 2 ^ 8 = c.toNat := Nat.mod_eq_of_lt (by omega)
        rw [hone, List.map_singleton, UInt8.toNat_ofNat', hmod, Char.ofNat_toNat]
      rw [bytesOf, List.flatMap_cons, hbytes, ← bytesOf,
        ih fun x hx => h x (List.mem_cons_of_mem _ hx)]
      rfl

namespace Date

theorem mem_text {d : Date} {c : Char} (h : c ∈ d.text) : c.isDigit = true ∨ c = '-' := by
  simp only [text, List.mem_append, List.mem_cons] at h
  rcases h with h | h | h | h | h
  · exact Or.inl (isDigit_of_mem_fixedDigits h)
  · exact Or.inr h
  · exact Or.inl (isDigit_of_mem_fixedDigits h)
  · exact Or.inr h
  · exact Or.inl (isDigit_of_mem_fixedDigits h)

/-- A month cannot be taken for a week. -/
theorem month_eq (d : Date) : ∃ a b, fixedDigits 2 d.month = [a, b] ∧ a ≠ 'W' := by
  refine ⟨_, _, rfl, ?_⟩
  intro heq
  have hdigit : (Nat.digitChar (d.month / 10 % 10)).isDigit = true :=
    isDigit_of_mem_fixedDigits (show _ ∈ fixedDigits 2 d.month from List.mem_cons_self)
  rw [heq] at hdigit
  cases hdigit

theorem dateLength_text {d : Date} {rest : List Char} (h : (d.text ++ rest).length ≠ 7) :
    dateLength (d.text ++ rest) = 10 := by
  obtain ⟨a, b, hmonth, ha⟩ := d.month_eq
  have hdrop : (d.text ++ rest).drop 4 = '-' :: a :: b :: ('-' :: fixedDigits 2 d.day ++ rest) := by
    rw [text, hmonth, List.append_assoc, List.drop_left' (length_fixedDigits 4 d.year)]
    rfl
  rw [dateLength, if_neg h, hdrop]
  split
  · rename_i heq
    cases heq
    exact absurd rfl ha
  · rfl
  · rename_i heq
    cases heq
  · rename_i hdash _
    exact absurd rfl (hdash _)

theorem date?_text {d : Date} (h : d.isValid = true) (rest : List Char) :
    date? 10 (d.text ++ rest) = some d := by
  obtain ⟨a, b, hmonth, ha⟩ := d.month_eq
  obtain ⟨⟨-, hyear⟩, ⟨-, hmonths⟩, -, hday⟩ := isValid_iff.1 h
  have hlength := monthLength_le d.year d.month
  have hlast : lastYear < 10 ^ 4 := by decide
  have hyear' : d.year < 10 ^ 4 := by omega
  have hmonth' : d.month < 10 ^ 2 := by omega
  have hday' : d.day < 10 ^ 2 := by omega
  have hreadMonth := digits?_fixedDigits hmonth' 0 ('-' :: (fixedDigits 2 d.day ++ rest))
  rw [hmonth] at hreadMonth
  rw [date?, text, List.append_assoc, digits?_fixedDigits hyear']
  simp only [Option.bind_eq_bind, Option.bind_some, hmonth, List.cons_append, List.nil_append,
    List.head?_cons, List.drop_succ_cons, List.drop_zero, beq_self_eq_true, if_true, Nat.zero_mul,
    Nat.zero_add]
  -- The form with a week would need a W where a month begins.
  split
  · rename_i heq
    cases heq
    exact absurd rfl ha
  · simp only [List.cons_append, List.nil_append] at hreadMonth
    rw [hreadMonth]
    have hreadDay := digits?_fixedDigits hday' 0 rest
    simp [hreadDay, h]

end Date

namespace Moment

def text (date : Date) (clock : Clock) : List Char :=
  date.text ++ 'T' :: (clock.text ++ "+00:00".toList)

theorem ofIso?_text {date : Date} {clock : Clock} (hdate : date.isValid = true)
    (hclock : clock.isValid = true) :
    ofIso? (text date clock) = some (.ofDateClock date clock (some 0)) := by
  have hlong : 25 ≤ (text date clock).length := by
    simp [text, Date.text, Clock.text]
    omega
  have hbytes : bytesOf (text date clock) = text date clock := by
    refine bytesOf_eq_self fun c hc => ?_
    simp only [text, List.mem_append, List.mem_cons] at hc
    rcases hc with hc | hc | hc | hc
    · rcases Date.mem_text hc with hc | rfl
      · have := bounds_of_isDigit hc
        omega
      · decide
    · rw [hc]
      decide
    · rcases Clock.mem_text hc with hc | rfl | rfl
      · have := bounds_of_isDigit hc
        omega
      · decide
      · decide
    · have hall : ("+00:00".toList.all fun c => decide (c.toNat < 128)) = true := by decide
      exact of_decide_eq_true (List.all_eq_true.1 hall c hc)
  have hread : date? 10 (text date clock) = some date := Date.date?_text hdate _
  have hdateLength : dateLength (text date clock) = 10 :=
    Date.dateLength_text (by rw [text] at hlong; omega)
  have hdrop : (text date clock).drop 10 = 'T' :: (clock.text ++ "+00:00".toList) :=
    List.drop_left' (by simp [Date.text])
  rw [ofIso?, hbytes]
  dsimp only
  rw [if_neg (by omega), hdateLength, hread, hdrop]
  have hskip : ('T' :: (clock.text ++ "+00:00".toList)).drop (separatorLength 'T') =
      clock.text ++ "+00:00".toList := rfl
  simp only [Option.bind_eq_bind, Option.bind_some, hskip, Clock.timeOfDay?_text hclock, hclock,
    if_true]

theorem ofText?_text {date : Date} {clock : Clock} (hdate : date.isValid = true)
    (hclock : clock.isValid = true) :
    ofText? (text date clock) = some (.ofDateClock date clock (some 0)) := by
  have hlast : (text date clock).getLast? = some '0' := by
    rw [text, List.getLast?_append, List.getLast?_cons, List.getLast?_append]
    rfl
  have hfirst : ∃ c, (text date clock).head? = some c ∧ c.isDigit = true :=
    ⟨Nat.digitChar (date.year / 10 / 10 / 10 % 10), rfl,
      isDigit_of_mem_fixedDigits (show _ ∈ fixedDigits 4 date.year from List.mem_cons_self)⟩
  obtain ⟨c, hc, hdigit⟩ := hfirst
  have htrim : trim (text date clock) = text date clock :=
    trim_eq_self hc (isBlank_of_isDigit hdigit) hlast (by decide)
  rw [ofText?, htrim]
  simp only [hlast]
  exact ofIso?_text hdate hclock

end Moment

namespace Clock

theorem isValid_ofMicros {n : Nat} (h : n < 86400000000) : (ofMicros n).isValid = true := by
  rw [isValid_iff, ofMicros]
  dsimp only
  omega

theorem micros_ofMicros (n : Nat) : (ofMicros n).micros = n := by
  simp only [micros, ofMicros, microsPerSecond]
  omega

end Clock

namespace Moment

variable {m : Moment}

theorem day_bounds (h : inCalendar m.micros = true) : 1 ≤ m.day ∧ m.day ≤ lastDay := by
  simp only [inCalendar, Bool.and_eq_true, decide_eq_true_eq] at h
  obtain ⟨hlow, hhigh⟩ := h
  have hnonneg : 0 ≤ m.micros / microsPerDay := Int.ediv_nonneg hlow (by decide)
  have hless : m.micros / microsPerDay < lastDay := Int.ediv_lt_of_lt_mul (by decide) hhigh
  rw [day]
  omega

theorem isValid_clock (m : Moment) : m.clock.isValid = true := by
  refine Clock.isValid_ofMicros ?_
  simp only [microsPerDay, microsPerSecond]
  omega

theorem ofDateClock_date_clock (h : inCalendar m.micros = true) :
    ofDateClock m.date m.clock m.offset = .fixed m.micros m.offset := by
  have hday : ((m.date.toDay : Int) - 1) = m.micros / microsPerDay := by
    rw [date, Date.toDay_ofDay (day_bounds h).1]
    have := day_bounds h
    simp only [day] at this ⊢
    omega
  have hclock : m.clock.micros = m.micros % microsPerDay := by
    rw [clock, Clock.micros_ofMicros]
    have : 0 ≤ m.micros % microsPerDay := Int.emod_nonneg _ (by decide)
    omega
  rw [ofDateClock, hday, hclock, Int.mul_comm, Int.mul_ediv_add_emod]

theorem toList_offsetText_zero : (offsetText (some 0)).toList = "+00:00".toList := by
  have hzeros : (padZeros 2 0).toList = ['0', '0'] := toList_padTwo (by omega)
  simp only [offsetText, Clock.render, Clock.ofMicros, String.toList_append]
  simp [hzeros]

theorem toList_render (h : inCalendar m.micros = true) (hoffset : m.offset = some 0) :
    m.render.toList = text m.date m.clock := by
  obtain ⟨hlow, hhigh⟩ := day_bounds h
  have hdate : m.date.isValid = true := Date.isValid_ofDay hlow hhigh
  rw [render, renderWith, hoffset]
  simp only [String.toList_append, Date.toList_render hdate, Clock.toList_render m.isValid_clock,
    toList_offsetText_zero, text, List.append_assoc]
  rfl

/-- The stored text of an instant names it, in universal time. -/
theorem ofText?_stored {s : String} (h : m.stored = .ok s) :
    ofText? s.toList = some (.fixed m.instant (some 0)) := by
  by_cases hin : inCalendar m.instant = true
  · have hdate : (fixed m.instant (some 0)).date.isValid = true :=
      Date.isValid_ofDay (day_bounds hin).1 (day_bounds hin).2
    have hs : (fixed m.instant (some 0)).render = s := by
      simpa only [stored, toUniversal?, if_pos hin, Except.ok.injEq] using h
    rw [← hs, toList_render hin rfl, ofText?_text hdate (isValid_clock _)]
    exact congrArg some (ofDateClock_date_clock hin)
  · simp [stored, toUniversal?, hin] at h

end Moment

end Retrieval.Time
