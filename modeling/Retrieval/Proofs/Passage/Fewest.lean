import Mathlib.Order.Bounds.Defs
import Retrieval.Proofs.Passage.Lending

/-!
# Packing makes as few ranges as possible

Without overlap the ranges are those of a cut of the spans into consecutive groups. No cut has fewer
groups: a group that is closed has taken up every span that any group with the same beginning could
hold, and cutting off spans at the front of a list never costs a group.
-/

namespace Retrieval.Packing

variable {budget : Nat} {spans group later : List Span} {next : Span}

/-- A way to cut spans into consecutive groups, each within the budget or a single span. -/
structure Cuts (budget : Nat) (spans : List Span) (cut : List (List Span)) : Prop where
  flatten : cut.flatten = spans
  within : ∀ group ∈ cut, Within budget group

theorem Within.ne_nil (h : Within budget group) : group ≠ [] := by
  rintro rfl
  obtain ⟨_, hcover, _⟩ := h
  cases hcover

theorem exists_getLast? (first : Span) (rest : List Span) :
    ∃ last, (first :: rest).getLast? = some last :=
  ⟨_, List.getLast?_eq_some_getLast (List.cons_ne_nil first rest)⟩

theorem Within.length_le {first last : Span} {rest : List Span} (h : Within budget (first :: rest))
    (hne : rest ≠ []) (hlast : (first :: rest).getLast? = some last) :
    last.stop - first.start ≤ budget := by
  obtain ⟨r, hr, hle | hsingle⟩ := h
  · rw [cover?_eq hlast] at hr
    obtain rfl := Option.some.inj hr
    exact hle
  · exact absurd (List.cons.inj hsingle).2 hne

theorem Within.suffix {kept : List Span} (h : Within budget group) (ho : Ordered group)
    (hk : kept <:+ group) (hne : kept ≠ []) : Within budget kept := by
  obtain ⟨dropped, rfl⟩ := hk
  obtain ⟨first, rest, rfl⟩ := List.exists_cons_of_ne_nil hne
  obtain ⟨last, hlast⟩ := exists_getLast? first rest
  cases dropped with
  | nil => exact h
  | cons s dropped =>
      have hall : (s :: (dropped ++ first :: rest)).getLast? = some last := by
        rw [← List.cons_append, List.getLast?_append, hlast, Option.some_or]
      have hstart := (List.pairwise_cons.1 ho.starts).1 first
        (List.mem_append_right _ List.mem_cons_self)
      have hle := h.length_le (by simp) hall
      exact ⟨_, cover?_eq hlast, Or.inl ((Nat.sub_le_sub_left hstart.le _).trans hle)⟩

theorem Within.fits (h : Within budget (group ++ next :: later))
    (ho : Ordered (group ++ next :: later)) : fits budget group next = true := by
  cases group with
  | nil => rfl
  | cons first rest =>
      obtain ⟨last, hlast⟩ := exists_getLast? first (rest ++ next :: later)
      have hle := h.length_le (by simp) hlast
      have hnext := ho.stop_le hlast next (List.mem_append_right _ List.mem_cons_self)
      exact decide_eq_true ((Nat.sub_le_sub_right hnext _).trans hle)

namespace Cuts

variable {cut : List (List Span)}

theorem suffix (h : Cuts budget spans cut) (ho : Ordered spans) {kept : List Span}
    (hk : kept <:+ spans) : ∃ cut', Cuts budget kept cut' ∧ cut'.length ≤ cut.length := by
  induction cut generalizing spans with
  | nil =>
      obtain rfl : spans = [] := h.flatten.symm
      exact ⟨[], ⟨(List.suffix_nil.1 hk).symm, h.within⟩, le_rfl⟩
  | cons group cut ih =>
      obtain ⟨hgroup, hcut⟩ := List.forall_mem_cons.1 h.within
      have hspans : group ++ cut.flatten = spans := h.flatten
      subst hspans
      obtain ⟨dropped, hdropped⟩ := hk
      rcases List.append_eq_append_iff.1 hdropped with ⟨front, hfront, hkept⟩ | ⟨more, hmore, hrest⟩
      · -- the cut falls into the first group
        by_cases hnil : front = []
        · refine ⟨cut, ⟨?_, hcut⟩, Nat.le_succ _⟩
          rw [hkept, hnil, List.nil_append]
        · have hwithin := hgroup.suffix (ho.sublist (List.sublist_append_left _ _))
            ⟨dropped, hfront.symm⟩ hnil
          exact ⟨front :: cut, ⟨hkept.symm, List.forall_mem_cons.2 ⟨hwithin, hcut⟩⟩, le_rfl⟩
      · -- the first group is left away
        obtain ⟨cut', hcuts, hle⟩ :=
          ih ⟨rfl, hcut⟩ (ho.sublist (List.sublist_append_right _ _)) ⟨more, hrest.symm⟩
        exact ⟨cut', hcuts, hle.trans (Nat.le_succ _)⟩

/-- Where the next span finds no room, a cut opens a group there or earlier, so it goes on with one
group less. -/
theorem behind (h : Cuts budget (group ++ next :: later) cut)
    (ho : Ordered (group ++ next :: later)) (hfits : Packing.fits budget group next = false) :
    ∃ cut', Cuts budget (next :: later) cut' ∧ cut'.length < cut.length := by
  cases cut with
  | nil => simpa using h.flatten
  | cons opening cut =>
      obtain ⟨hopening, hcut⟩ := List.forall_mem_cons.1 h.within
      have hflat : opening ++ cut.flatten = group ++ next :: later := h.flatten
      have hrest : next :: later <:+ cut.flatten := by
        -- the opening group ends inside `group`, or it would hold `next` with no room for it
        rcases List.append_eq_append_iff.1 hflat with ⟨more, _, hmore⟩ | ⟨front, hfront, hback⟩
        · exact ⟨more, hmore.symm⟩
        · cases front with
          | nil => exact ⟨[], hback⟩
          | cons s front =>
              obtain ⟨rfl, hlater⟩ := List.cons.inj hback
              rw [hfront] at hopening
              have hroom := hopening.fits (ho.sublist (by rw [← hflat, hfront]; simp))
              rw [hfits] at hroom
              cases hroom
      have hord := ho.sublist (hflat ▸ List.sublist_append_right opening cut.flatten)
      obtain ⟨cut', hcuts, hle⟩ := suffix ⟨rfl, hcut⟩ hord hrest
      exact ⟨cut', hcuts, Nat.lt_succ_of_le hle⟩

end Cuts

theorem handOver_zero (budget : Nat) (group : List Span) (next : Span) :
    handOver budget 0 group next = [] := rfl

/-- Without overlap an open group and the spans behind it are cut into the fewest groups. -/
theorem cuts_groupsFrom (hw : Within budget group) (ho : Ordered (group ++ later)) :
    Cuts budget (group ++ later) (groupsFrom budget 0 group later) ∧
      ∀ cut, Cuts budget (group ++ later) cut →
        (groupsFrom budget 0 group later).length ≤ cut.length := by
  induction later generalizing group with
  | nil =>
      rw [groupsFrom, List.isEmpty_eq_false_iff.2 hw.ne_nil, if_neg Bool.false_ne_true]
      refine ⟨⟨by simp, List.forall_mem_singleton.2 hw⟩, fun cut hcut => ?_⟩
      have hne : cut ≠ [] := by
        rintro rfl
        exact hw.ne_nil (by simpa using hcut.flatten.symm)
      exact List.length_pos_of_ne_nil hne
  | cons next later ih =>
      cases hfits : fits budget group next with
      | true =>
          have hassoc : group ++ next :: later = group ++ [next] ++ later := by simp
          rw [groupsFrom, if_pos hfits, hassoc]
          exact ih (within_concat hfits) (hassoc ▸ ho)
      | false =>
          have hrest : Ordered ([next] ++ later) := ho.sublist (List.sublist_append_right _ _)
          obtain ⟨hcuts, hleast⟩ := ih (within_singleton budget next) hrest
          rw [groupsFrom, if_neg (by simp [hfits]), handOver_zero]
          refine ⟨⟨?_, List.forall_mem_cons.2 ⟨hw, hcuts.within⟩⟩, fun cut hcut => ?_⟩
          · rw [List.flatten_cons, List.nil_append, hcuts.flatten]
            rfl
          · obtain ⟨cut', hcuts', hlt⟩ := hcut.behind ho hfits
            exact (Nat.succ_le_succ (hleast cut' hcuts')).trans hlt

theorem cuts_groups (budget : Nat) (ho : Ordered spans) :
    Cuts budget spans (groups budget 0 spans) ∧
      ∀ cut, Cuts budget spans cut → (groups budget 0 spans).length ≤ cut.length := by
  cases spans with
  | nil => exact ⟨⟨rfl, fun _ h => nomatch h⟩, fun _ _ => Nat.zero_le _⟩
  | cons s later => exact cuts_groupsFrom (within_singleton budget s) ho

theorem Cuts.length_ranges {cut : List (List Span)} (h : Cuts budget spans cut) :
    (cut.filterMap Span.cover?).length = cut.length := by
  induction cut generalizing spans with
  | nil => rfl
  | cons group cut ih =>
      obtain ⟨⟨r, hr, _⟩, hcut⟩ := List.forall_mem_cons.1 h.within
      rw [List.filterMap_cons_some hr, List.length_cons, List.length_cons, ih ⟨rfl, hcut⟩]

/-- Without overlap packing gives the ranges of a cut into groups within the budget, and there is no
cut with fewer groups. -/
theorem isLeast_length_pack (budget : Nat) {spans : List Span} (ho : Ordered spans) :
    (∃ cut, Cuts budget spans cut ∧ cut.filterMap Span.cover? = pack budget 0 spans) ∧
      IsLeast {n | ∃ cut, Cuts budget spans cut ∧ cut.length = n} (pack budget 0 spans).length := by
  obtain ⟨hcuts, hleast⟩ := cuts_groups budget ho
  have hlength : (pack budget 0 spans).length = (groups budget 0 spans).length :=
    hcuts.length_ranges
  refine ⟨⟨_, hcuts, rfl⟩, ⟨_, hcuts, hlength.symm⟩, ?_⟩
  rintro n ⟨cut, hcut, rfl⟩
  exact hlength.le.trans (hleast cut hcut)

theorem isLeast_length_pack_long_span :
    Ordered [⟨0, 4⟩, ⟨5, 9⟩, ⟨10, 30⟩, ⟨30, 34⟩, ⟨36, 40⟩] ∧
      IsLeast {n | ∃ cut, Cuts 10 [⟨0, 4⟩, ⟨5, 9⟩, ⟨10, 30⟩, ⟨30, 34⟩, ⟨36, 40⟩] cut ∧
        cut.length = n} 3 :=
  ⟨⟨by decide, by decide⟩, (isLeast_length_pack 10 ⟨by decide, by decide⟩).2⟩

end Retrieval.Packing
