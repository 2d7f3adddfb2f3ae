import Retrieval.Passage.Packing
import Retrieval.Proofs.Passage.Units

/-!
# Packed units

However small the budget and large the overlap, packing keeps units whole and loses none of them,
and every range begins and ends behind the one before it: what is handed on to a new group never
holds the first unit of the old one, and the new group ends with a unit the old one did not have.
-/

namespace Retrieval.Packing

/-- Ranges over spans: none is split or lost, and both ends of the ranges advance. -/
structure Packed (spans ranges : List Span) : Prop where
  ends : ∀ r ∈ ranges, ∃ a ∈ spans, ∃ b ∈ spans, r = ⟨a.start, b.stop⟩ ∧ a.stop ≤ b.stop
  whole : ∀ s ∈ spans, ∃ r ∈ ranges, r.start ≤ s.start ∧ s.stop ≤ r.stop
  starts : ranges.Pairwise fun a b => a.start < b.start
  stops : ranges.Pairwise fun a b => a.stop < b.stop

theorem cover?_eq {first last : Span} {rest : List Span}
    (h : (first :: rest).getLast? = some last) :
    Span.cover? (first :: rest) = some ⟨first.start, last.stop⟩ := by
  rw [List.getLast?_eq_some_getLast (List.cons_ne_nil _ _)] at h
  rw [Span.cover?, Option.some.inj h]

theorem stop_le_of_getLast? {spans : List Span} {last s : Span}
    (ho : spans.Pairwise fun a b => a.stop ≤ b.start) (hb : ∀ s ∈ spans, s.start < s.stop)
    (hlast : spans.getLast? = some last) (hs : s ∈ spans) : s.stop ≤ last.stop := by
  obtain ⟨init, rfl⟩ := List.getLast?_eq_some_iff.1 hlast
  rcases List.mem_append.1 hs with h | h
  · have hle := (List.pairwise_append.1 ho).2.2 s h last (List.mem_singleton_self last)
    have := hb last (List.mem_append_right _ (List.mem_singleton_self last))
    omega
  · rw [List.mem_singleton.1 h]

theorem packed_single {first last : Span} {rest : List Span}
    (hlast : (first :: rest).getLast? = some last)
    (hb : ∀ s ∈ first :: rest, s.start < s.stop)
    (ho : (first :: rest).Pairwise fun a b => a.stop ≤ b.start) :
    Packed (first :: rest) [⟨first.start, last.stop⟩] where
  ends r hr := ⟨first, List.mem_cons_self, last, List.mem_of_getLast? hlast,
    List.mem_singleton.1 hr, stop_le_of_getLast? ho hb hlast List.mem_cons_self⟩
  whole s hs := by
    have hstop := stop_le_of_getLast? ho hb hlast hs
    refine ⟨_, List.mem_singleton_self _, ?_, hstop⟩
    rcases List.mem_cons.1 hs with rfl | hs
    · exact le_rfl
    · have := (List.pairwise_cons.1 ho).1 s hs
      have := hb first List.mem_cons_self
      dsimp only
      omega
  starts := List.pairwise_singleton _ _
  stops := List.pairwise_singleton _ _

theorem Packed.cons {first last next : Span} {rest kept later ranges : List Span}
    (hlast : (first :: rest).getLast? = some last) (hk : kept.Sublist rest)
    (hb : ∀ s ∈ first :: rest ++ next :: later, s.start < s.stop)
    (ho : (first :: rest ++ next :: later).Pairwise fun a b => a.stop ≤ b.start)
    (hp : Packed (kept ++ next :: later) ranges) (hs : ∀ r ∈ ranges, next.stop ≤ r.stop) :
    Packed (first :: rest ++ next :: later) (⟨first.start, last.stop⟩ :: ranges) := by
  obtain ⟨hog, _, hgl⟩ := List.pairwise_append.1 ho
  have hbg : ∀ s ∈ first :: rest, s.start < s.stop := fun s h => hb s (List.mem_append_left _ h)
  have hsingle := packed_single hlast hbg hog
  have hkept : kept ++ next :: later ⊆ rest ++ next :: later :=
    (hk.append_right _).subset
  have hsub : kept ++ next :: later ⊆ first :: rest ++ next :: later :=
    fun s h => List.mem_cons_of_mem first (hkept h)
  refine ⟨?_, ?_, ?_, ?_⟩
  · intro r hr
    rcases List.mem_cons.1 hr with rfl | hr
    · obtain ⟨a, ha, b, hb, he⟩ := hsingle.ends _ (List.mem_singleton_self _)
      exact ⟨a, List.mem_append_left _ ha, b, List.mem_append_left _ hb, he⟩
    · obtain ⟨a, ha, b, hb, he⟩ := hp.ends r hr
      exact ⟨a, hsub ha, b, hsub hb, he⟩
  · intro s h
    rcases List.mem_append.1 h with h | h
    · obtain ⟨r, hr, hrs⟩ := hsingle.whole s h
      rw [List.mem_singleton.1 hr] at hrs
      exact ⟨_, List.mem_cons_self, hrs⟩
    · obtain ⟨r, hr, hrs⟩ := hp.whole s (List.mem_append_right _ h)
      exact ⟨r, List.mem_cons_of_mem _ hr, hrs⟩
  · refine List.pairwise_cons.2 ⟨fun r hr => ?_, hp.starts⟩
    obtain ⟨a, ha, b, _, rfl, _⟩ := hp.ends r hr
    have := (List.pairwise_cons.1 ho).1 a (hkept ha)
    have := hb first List.mem_cons_self
    dsimp only
    omega
  · refine List.pairwise_cons.2 ⟨fun r hr => ?_, hp.stops⟩
    have := hgl last (List.mem_of_getLast? hlast) next List.mem_cons_self
    have := hb next (List.mem_append_right _ List.mem_cons_self)
    have := hs r hr
    dsimp only
    omega

/-- From an open group on, the ranges hold the group and all that is still to come, and none of them
ends before the group does. -/
theorem packed_groupsFrom (budget overlap : Nat) {group later : List Span} {last : Span}
    (hlast : group.getLast? = some last) (hb : ∀ s ∈ group ++ later, s.start < s.stop)
    (ho : (group ++ later).Pairwise fun a b => a.stop ≤ b.start) :
    Packed (group ++ later)
        ((groupsFrom budget overlap group later).filterMap Span.cover?) ∧
      ∀ r ∈ (groupsFrom budget overlap group later).filterMap Span.cover?, last.stop ≤ r.stop := by
  induction later generalizing group last with
  | nil =>
      obtain ⟨first, rest, rfl⟩ := List.exists_cons_of_ne_nil (l := group)
        (by rintro rfl; cases hlast)
      rw [List.append_nil] at hb ho ⊢
      have hg : (groupsFrom budget overlap (first :: rest) []).filterMap Span.cover? =
          [⟨first.start, last.stop⟩] := by
        rw [groupsFrom, List.isEmpty_cons, if_neg Bool.false_ne_true, List.filterMap_cons,
          cover?_eq hlast]
        rfl
      rw [hg]
      refine ⟨packed_single hlast hb ho, fun r hr => ?_⟩
      rw [List.mem_singleton.1 hr]
  | cons next later ih =>
      have hle : last.stop ≤ next.start := (List.pairwise_append.1 ho).2.2 last
        (List.mem_of_getLast? hlast) next List.mem_cons_self
      have hnext := hb next (List.mem_append_right _ List.mem_cons_self)
      have hconcat (kept : List Span) : (kept ++ [next]).getLast? = some next :=
        List.getLast?_concat
      have hassoc (kept : List Span) : kept ++ [next] ++ later = kept ++ next :: later := by simp
      cases hf : fits budget group next with
      | true =>
          rw [groupsFrom, if_pos hf, ← hassoc]
          rw [← hassoc] at hb ho
          obtain ⟨hp, hs⟩ := ih (hconcat group) hb ho
          exact ⟨hp, fun r hr => by have := hs r hr; omega⟩
      | false =>
          obtain ⟨first, rest, rfl⟩ := List.exists_cons_of_ne_nil (l := group)
            (by rintro rfl; cases hlast)
          have hk : (handOver budget overlap (first :: rest) next).Sublist rest :=
            handOver_sublist budget overlap (first :: rest) next
          have hsub := (hk.trans (List.sublist_cons_self first rest)).append_right (next :: later)
          rw [← hassoc (handOver budget overlap (first :: rest) next)] at hsub
          obtain ⟨hp, hs⟩ := ih (hconcat (handOver budget overlap (first :: rest) next))
            (fun s h => hb s (hsub.subset h)) (ho.sublist hsub)
          rw [hassoc] at hp
          rw [groupsFrom, if_neg (by simp [hf]), List.filterMap_cons, cover?_eq hlast]
          refine ⟨hp.cons hlast hk hb ho hs, fun r hr => ?_⟩
          rcases List.mem_cons.1 hr with rfl | hr
          · exact le_rfl
          · have := hs r hr
            omega

theorem packed_pack (budget overlap : Nat) {spans : List Span}
    (hb : ∀ s ∈ spans, s.start < s.stop)
    (ho : spans.Pairwise fun a b => a.stop ≤ b.start) :
    Packed spans (pack budget overlap spans) := by
  cases spans with
  | nil => exact ⟨by simp [pack, groups, groupsFrom], by simp, by simp [pack, groups, groupsFrom],
      by simp [pack, groups, groupsFrom]⟩
  | cons s later =>
      have hlast : [s].getLast? = some s := rfl
      exact (packed_groupsFrom budget overlap hlast hb ho).1

end Retrieval.Packing
