import Mathlib.Data.List.Induction
import Retrieval.Proofs.Passage.Packing

/-!
# What groups lend to each other

The spans of a closed group that are handed on can be read off its range: they are the spans inside
it, its first excepted, that extend over at most the overlap and leave room for the span that closed
the group. So the whole packing can be checked on its ranges: none is longer than the budget unless
it is a single span, none is closed early, and each begins with the earliest span it may borrow.
-/

namespace Retrieval

namespace Packing

variable {budget overlap : Nat} {spans before group rest later : List Span}
  {first last next : Span}

/-- A property that holds of every span behind one it holds of selects the end of a list. -/
theorem takeWhile_reverse_eq_filter {p : Span → Bool}
    (h : spans.Pairwise fun a b => p a = true → p b = true) :
    (spans.reverse.takeWhile p).reverse = spans.filter p := by
  induction spans using List.reverseRecOn with
  | nil => rfl
  | append_singleton spans s ih =>
      obtain ⟨hinit, _, hlast⟩ := List.pairwise_append.1 h
      rw [List.reverse_concat, List.filter_append]
      cases hs : p s with
      | true =>
          rw [List.takeWhile_cons_of_pos hs, List.reverse_cons, ih hinit,
            List.filter_cons_of_pos hs, List.filter_nil]
      | false =>
          have hnone : spans.filter p = [] := List.filter_eq_nil_iff.2 fun t ht hp => by
            rw [hlast t ht s (List.mem_singleton_self s) hp] at hs
            cases hs
          rw [List.takeWhile_cons_of_neg (by simp [hs]), hnone,
            List.filter_cons_of_neg (by simp [hs])]
          rfl

theorem dropWhile_eq_filter {p : Span → Bool}
    (h : spans.Pairwise fun a b => p a = true → p b = true) :
    spans.dropWhile (fun s => !p s) = spans.filter p := by
  induction spans with
  | nil => rfl
  | cons s spans ih =>
      obtain ⟨hfirst, hlater⟩ := List.pairwise_cons.1 h
      cases hs : p s with
      | true =>
          have hall : (s :: spans).filter p = s :: spans :=
            List.filter_eq_self.2 (List.forall_mem_cons.2 ⟨hs, fun t ht => hfirst t ht hs⟩)
          rw [List.dropWhile_cons_of_neg (by simp [hs]), hall]
      | false =>
          rw [List.dropWhile_cons_of_pos (by simp [hs]), ih hlater,
            List.filter_cons_of_neg (by simp [hs])]

structure Ordered (spans : List Span) : Prop where
  bounds : ∀ s ∈ spans, s.start < s.stop
  meets : spans.Pairwise fun a b => a.stop ≤ b.start

namespace Ordered

theorem sublist {others : List Span} (h : Ordered spans) (hs : others.Sublist spans) :
    Ordered others :=
  ⟨fun s hm => h.bounds s (hs.subset hm), h.meets.sublist hs⟩

theorem starts (h : Ordered spans) : spans.Pairwise fun a b => a.start < b.start :=
  h.meets.imp_of_mem fun {a _} ha _ hab => (h.bounds a ha).trans_le hab

theorem stop_le (h : Ordered spans) (hlast : spans.getLast? = some last) :
    ∀ s ∈ spans, s.stop ≤ last.stop :=
  fun _ hs => stop_le_of_getLast? h.meets h.bounds hlast hs

/-- Reaching back to a span from behind takes less the later the span begins. -/
theorem reaches (h : Ordered spans) (stop room : Nat) :
    spans.Pairwise fun a b =>
      decide (stop - a.start ≤ room) = true → decide (stop - b.start ≤ room) = true :=
  h.starts.imp fun hab ha => by
    simp only [decide_eq_true_eq] at ha ⊢
    omega

end Ordered

theorem carry_eq_filter (hlast : (first :: rest).getLast? = some last)
    (h : Ordered (first :: rest)) :
    carry overlap (first :: rest) = rest.filter fun s => last.stop - s.start ≤ overlap := by
  have hrest := h.sublist (List.sublist_cons_self first rest)
  rw [carry]
  split
  · next hzero =>
    refine (List.filter_eq_nil_iff.2 fun s hs hp => ?_).symm
    have := hrest.bounds s hs
    have := h.stop_le hlast s (List.mem_cons_of_mem first hs)
    simp only [decide_eq_true_eq] at hp
    omega
  · rw [hlast]
    exact takeWhile_reverse_eq_filter (hrest.reaches last.stop overlap)

theorem handOver_eq_filter (hlast : (first :: rest).getLast? = some last)
    (h : Ordered (first :: rest)) :
    handOver budget overlap (first :: rest) next =
      rest.filter fun s => last.stop - s.start ≤ overlap && next.stop - s.start ≤ budget := by
  have hnot : (fun s : Span => decide (budget < next.stop - s.start)) =
      fun s : Span => !decide (next.stop - s.start ≤ budget) := by
    funext s
    rw [← decide_not, decide_eq_decide, not_le]
  have hkept := (h.sublist (List.sublist_cons_self first rest)).reaches next.stop budget
  rw [handOver, carry_eq_filter hlast h, hnot,
    dropWhile_eq_filter (hkept.sublist List.filter_sublist), List.filter_filter]
  exact List.filter_congr fun s _ => Bool.and_comm _ _

theorem handOver_suffix (budget overlap : Nat) (hlast : (first :: rest).getLast? = some last)
    (h : Ordered (first :: rest)) (next : Span) :
    handOver budget overlap (first :: rest) next <:+ rest := by
  have hrest := h.sublist (List.sublist_cons_self first rest)
  have hcarry : carry overlap (first :: rest) <:+ rest := by
    rw [carry_eq_filter hlast h, ← dropWhile_eq_filter (hrest.reaches last.stop overlap)]
    exact List.dropWhile_suffix _
  exact (List.dropWhile_suffix _).trans hcarry

/-- There is room for the new span behind what is handed on. -/
theorem fits_handOver (budget overlap : Nat) (group : List Span) (next : Span) :
    fits budget (handOver budget overlap group next) next = true := by
  have hhead := List.head?_dropWhile_not (fun s : Span => decide (budget < next.stop - s.start))
    (carry overlap group)
  rw [← handOver] at hhead
  cases hkept : handOver budget overlap group next with
  | nil => rfl
  | cons first rest =>
      rw [hkept] at hhead
      simpa only [fits, List.head?_cons, decide_eq_false_iff_not, decide_eq_true_eq, not_lt]
        using hhead

/-- A group within the budget, or a single span of whatever length. -/
def Within (budget : Nat) (group : List Span) : Prop :=
  ∃ r, Span.cover? group = some r ∧ (r.length ≤ budget ∨ group = [r])

theorem within_singleton (budget : Nat) (s : Span) : Within budget [s] := ⟨s, rfl, Or.inr rfl⟩

theorem cover?_concat (first next : Span) (rest : List Span) :
    Span.cover? (first :: rest ++ [next]) = some ⟨first.start, next.stop⟩ :=
  cover?_eq (List.getLast?_concat (l := first :: rest))

theorem within_concat (h : fits budget group next = true) : Within budget (group ++ [next]) := by
  cases group with
  | nil => exact within_singleton budget next
  | cons first rest => exact ⟨_, cover?_concat first next rest, Or.inl (of_decide_eq_true h)⟩

/-- A span of the range `closed`, other than its first, that a new range up to `next` may take over:
it shares at most the overlap and leaves the new range within the budget. -/
def isLent (budget overlap : Nat) (closed next s : Span) : Bool :=
  closed.start < s.start && s.stop ≤ closed.stop && closed.stop - s.start ≤ overlap &&
    next.stop - s.start ≤ budget

/-- How a range follows another: the first span behind `closed` found no room in it, and `opened`
reaches back from that span to the earliest one that it may take over, if there is one. -/
def Follows (budget overlap : Nat) (spans : List Span) (closed opened : Span) : Prop :=
  ∃ next, spans.find? (fun s => closed.stop ≤ s.start) = some next ∧
    budget < next.stop - closed.start ∧ next.stop ≤ opened.stop ∧
    opened.start = ((spans.find? (isLent budget overlap closed next)).getD next).start

theorem Follows.shares {closed opened : Span} (h : Follows budget overlap spans closed opened) :
    closed.stop - opened.start ≤ overlap := by
  obtain ⟨next, hnext, _, _, hstart⟩ := h
  have hbehind := List.find?_some hnext
  rw [decide_eq_true_eq] at hbehind
  rw [hstart]
  cases hlent : spans.find? (isLent budget overlap closed next) with
  | none => exact (Nat.sub_eq_zero_of_le hbehind).trans_le (Nat.zero_le overlap)
  | some s =>
      have hs := List.find?_some hlent
      simp only [isLent, Bool.and_eq_true, decide_eq_true_eq] at hs
      exact hs.1.2

section Closing

variable (h : Ordered (before ++ (first :: rest ++ next :: later)))
  (hlast : (first :: rest).getLast? = some last)

include h

theorem ordered_closed : Ordered (first :: rest) :=
  h.sublist ((List.sublist_append_left _ _).trans (List.sublist_append_right before _))

theorem stop_le_of_mem_before {s : Span} (hs : s ∈ before) : s.stop ≤ first.start :=
  (List.pairwise_append.1 h.meets).2.2 s hs first (List.mem_append_left _ List.mem_cons_self)

include hlast

theorem le_start_of_mem_behind {s : Span} (hs : s ∈ next :: later) : last.stop ≤ s.start :=
  (List.pairwise_append.1 (List.pairwise_append.1 h.meets).2.1).2.2 last
    (List.mem_of_getLast? hlast) s hs

theorem find?_behind : (before ++ (first :: rest ++ next :: later)).find?
    (fun s => last.stop ≤ s.start) = some next := by
  refine List.find?_eq_some_iff_append.2 ⟨decide_eq_true ?_, before ++ (first :: rest), later, ?_,
    fun s hs => ?_⟩
  · exact le_start_of_mem_behind h hlast List.mem_cons_self
  · rw [List.append_assoc]
  · have hgroup := (ordered_closed h).stop_le hlast
    have hfirst := (ordered_closed h).bounds first List.mem_cons_self
    have hlt : s.start < last.stop := by
      rcases List.mem_append.1 hs with hs | hs
      · have := stop_le_of_mem_before h hs
        have := h.bounds s (List.mem_append_left _ hs)
        have := hgroup first List.mem_cons_self
        omega
      · exact ((ordered_closed h).bounds s hs).trans_le (hgroup s hs)
    simpa using hlt

/-- What is handed on is what the range of the group shows. -/
theorem filter_isLent : (before ++ (first :: rest ++ next :: later)).filter
      (isLent budget overlap ⟨first.start, last.stop⟩ next) =
    handOver budget overlap (first :: rest) next := by
  have hclosed := ordered_closed h
  have hbefore : before.filter (isLent budget overlap ⟨first.start, last.stop⟩ next) = [] := by
    refine List.filter_eq_nil_iff.2 fun s hs => ?_
    have := stop_le_of_mem_before h hs
    have := h.bounds s (List.mem_append_left _ hs)
    simp [isLent]
    omega
  have hbehind :
      (next :: later).filter (isLent budget overlap ⟨first.start, last.stop⟩ next) = [] := by
    refine List.filter_eq_nil_iff.2 fun s hs => ?_
    have := le_start_of_mem_behind h hlast hs
    have := h.bounds s (List.mem_append_right _ (List.mem_append_right _ hs))
    simp [isLent]
    omega
  have hfirst : ¬ isLent budget overlap ⟨first.start, last.stop⟩ next first = true := by
    simp [isLent]
  rw [List.filter_append, List.filter_append, hbefore, hbehind, List.nil_append, List.append_nil,
    List.filter_cons_of_neg hfirst, handOver_eq_filter hlast hclosed]
  refine List.filter_congr fun s hs => ?_
  have hstart := (List.pairwise_cons.1 hclosed.starts).1 s hs
  have hstop := hclosed.stop_le hlast s (List.mem_cons_of_mem first hs)
  simp [isLent, hstart, hstop]

theorem follows_closed (hfits : fits budget (first :: rest) next = false) {opened : Span}
    (hstart : opened.start =
      ((handOver budget overlap (first :: rest) next).head?.getD next).start)
    (hstop : next.stop ≤ opened.stop) :
    Follows budget overlap (before ++ (first :: rest ++ next :: later))
      ⟨first.start, last.stop⟩ opened := by
  refine ⟨next, (find?_behind h hlast :), ?_, hstop, ?_⟩
  · simpa only [fits, decide_eq_false_iff_not, not_le] using hfits
  · rw [hstart, ← List.head?_filter, filter_isLent h hlast]

end Closing

theorem Within.range {r : Span} (h : Within budget group) (hr : Span.cover? group = some r)
    (hsub : group ⊆ spans) : r.length ≤ budget ∨ r ∈ spans := by
  obtain ⟨q, hq, hle | hsingle⟩ := h
  · exact Or.inl (Option.some.inj (hq.symm.trans hr) ▸ hle)
  · rw [← Option.some.inj (hq.symm.trans hr)]
    exact Or.inr (hsub (hsingle ▸ List.mem_singleton_self q))

/-- From an open group on: the first range begins with the group and does not end before it does,
each range follows the one before it, and none is too long. The spans before the group are carried
along because what a range follows is told in terms of all spans. -/
theorem follows_groupsFrom (budget overlap : Nat) (h : Ordered spans)
    (hspans : spans = before ++ (group ++ later)) (hfirst : group.head? = some first)
    (hlast : group.getLast? = some last) (hw : Within budget group) :
    ∃ r ranges, (groupsFrom budget overlap group later).filterMap Span.cover? = r :: ranges ∧
      r.start = first.start ∧ last.stop ≤ r.stop ∧
      (r :: ranges).IsChain (Follows budget overlap spans) ∧
      ∀ q ∈ r :: ranges, q.length ≤ budget ∨ q ∈ spans := by
  induction later generalizing before group first last with
  | nil =>
      obtain ⟨rest, rfl⟩ := List.head?_eq_some_iff.1 hfirst
      refine ⟨⟨first.start, last.stop⟩, [], ?_, rfl, le_rfl, List.IsChain.singleton _, ?_⟩
      · rw [groupsFrom, List.isEmpty_cons, if_neg Bool.false_ne_true, List.filterMap_cons,
          cover?_eq hlast]
        rfl
      · rw [List.forall_mem_singleton]
        exact hw.range (cover?_eq hlast) fun s hs => by simp [hspans, hs]
  | cons next later ih =>
      cases hfits : fits budget group next with
      | true =>
          have hgroup : spans = before ++ (group ++ [next] ++ later) := hspans.trans (by simp)
          have hhead : (group ++ [next]).head? = some first :=
            List.head?_append.trans (by rw [hfirst]; rfl)
          obtain ⟨r, ranges, hr, hstart, hstop, hchain, hwithin⟩ :=
            ih hgroup hhead List.getLast?_concat (within_concat hfits)
          rw [groupsFrom, if_pos hfits]
          have hmeet : last.stop ≤ next.start := by
            obtain ⟨rest, rfl⟩ := List.head?_eq_some_iff.1 hfirst
            exact le_start_of_mem_behind (hspans ▸ h) hlast List.mem_cons_self
          have hnext := h.bounds next (by rw [hspans]; simp)
          exact ⟨r, ranges, hr, hstart, by omega, hchain, hwithin⟩
      | false =>
          obtain ⟨rest, rfl⟩ := List.head?_eq_some_iff.1 hfirst
          have hord : Ordered (before ++ (first :: rest ++ next :: later)) := hspans ▸ h
          obtain ⟨dropped, hdropped⟩ :=
            handOver_suffix budget overlap hlast (ordered_closed hord) next
          -- the spans that are not handed on join those before the group
          have hrest : spans = before ++ first :: dropped ++
              (handOver budget overlap (first :: rest) next ++ [next] ++ later) := by
            rw [hspans]
            conv_lhs => rw [← hdropped]
            simp
          have hhead (kept : List Span) : (kept ++ [next]).head? = some (kept.head?.getD next) := by
            cases kept <;> rfl
          obtain ⟨r, ranges, hr, hstart, hstop, hchain, hwithin⟩ :=
            ih hrest (hhead _) List.getLast?_concat
              (within_concat (fits_handOver budget overlap (first :: rest) next))
          have hclosed := cover?_eq hlast
          have hfollows : Follows budget overlap spans ⟨first.start, last.stop⟩ r :=
            hspans ▸ follows_closed hord hlast hfits hstart hstop
          rw [groupsFrom, if_neg (by simp [hfits]), List.filterMap_cons, hclosed, hr]
          refine ⟨_, _, rfl, rfl, le_rfl, List.isChain_cons_cons.2 ⟨hfollows, hchain⟩, ?_⟩
          refine List.forall_mem_cons.2 ⟨hw.range hclosed fun s hs => ?_, hwithin⟩
          rw [hspans]
          exact List.mem_append_right _ (List.mem_append_left _ hs)

/-- Ranges over spans that are packed as tightly as the budget allows and share no more than the
overlap. -/
structure Lends (budget overlap : Nat) (spans ranges : List Span) : Prop
    extends Packed spans ranges where
  within : ∀ r ∈ ranges, r.length ≤ budget ∨ r ∈ spans
  shares : ranges.IsChain fun a b => a.stop - b.start ≤ overlap
  follows : ranges.IsChain (Follows budget overlap spans)

theorem lends_pack (budget overlap : Nat) (h : Ordered spans) :
    Lends budget overlap spans (pack budget overlap spans) := by
  have hfollows : (pack budget overlap spans).IsChain (Follows budget overlap spans) ∧
      ∀ r ∈ pack budget overlap spans, r.length ≤ budget ∨ r ∈ spans := by
    cases spans with
    | nil => exact ⟨List.IsChain.nil, fun r hr => nomatch hr⟩
    | cons s later =>
        have hspans : s :: later = [] ++ ([s] ++ later) := rfl
        obtain ⟨r, ranges, hr, _, _, hchain, hwithin⟩ :=
          follows_groupsFrom budget overlap h hspans rfl rfl (within_singleton budget s)
        have hpack : pack budget overlap (s :: later) = r :: ranges := hr
        rw [hpack]
        exact ⟨hchain, hwithin⟩
  exact ⟨packed_pack budget overlap h.bounds h.meets, hfollows.2,
    hfollows.1.imp fun _ _ => Follows.shares, hfollows.1⟩

end Packing

theorem Units.toOrdered {visible : Nat → Prop} {spans : List Span} (h : Units visible spans) :
    Packing.Ordered spans :=
  ⟨fun s hs => (h.bounds s hs).1, h.ordered⟩

end Retrieval
