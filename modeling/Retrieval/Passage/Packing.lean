import Retrieval.Passage.Span

/-!
# Packing spans

Spans are gathered in order into groups whose extent stays within a budget; a span that alone
exceeds the budget is a group of its own. A closed group lends its last spans to the next one as
long as they extend over at most `overlap` characters and leave room for the new span.
-/

namespace Retrieval.Packing

/-- The spans at the end of `group`, its first excepted, that extend over at most `overlap`. -/
def carry (overlap : Nat) (group : List Span) : List Span :=
  if overlap = 0 then []
  else match group.getLast? with
    | none => []
    | some last => (group.tail.reverse.takeWhile fun s => last.stop - s.start ≤ overlap).reverse

def fits (budget : Nat) (group : List Span) (next : Span) : Bool :=
  match group with
  | [] => true
  | first :: _ => next.stop - first.start ≤ budget

/-- What `group` hands on to a new group opened by `next`. -/
def handOver (budget overlap : Nat) (group : List Span) (next : Span) : List Span :=
  (carry overlap group).dropWhile fun s => budget < next.stop - s.start

/-- The groups made of an open `group` and the spans still to come. -/
def groupsFrom (budget overlap : Nat) (group : List Span) : List Span → List (List Span)
  | [] => if group.isEmpty then [] else [group]
  | next :: later =>
      if fits budget group next then groupsFrom budget overlap (group ++ [next]) later
      else group :: groupsFrom budget overlap (handOver budget overlap group next ++ [next]) later

def groups (budget overlap : Nat) (spans : List Span) : List (List Span) :=
  groupsFrom budget overlap [] spans

def pack (budget overlap : Nat) (spans : List Span) : List Span :=
  (groups budget overlap spans).filterMap Span.cover?

theorem carry_sublist (overlap : Nat) (group : List Span) :
    (carry overlap group).Sublist group.tail := by
  have h (p : Span → Bool) : (group.tail.reverse.takeWhile p).reverse.Sublist group.tail := by
    have ht := (List.takeWhile_sublist (l := group.tail.reverse) p).reverse
    rwa [List.reverse_reverse] at ht
  unfold carry
  split
  · exact List.nil_sublist _
  · split
    · exact List.nil_sublist _
    · exact h _

/-- The first span of a group is never handed on. -/
theorem handOver_sublist (budget overlap : Nat) (group : List Span) (next : Span) :
    (handOver budget overlap group next).Sublist group.tail :=
  (List.dropWhile_sublist _).trans (carry_sublist overlap group)

end Retrieval.Packing
