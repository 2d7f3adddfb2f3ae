import Retrieval.Text.Search
import Retrieval.Value.Equality
import Retrieval.Value.Timestamp

/-!
# Comparing metadata values

Numbers compare with numbers, texts with texts by code points, and moments with anything that names
a moment: by local time within one region, by instant otherwise. Truth values compare with nothing,
and equal only truth values. What cannot be compared is neither less, nor equal, nor greater.
-/

namespace Retrieval

open Number Text Time

def compareInts (a b : Int) : Ordering := if a < b then .lt else if a = b then .eq else .gt

def Time.Moment.compare (a b : Moment) : Ordering :=
  if a.sharesRegion b then compareInts a.micros b.micros else compareInts a.instant b.instant

/-- The order of texts by the code points of their characters. -/
def compareTexts (a b : String) : Ordering := if a < b then .lt else if a = b then .eq else .gt

namespace Value

def isBool : Value → Bool
  | .bool _ => true
  | _ => false

def isMoment : Value → Bool
  | .moment _ => true
  | _ => false

def compare? (a b : Value) : Option Ordering :=
  if a.isBool || b.isBool then none
  else if a.isMoment || b.isMoment then
    match a.timestamp?, b.timestamp? with
    | some x, some y => some (x.compare y)
    | _, _ => none
  else match a, b with
    | .text x, .text y => some (compareTexts x y)
    | a, b =>
        match a.number?, b.number? with
        | some x, some y => x.compare? y
        | _, _ => none

/-- Equality as predicates see it: a moment equals what names an equal one, and truth values are
equal only with each other. -/
def agrees (a b : Value) : Bool :=
  match a, b with
  | .bool x, .bool y => x == y
  | a, b =>
      if a.isBool || b.isBool then false
      else if a.isMoment || b.isMoment then
        match a.timestamp?, b.timestamp? with
        | some x, some y => x.equals y
        | _, _ => false
      else a.same b

/-- A list holds an equal value, or the text of the other value occurs in that of this one. -/
def holds (a b : Value) : Bool :=
  match a with
  | .list items => items.any (·.same b)
  | a => occursIn b.display.toList a.display.toList

/-- Read as a timestamp, everything but numbers is put into text. -/
def isDatable : Value → Bool
  | .int _ => true
  | value => value.isLegible

/-- Nothing illegible is read to compare two values: texts are asked for beside a moment only. -/
def comparesLegibly (a b : Value) : Bool :=
  !(a.isMoment || b.isMoment) || (a.isDatable && b.isDatable)

def holdsLegibly (a b : Value) : Bool :=
  match a with
  | .list _ => true
  | a => a.isLegible && b.isLegible

@[simp] theorem agrees_text (a b : String) : agrees (.text a) (.text b) = (a == b) := by
  simp [agrees, isBool, isMoment]

end Value

end Retrieval
