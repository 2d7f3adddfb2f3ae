import Mathlib.Algebra.Order.Ring.Int
import Mathlib.Data.List.Infix
import Retrieval.Text.Quoted

/-!
# Texts that end in a serial number

The hexadecimal digits of a number tell it from all others that fit the same width, and so does a
text that ends in them.
-/

namespace Retrieval.Text

theorem hexDigit_inj {a b : Nat} (ha : a < 16) (hb : b < 16) (h : hexDigit a = hexDigit b) :
    a = b := by
  have hall : ∀ a < 16, ∀ b < 16, hexDigit a = hexDigit b → a = b := by decide
  exact hall a ha b hb h

theorem hexDigits_inj {width a b : Nat} (ha : a < 16 ^ width) (hb : b < 16 ^ width)
    (h : hexDigits width a = hexDigits width b) : a = b := by
  induction width generalizing a b with
  | zero => omega
  | succ width ih =>
      rw [hexDigits, hexDigits] at h
      obtain ⟨hhigh, hlow⟩ := List.append_inj' h rfl
      have hdigit := hexDigit_inj (Nat.mod_lt a (by decide)) (Nat.mod_lt b (by decide))
        (List.singleton_inj.1 hlow)
      have hrest := ih (Nat.div_lt_of_lt_mul (by rwa [Nat.pow_succ'] at ha))
        (Nat.div_lt_of_lt_mul (by rwa [Nat.pow_succ'] at hb)) hhigh
      omega

def ending (width : Nat) (text : String) : List Char :=
  text.toList.drop (text.toList.length - width)

theorem ending_append {width : Nat} (front : String) {back : String}
    (h : width ≤ back.toList.length) : ending width (front ++ back) = ending width back := by
  rw [ending, String.toList_append, List.length_append, Nat.add_sub_assoc h, List.drop_append,
    Nat.add_sub_cancel_left, List.drop_eq_nil_of_le (Nat.le_add_right _ _), List.nil_append]
  rfl

theorem ending_hexDigits (front : String) (width serial : Nat) :
    ending width (front ++ String.ofList (hexDigits width serial)) = hexDigits width serial := by
  rw [ending_append front (by simp), ending]
  simp

end Retrieval.Text
