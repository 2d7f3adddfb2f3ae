import Retrieval.Fault

/-!
# Tenant ids

An id has one to a hundred characters out of the letters A to Z in either case, the digits, the
underscore and the dash.
-/

namespace Retrieval.Tenant

def isIdChar (c : Char) : Bool := c.isAlphanum || c == '_' || c == '-'

def isValidId (id : String) : Bool :=
  1 ≤ id.length && id.length ≤ 100 && id.toList.all isIdChar

def invalidId (id : String) : Fault :=
  .configuration ("Invalid tenant id " ++ id ++
    ": must be 1-100 characters of letters, digits, '_' or '-'")

def checkId : Option String → Outcome String
  | some id => if isValidId id then .ok id else .error (invalidId (Text.quote id))
  | none => .error (invalidId "None")

theorem checkId_some (id : String) :
    checkId (some id) = if isValidId id then .ok id else .error (invalidId (Text.quote id)) := rfl

theorem checkId_of_isValidId {id : String} (h : isValidId id = true) :
    checkId (some id) = .ok id := by
  rw [checkId_some, if_pos h]

theorem eq_of_checkId {id tenant : String} (h : checkId (some id) = .ok tenant) : tenant = id := by
  rw [checkId_some] at h
  split at h
  · exact (Except.ok.inj h).symm
  · cases h

end Retrieval.Tenant
