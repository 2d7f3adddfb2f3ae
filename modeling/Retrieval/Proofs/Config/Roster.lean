import Retrieval.Config.Roster
import Retrieval.Proofs.Effect.Traversing

/-!
# Tenants out of a configuration

A roster makes one tenant of every entry, in order, or none at all, and then the configuration is at
fault or says something illegible. Quotas that are written as a map limit the tenant by just the
numbers written there. Quotas that are written as anything else do not limit it.
-/

namespace Retrieval

open Schema

namespace Schema

variable {α β : Type}

namespace Checked

theorem under_eq_good_iff {x : Checked α} {step : Step} {a : α} :
    x.under step = good a ↔ x = good a := by
  cases x with
  | good b => rfl
  | bad issues => constructor <;> intro h <;> cases h

theorem map_eq_good_iff {f : α → β} {x : Checked α} {b : β} :
    x.map f = good b ↔ ∃ a, x = good a ∧ b = f a := by
  refine ⟨map_eq_good, ?_⟩
  rintro ⟨a, rfl, rfl⟩
  rfl

end Checked

namespace Reader

theorem atLeast_eq_good_iff {bound n : Int} {value : Value} :
    atLeast bound value = .good n ↔ int value = .good n ∧ bound ≤ n := by
  unfold atLeast Checked.andThen
  cases int value with
  | bad issues =>
      constructor
      · intro h
        cases h
      · rintro ⟨h, -⟩
        cases h
  | good m =>
      dsimp only
      split
      · next hm =>
          refine ⟨fun h => ⟨h, ?_⟩, And.left⟩
          cases h
          exact hm
      · next hm =>
          constructor
          · intro h
            cases h
          · rintro ⟨h, hn⟩
            cases h
            exact absurd hn hm

theorem optional_of_ne_null {read : Reader α} {value : Value} (h : value ≠ .null) :
    optional read value = (read value).map some := by
  cases value with
  | null => exact absurd rfl h
  | _ => rfl

end Reader

end Schema

namespace Quotas

def limits (q : Quotas) : List (String × Option Int) :=
  [("max_documents", q.maxDocuments), ("max_storage_bytes", q.maxStorageBytes),
    ("max_requests_per_day", q.maxRequestsPerDay), ("max_tokens_per_request", q.maxTokensPerRequest)]

/-- A limit is the number that is read from what is written; nothing and null set no limit. -/
def Sets (fields : Fields) (name : String) : Option Int → Prop
  | none => fields.get? name = none ∨ fields.get? name = some .null
  | some n => ∃ value, fields.get? name = some value ∧ Reader.int value = .good n ∧ 0 ≤ n

theorem limit_eq_good_iff {fields : Fields} {name : String} {bound : Option Int} :
    limit name fields = .good bound ↔ Sets fields name bound := by
  unfold limit optionalField
  cases hvalue : fields.get? name with
  | none =>
      cases bound with
      | none => exact iff_of_true rfl (.inl hvalue)
      | some n =>
          constructor
          · intro h
            cases h
          · rintro ⟨value, h, -⟩
            cases hvalue.symm.trans h
  | some value =>
      dsimp only
      rw [Checked.under_eq_good_iff]
      by_cases hnull : value = .null
      · subst hnull
        cases bound with
        | none => exact iff_of_true rfl (.inr hvalue)
        | some n =>
            constructor
            · intro h
              cases h
            · rintro ⟨value, h, hread, -⟩
              cases hvalue.symm.trans h
              cases hread
      · rw [Reader.optional_of_ne_null hnull, Checked.map_eq_good_iff]
        cases bound with
        | none =>
            constructor
            · rintro ⟨m, -, h⟩
              cases h
            · rintro (h | h)
              · cases hvalue.symm.trans h
              · exact absurd (Option.some.inj (hvalue.symm.trans h)) hnull
        | some n =>
            constructor
            · rintro ⟨m, hread, h⟩
              cases h
              exact ⟨value, hvalue, Reader.atLeast_eq_good_iff.1 hread⟩
            · rintro ⟨found, h, hread⟩
              cases hvalue.symm.trans h
              exact ⟨n, Reader.atLeast_eq_good_iff.2 hread, rfl⟩

theorem read_eq_good_iff {fields : Fields} {q : Quotas} :
    read fields = .good q ↔ ∀ e ∈ q.limits, Sets fields e.1 e.2 := by
  simp only [limits, List.forall_mem_cons, ← limit_eq_good_iff]
  constructor
  · intro h
    obtain ⟨_, tokens, hthree, htokens, rfl⟩ := Checked.ap_eq_good h
    obtain ⟨_, requests, htwo, hrequests, rfl⟩ := Checked.ap_eq_good hthree
    obtain ⟨_, bytes, hone, hbytes, rfl⟩ := Checked.ap_eq_good htwo
    obtain ⟨documents, hdocuments, rfl⟩ := Checked.map_eq_good hone
    exact ⟨hdocuments, hbytes, hrequests, htokens, fun _ h => by cases h⟩
  · rintro ⟨hdocuments, hbytes, hrequests, htokens, -⟩
    rw [read, hdocuments, hbytes, hrequests, htokens]
    rfl

end Quotas

namespace Tenant

theorem new_eq_ok_iff {id name : String} {quotas : Option Quotas} {t : Tenant} :
    new id name quotas = .ok t ↔ isValidId id = true ∧ t = ⟨id, name, quotas⟩ := by
  unfold new
  rw [checkId_some]
  split
  · next hid => exact ⟨fun h => ⟨hid, (Except.ok.inj h).symm⟩, fun h => h.2 ▸ rfl⟩
  · next hid =>
      constructor
      · intro h
        cases h
      · rintro ⟨h, -⟩
        exact absurd h hid

theorem kind_of_new {id name : String} {quotas : Option Quotas} {fault : Fault}
    (h : new id name quotas = .error fault) : fault.kind = .configuration := by
  unfold new at h
  rw [checkId_some] at h
  split at h
  · cases h
  · cases h
    rfl

end Tenant

namespace Config

/-- What becomes of quotas as they are written: a map sets limits, and nothing else does. -/
def Limits : Option Value → Option Quotas → Prop
  | some (.map fields), quotas => ∃ q, quotas = some q ∧ ∀ e ∈ q.limits, Quotas.Sets fields e.1 e.2
  | _, quotas => quotas = none

def nameOf (fields : Fields) (id : Value) : Value :=
  ((Table.get? fields "name").filter (·.isTruthy)).getD id

/-- The tenant that an entry describes. -/
def Enrols (entry : Value) (t : Tenant) : Prop :=
  ∃ fields id, entry = .map fields ∧ Table.get? fields "id" = some id ∧ id.toText = .ok t.id ∧
    Tenant.isValidId t.id = true ∧ (nameOf fields id).toText = .ok t.name ∧
    Limits (Table.get? fields "quotas") t.quotas

/-- An entry with an illegible id, with an illegible name beside quotas that can be read, or without
an id and illegible itself. -/
def Puzzles (entry : Value) : Prop :=
  (∃ fields id, entry = .map fields ∧ Table.get? fields "id" = some id ∧
    (id.isLegible = false ∨ ((∃ quotas, Limits (Table.get? fields "quotas") quotas) ∧
      (nameOf fields id).isLegible = false))) ∨
  ((∀ fields, entry = .map fields → Table.get? fields "id" = none) ∧ entry.isLegible = false)

/-- The entries of a roster, of which there are none if what is written counts as false. -/
def roster? (config : Fields) : Option (List Value) :=
  match config.get? "tenants" with
  | none => some []
  | some (.list entries) => some entries
  | some value => if value.isTruthy then none else some []

theorem limits_of_not_map {value : Option Value} (h : ∀ fields, value ≠ some (.map fields))
    (quotas : Option Quotas) : Limits value quotas ↔ quotas = none := by
  unfold Limits
  split
  · next fields => exact absurd rfl (h fields)
  · exact Iff.rfl

theorem quotasOf_eq_ok_iff {id : Value} {value : Option Value} {quotas : Option Quotas} :
    quotasOf id value = .ok quotas ↔ Limits value quotas := by
  unfold quotasOf
  split
  · next fields =>
      constructor
      · intro h
        cases hread : Quotas.read fields with
        | good q =>
            rw [hread] at h
            cases h
            exact ⟨q, rfl, Quotas.read_eq_good_iff.1 hread⟩
        | bad issues =>
            rw [hread] at h
            cases hid : id.toText with
            | error fault =>
                rw [hid] at h
                cases h
            | ok name =>
                rw [hid] at h
                cases h
      · rintro ⟨q, rfl, hlimits⟩
        rw [Quotas.read_eq_good_iff.2 hlimits]
  · next hother =>
      rw [limits_of_not_map fun fields h => hother fields h]
      exact ⟨fun h => (Except.ok.inj h).symm, fun h => congrArg _ h.symm⟩

theorem quotasOf_cases (id : Value) (value : Option Value) :
    (∃ quotas, quotasOf id value = .ok quotas) ∨
      (∃ fault, quotasOf id value = .error fault ∧ fault.kind = .configuration) ∨
      (quotasOf id value = .error Value.tooLong ∧ id.isLegible = false) := by
  unfold quotasOf
  split
  · next fields =>
      cases Quotas.read fields with
      | good q => exact .inl ⟨some q, rfl⟩
      | bad issues =>
          rcases id.toText_cases with ⟨hid, -⟩ | ⟨hid, hlegible⟩
          · rw [hid]
            exact .inr (.inl ⟨_, rfl, rfl⟩)
          · rw [hid]
            exact .inr (.inr ⟨rfl, hlegible⟩)
  · exact .inl ⟨none, rfl⟩

theorem tenantOf_map {fields : Fields} {id : Value} (hid : Table.get? fields "id" = some id) :
    tenantOf (.map fields) = (quotasOf id (Table.get? fields "quotas")).bind fun quotas =>
      id.toText.bind fun idText => (nameOf fields id).toText.bind fun name =>
        Tenant.new idText name quotas := by
  unfold tenantOf nameOf
  dsimp only
  rw [hid]
  cases Table.get? fields "name" with
  | none => rfl
  | some name =>
      cases hname : name.isTruthy with
      | true =>
          simp only [Option.filter, hname, if_true, Option.getD_some]
          rfl
      | false =>
          simp only [Option.filter, hname, Bool.false_eq_true, if_false, Option.getD_none]
          rfl

theorem tenantOf_eq (entry : Value) :
    (∃ fields id, entry = .map fields ∧ Table.get? fields "id" = some id) ∨
      ((∀ fields, entry = .map fields → Table.get? fields "id" = none) ∧
        tenantOf entry = withoutId entry) := by
  unfold tenantOf
  split
  · next fields =>
      cases hid : Table.get? fields "id" with
      | some id => exact .inl ⟨fields, id, rfl, hid⟩
      | none =>
          refine .inr ⟨fun others h => ?_, rfl⟩
          cases h
          exact hid
  · next hother => exact .inr ⟨fun fields h => absurd h (hother fields), rfl⟩

theorem tenantOf_eq_ok_iff {entry : Value} {t : Tenant} :
    tenantOf entry = .ok t ↔ Enrols entry t := by
  constructor
  · intro h
    rcases tenantOf_eq entry with ⟨fields, id, rfl, hid⟩ | ⟨-, hwithout⟩
    · rw [tenantOf_map hid] at h
      obtain ⟨quotas, hquotas, h⟩ := Outcome.bind_eq_ok h
      obtain ⟨idText, hidText, h⟩ := Outcome.bind_eq_ok h
      obtain ⟨name, hname, h⟩ := Outcome.bind_eq_ok h
      obtain ⟨hvalid, rfl⟩ := Tenant.new_eq_ok_iff.1 h
      exact ⟨fields, id, rfl, hid, hidText, hvalid, hname, quotasOf_eq_ok_iff.1 hquotas⟩
    · obtain ⟨literal, -, h⟩ := Outcome.bind_eq_ok (hwithout.symm.trans h)
      cases h
  · rintro ⟨fields, id, rfl, hid, hidText, hvalid, hname, hlimits⟩
    rw [tenantOf_map hid, quotasOf_eq_ok_iff.2 hlimits, hidText, hname]
    exact Tenant.new_eq_ok_iff.2 ⟨hvalid, rfl⟩

/-- An entry that makes no tenant is a fault of the configuration, or what is to be told of it is
illegible. -/
theorem fault_of_tenantOf {entry : Value} {fault : Fault} (h : tenantOf entry = .error fault) :
    fault.kind = .configuration ∨ (fault = Value.tooLong ∧ Puzzles entry) := by
  rcases tenantOf_eq entry with ⟨fields, id, rfl, hid⟩ | ⟨hnone, hwithout⟩
  · rw [tenantOf_map hid] at h
    rcases quotasOf_cases id (Table.get? fields "quotas") with
      ⟨quotas, hquotas⟩ | ⟨cause, hquotas, hkind⟩ | ⟨hquotas, hlegible⟩
    · rw [hquotas, Outcome.bind_ok] at h
      rcases id.toText_cases with ⟨hidText, -⟩ | ⟨hidText, hlegible⟩
      · rw [hidText, Outcome.bind_ok] at h
        rcases (nameOf fields id).toText_cases with ⟨hname, -⟩ | ⟨hname, hlegible⟩
        · rw [hname] at h
          exact .inl (Tenant.kind_of_new h)
        · rw [hname] at h
          cases h
          exact .inr ⟨rfl, .inl ⟨fields, id, rfl, hid,
            .inr ⟨⟨quotas, quotasOf_eq_ok_iff.1 hquotas⟩, hlegible⟩⟩⟩
      · rw [hidText] at h
        cases h
        exact .inr ⟨rfl, .inl ⟨fields, id, rfl, hid, .inl hlegible⟩⟩
    · rw [hquotas] at h
      cases h
      exact .inl hkind
    · rw [hquotas] at h
      cases h
      exact .inr ⟨rfl, .inl ⟨fields, id, rfl, hid, .inl hlegible⟩⟩
  · rw [hwithout, withoutId] at h
    rcases entry.toLiteral_cases with ⟨hentry, -⟩ | ⟨hentry, hlegible⟩
    · rw [hentry] at h
      cases h
      exact .inl rfl
    · rw [hentry] at h
      cases h
      exact .inr ⟨rfl, .inr ⟨hnone, hlegible⟩⟩

theorem tenants_eq (config : Fields) :
    tenants config = match roster? config with
      | some entries => entries.mapM tenantOf
      | none => .error (.configuration "'tenants' must be a list") := by
  unfold tenants roster?
  cases config.get? "tenants" with
  | none => rfl
  | some value =>
      cases value with
      | list entries => rfl
      | _ =>
          dsimp only
          split <;> rfl

/-- A roster is read if and only if every entry describes a tenant, and these are the tenants it
has. If it is not read, the configuration is at fault or one of its entries is illegible. -/
theorem tenants_enrol_entries (config : Fields) :
    (∀ ts, tenants config = .ok ts ↔
      ∃ entries, roster? config = some entries ∧ List.Forall₂ Enrols entries ts) ∧
    ∀ fault, tenants config = .error fault → fault.kind = .configuration ∨
      (fault = Value.tooLong ∧
        ∃ entries entry, roster? config = some entries ∧ entry ∈ entries ∧ Puzzles entry) := by
  rw [tenants_eq]
  cases roster? config with
  | none =>
      refine ⟨fun ts => ⟨fun h => ?_, ?_⟩, fun fault h => ?_⟩
      · cases h
      · rintro ⟨entries, h, -⟩
        cases h
      · cases h
        exact .inl rfl
  | some entries =>
      refine ⟨fun ts => ?_, fun fault h => ?_⟩
      · simp only [Option.some.injEq, exists_eq_left', Outcome.mapM_eq_ok_iff, tenantOf_eq_ok_iff]
      · rcases Outcome.mapM_cases tenantOf entries with
          ⟨ts, hts, -⟩ | ⟨entry, hentry, cause, hcause, herror⟩
        · cases hts.symm.trans h
        · cases herror.symm.trans h
          rcases fault_of_tenantOf hcause with hkind | ⟨hlong, hpuzzles⟩
          · exact .inl hkind
          · exact .inr ⟨hlong, entries, entry, rfl, hentry, hpuzzles⟩

/-- Quotas that an entry writes limit its tenant. -/
def Heeds (entry : Value) (t : Tenant) : Prop :=
  ∀ fields written, entry = .map fields → Table.get? fields "quotas" = some written →
    written ≠ .null → ∃ limits q, written = .map limits ∧ t.quotas = some q ∧
      ∀ e ∈ q.limits, Quotas.Sets limits e.1 e.2

/-- Quotas that are written as a text are neither refused nor heeded. -/
theorem text_for_quotas_is_not_heeded :
    ¬ ∀ config : Fields,
      (∃ fault, tenants config = .error fault ∧ fault.kind = .configuration) ∨
        ∃ entries ts, tenants config = .ok ts ∧ roster? config = some entries ∧
          List.Forall₂ Heeds entries ts := by
  intro h
  let fields : Fields := [("id", .text "acme"), ("quotas", .text "10")]
  have hread : tenants [("tenants", .list [.map fields])] = .ok [⟨"acme", "acme", none⟩] := rfl
  rcases h [("tenants", .list [.map fields])] with
    ⟨fault, hfault, -⟩ | ⟨entries, ts, hts, hentries, hheeds⟩
  · cases hread.symm.trans hfault
  · obtain rfl : entries = [.map fields] := (Option.some.inj hentries).symm
    obtain rfl : ts = [⟨"acme", "acme", none⟩] := (Except.ok.inj (hread.symm.trans hts)).symm
    obtain ⟨hheed, -⟩ := List.forall₂_cons.1 hheeds
    obtain ⟨limits, q, -, hq, -⟩ := hheed fields (.text "10") rfl rfl (fun h => by cases h)
    cases hq

end Config

end Retrieval
