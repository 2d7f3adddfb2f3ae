import Retrieval.Config.Layers
import Retrieval.Proofs.Table.Keyed

/-!
# What stands where after a merge

A path of names leads through maps to a value. After an upper layer is laid over a lower one, a path
leads to what the upper layer has there, and else to what the lower one has, unless the upper layer
has something in its way. Laying the same layer over the result again changes nothing.
-/

namespace Retrieval

namespace Value

def isMap : Value → Bool
  | .map _ => true
  | _ => false

def at? : Value → List String → Option Value
  | value, [] => some value
  | .map entries, key :: rest => (Table.get? entries key).bind fun value => at? value rest
  | _, _ :: _ => none

mutual

def namesApart : Value → Bool
  | .map entries => entriesApart entries
  | _ => true

def entriesApart : List (String × Value) → Bool
  | [] => true
  | (name, value) :: rest => !Table.has rest name && namesApart value && entriesApart rest

end

/-- A layer covers a path if it has a value there, or one on the way that is no map. -/
def Covers (upper : Value) (path : List String) : Prop :=
  (∃ value, upper.at? path = some value) ∨
    ∃ front rest value, path = front ++ rest ∧ rest ≠ [] ∧ upper.at? front = some value ∧
      value.isMap = false

@[simp] theorem at?_nil (value : Value) : value.at? [] = some value := by
  cases value <;> rfl

@[simp] theorem at?_map_cons (entries : Fields) (key : String) (rest : List String) :
    (Value.map entries).at? (key :: rest) = (Table.get? entries key).bind fun v => v.at? rest := rfl

@[simp] theorem at?_map_single (entries : Fields) (key : String) :
    (Value.map entries).at? [key] = Table.get? entries key := by
  rw [at?_map_cons]
  cases Table.get? entries key with
  | none => rfl
  | some value => exact at?_nil value

theorem at?_cons (value : Value) (key : String) (rest : List String) :
    value.at? (key :: rest) = (value.at? [key]).bind (·.at? rest) := by
  cases value with
  | map entries =>
      rw [at?_map_cons, at?_map_single]
  | _ => rfl

theorem at?_cons_of_not_isMap {value : Value} (h : value.isMap = false) (key : String)
    (rest : List String) : value.at? (key :: rest) = none := by
  cases value with
  | map entries => cases h
  | _ => rfl

theorem Covers.of_at? {upper value : Value} {path : List String}
    (h : upper.at? path = some value) : upper.Covers path :=
  Or.inl ⟨value, h⟩

theorem covers_of_not_isMap {upper : Value} (h : upper.isMap = false) (path : List String) :
    upper.Covers path := by
  cases path with
  | nil => exact .of_at? (at?_nil upper)
  | cons key rest => exact Or.inr ⟨[], key :: rest, upper, rfl, List.cons_ne_nil _ _, at?_nil _, h⟩

theorem covers_map_cons {entries : Fields} {key : String} {rest : List String} :
    (Value.map entries).Covers (key :: rest) ↔
      ∃ value, Table.get? entries key = some value ∧ value.Covers rest := by
  constructor
  · rintro (⟨found, hfound⟩ | ⟨front, back, found, hpath, hback, hfound, hmap⟩)
    · rw [at?_map_cons, Option.bind_eq_some_iff] at hfound
      obtain ⟨value, hvalue, hfound⟩ := hfound
      exact ⟨value, hvalue, .of_at? hfound⟩
    · cases front with
      | nil =>
          cases Option.some.inj ((at?_nil _).symm.trans hfound)
          cases hmap
      | cons first front =>
          obtain ⟨rfl, rfl⟩ := List.cons.inj hpath
          rw [at?_map_cons, Option.bind_eq_some_iff] at hfound
          obtain ⟨value, hvalue, hfound⟩ := hfound
          exact ⟨value, hvalue, Or.inr ⟨front, back, found, rfl, hback, hfound, hmap⟩⟩
  · rintro ⟨value, hvalue, ⟨found, hfound⟩ | ⟨front, back, found, rfl, hback, hfound, hmap⟩⟩
    · refine Or.inl ⟨found, ?_⟩
      rw [at?_map_cons, hvalue]
      exact hfound
    · refine Or.inr ⟨key :: front, back, found, rfl, hback, ?_, hmap⟩
      rw [at?_map_cons, hvalue]
      exact hfound

theorem nodup_of_entriesApart {entries : Fields} (h : entriesApart entries = true) :
    (Table.keys entries).Nodup := by
  induction entries with
  | nil => exact List.nodup_nil
  | cons e rest ih =>
      obtain ⟨name, value⟩ := e
      simp only [entriesApart, Bool.and_eq_true, Bool.not_eq_true'] at h
      refine List.nodup_cons.2 ⟨fun hname => ?_, ih h.2⟩
      have hhas : Table.has rest name = true := (Table.has_iff_mem_keys rest name).2 hname
      rw [h.1.1] at hhas
      cases hhas

theorem namesApart_of_mem {entries : Fields} (h : entriesApart entries = true)
    {e : String × Value} (he : e ∈ entries) : e.2.namesApart = true := by
  induction entries with
  | nil => cases he
  | cons first rest ih =>
      simp only [entriesApart, Bool.and_eq_true] at h
      rcases List.mem_cons.1 he with rfl | he
      · exact h.1.2
      · exact ih h.2 he

end Value

namespace Config

open Value

theorem overlay_of_not_isMap {upper : Value} (h : upper.isMap = false) (lower : Option Value) :
    overlay lower upper = upper := by
  cases upper with
  | map entries => cases h
  | _ => rfl

theorem overlay_none (upper : Value) : overlay none upper = upper := by
  cases upper <;> rfl

theorem isMap_overlay (lower : Option Value) (upper : Value) :
    (overlay lower upper).isMap = upper.isMap := by
  cases upper with
  | map entries =>
      unfold overlay
      split <;> rfl
  | _ => rfl

/-- A layer that changes nothing of what stands under its names changes nothing. -/
theorem merge_eq_self {lower upper : Fields} (h : ∀ e ∈ upper, ∃ value,
    lower.get? e.1 = some value ∧ overlay (some value) e.2 = value) : merge lower upper = lower := by
  induction upper with
  | nil => rfl
  | cons e rest ih =>
      obtain ⟨hfirst, hrest⟩ := List.forall_mem_cons.1 h
      obtain ⟨value, hvalue, hover⟩ := hfirst
      rw [merge, hvalue, hover, Table.set_of_get? hvalue]
      exact ih hrest

theorem get?_merge {upper : Fields} (h : upper.keys.Nodup) (lower : Fields) (key : String) :
    (merge lower upper).get? key =
      ((upper.get? key).map (overlay (lower.get? key))).or (lower.get? key) := by
  induction upper generalizing lower with
  | nil => rfl
  | cons e rest ih =>
      obtain ⟨name, value⟩ := e
      obtain ⟨hname, hrest⟩ := List.nodup_cons.1 h
      rw [merge, ih hrest, Table.get?_cons]
      by_cases hn : name = key
      · subst hn
        rw [Table.get?_eq_none hname, Table.get?_set_self, if_pos rfl]
        rfl
      · rw [Table.get?_set_of_ne hn, if_neg hn]

theorem overlay_map {entries : Fields} (h : entries.keys.Nodup) (lower : Option Value) :
    ∃ fields, overlay lower (.map entries) = .map fields ∧ ∀ key, Table.get? fields key =
      ((entries.get? key).map (overlay (lower.bind (·.at? [key])))).or
        (lower.bind (·.at? [key])) := by
  by_cases hlower : ∃ fields, lower = some (.map fields)
  · obtain ⟨fields, rfl⟩ := hlower
    refine ⟨merge fields entries, rfl, fun key => ?_⟩
    rw [Option.bind_some, at?_map_single, get?_merge h]
  · have hover : overlay lower (.map entries) = .map entries := by
      unfold overlay
      split
      · next fields => exact absurd ⟨fields, rfl⟩ hlower
      · rfl
    refine ⟨entries, hover, fun key => ?_⟩
    have hbelow : lower.bind (·.at? [key]) = none := by
      cases lower with
      | none => rfl
      | some value =>
          refine at?_cons_of_not_isMap ?_ key []
          cases value with
          | map fields => exact absurd ⟨fields, rfl⟩ hlower
          | _ => rfl
    rw [hbelow, Option.or_none]
    cases entries.get? key with
    | none => rfl
    | some value => exact congrArg some (overlay_none value).symm

/-- A path leads to what the upper layer has there, or to what the lower one has and the upper one
does not cover. -/
theorem at?_overlay {upper value : Value} (h : upper.namesApart = true)
    (hvalue : value.isMap = false) (lower : Option Value) (path : List String) :
    (overlay lower upper).at? path = some value ↔
      upper.at? path = some value ∨
        (lower.bind (·.at? path) = some value ∧ ¬ upper.Covers path) := by
  induction path generalizing lower upper with
  | nil =>
      have hcovers : upper.Covers [] := .of_at? (at?_nil upper)
      rw [at?_nil, at?_nil, or_iff_left fun h => h.2 hcovers, Option.some.injEq, Option.some.injEq]
      constructor
      · rintro rfl
        rw [isMap_overlay] at hvalue
        exact (overlay_of_not_isMap hvalue lower).symm
      · rintro rfl
        exact overlay_of_not_isMap hvalue lower
  | cons key rest ih =>
      cases upper with
      | map entries =>
          obtain ⟨fields, hfields, hget⟩ := overlay_map (nodup_of_entriesApart h) lower
          have hbelow : lower.bind (·.at? (key :: rest)) =
              (lower.bind (·.at? [key])).bind (·.at? rest) := by
            rw [Option.bind_assoc]
            exact Option.bind_congr fun value _ => at?_cons value key rest
          rw [hfields, at?_map_cons, at?_map_cons, hget, covers_map_cons, hbelow]
          cases hentry : Table.get? entries key with
          | none => simp
          | some entry =>
              have hentryApart := namesApart_of_mem h (Table.mem_of_get? hentry)
              simpa using ih hentryApart (lower.bind (·.at? [key]))
      | _ =>
          rw [overlay_of_not_isMap rfl, or_iff_left fun h => h.2 (covers_of_not_isMap rfl _)]

mutual

/-- What a layer has been laid over stays as it is when the layer is laid over it again. -/
theorem overlay_again {upper : Value} (h : upper.namesApart = true) (lower : Option Value) :
    overlay (some (overlay lower upper)) upper = overlay lower upper := by
  cases upper with
  | map entries =>
      have hentries : entriesApart entries = true := h
      have hnodup := nodup_of_entriesApart hentries
      obtain ⟨fields, hfields, hget⟩ := overlay_map hnodup lower
      rw [hfields, overlay]
      refine congrArg Value.map (merge_eq_self fun e he => ?_)
      refine ⟨overlay (lower.bind (·.at? [e.1])) e.2, ?_, overlay_again_of_mem hentries he _⟩
      rw [hget, Table.get?_of_mem hnodup he]
      rfl
  | _ => rfl

theorem overlay_again_of_mem {entries : Fields} (h : entriesApart entries = true)
    {e : String × Value} (he : e ∈ entries) (lower : Option Value) :
    overlay (some (overlay lower e.2)) e.2 = overlay lower e.2 := by
  cases entries with
  | nil => cases he
  | cons first rest =>
      obtain ⟨name, value⟩ := first
      simp only [entriesApart, Bool.and_eq_true] at h
      rcases List.mem_cons.1 he with rfl | he
      · exact overlay_again h.1.2 lower
      · exact overlay_again_of_mem h.2 he lower

end

/-- A merge keeps what the upper layer says and whatever of the lower one it does not cover, and
holds nothing else; the same layer merged once more changes nothing. -/
theorem merges_by_path {upper : Fields} (h : entriesApart upper = true) (lower : Fields) :
    (∀ path value, value.isMap = false → (Value.map upper).at? path = some value →
      (Value.map (merge lower upper)).at? path = some value) ∧
    (∀ path value, value.isMap = false → (Value.map lower).at? path = some value →
      ¬ (Value.map upper).Covers path →
      (Value.map (merge lower upper)).at? path = some value) ∧
    (∀ path value, value.isMap = false →
      (Value.map (merge lower upper)).at? path = some value →
      (Value.map lower).at? path = some value ∨ (Value.map upper).at? path = some value) ∧
    merge (merge lower upper) upper = merge lower upper := by
  have hapart : (Value.map upper).namesApart = true := h
  have hpath : ∀ {path value}, value.isMap = false →
      ((Value.map (merge lower upper)).at? path = some value ↔
        (Value.map upper).at? path = some value ∨
          ((Value.map lower).at? path = some value ∧ ¬ (Value.map upper).Covers path)) :=
    fun hvalue => at?_overlay hapart hvalue (some (.map lower)) _
  refine ⟨fun path value hvalue hupper => ?_, fun path value hvalue hlower hfree => ?_,
    fun path value hvalue hmerged => ?_, ?_⟩
  · exact (hpath hvalue).2 (.inl hupper)
  · exact (hpath hvalue).2 (.inr ⟨hlower, hfree⟩)
  · exact ((hpath hvalue).1 hmerged).symm.imp_left And.left
  · exact Value.map.inj (overlay_again hapart (some (.map lower)))

/-- A map in the place of a text, and a map whose entries are kept and replaced. -/
theorem merges_logging_by_path :
    let lower : Fields := [("app", .map [("env", .text "development"), ("debug", .bool true)]),
      ("logging", .text "INFO")]
    let upper : Fields := [("app", .map [("env", .text "production")]),
      ("logging", .map [("level", .text "WARN")])]
    let merged := Value.map (merge lower upper)
    entriesApart upper = true ∧
      merged.at? ["app", "env"] = some (.text "production") ∧
      merged.at? ["app", "debug"] = some (.bool true) ∧
      (∀ value, value.isMap = false → merged.at? ["logging", "level"] = some value →
        value = .text "WARN") ∧
      merge (merge lower upper) upper = merge lower upper := by
  intro lower upper merged
  have hapart : entriesApart upper = true := by decide
  obtain ⟨hupper, hlower, honly, hagain⟩ := merges_by_path hapart lower
  have hfree : ¬ (Value.map upper).Covers ["app", "debug"] := by
    rw [covers_map_cons]
    rintro ⟨app, happ, hcovers⟩
    cases happ
    obtain ⟨debug, hdebug, -⟩ := covers_map_cons.1 hcovers
    cases hdebug
  refine ⟨hapart, hupper _ _ rfl rfl, hlower _ _ rfl rfl hfree, fun value hvalue hlevel => ?_,
    hagain⟩
  rcases honly _ value hvalue hlevel with h | h
  · cases h
  · exact (Option.some.inj h).symm

end Config

end Retrieval
