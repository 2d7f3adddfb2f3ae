import Mathlib.Data.List.Forall2
import Retrieval.Proofs.Number.Worth
import Retrieval.Proofs.Search.Finding

/-!
# Where a found text stands

Anything may be stored under the names of the positions. What is no number there, or is missing,
makes no difference: the record is then found as a whole text. Only a double that is infinite or no
number cannot be read; if a record that is found holds one there, the search fails. So it does where
the source or the document of a record has to be told by a number too long for a text.
-/

namespace Retrieval

theorem Value.toInt?_eq_error_iff {value : Value} {fault : Fault} :
    value.toInt? = .error fault ↔
      ∃ x, value = .real x ∧ x.isFinite = false ∧ notWhole x = fault := by
  constructor
  · intro h
    cases value with
    | real x =>
        cases hx : Number.Binary.ofFloat? x with
        | none =>
            simp only [toInt?, hx, Except.error.injEq] at h
            exact ⟨x, rfl, Number.Binary.ofFloat?_eq_none_iff.1 hx, h⟩
        | some b =>
            simp only [toInt?, hx] at h
            cases h
    | _ => cases h
  · rintro ⟨x, rfl, hx, rfl⟩
    simp only [toInt?, Number.Binary.ofFloat?_eq_none_iff.2 hx]

namespace Fields

def HoldsNonFinite (fields : Fields) (key : String) (x : Float) : Prop :=
  fields.get? key = some (.real x) ∧ x.isFinite = false

theorem int?_eq_error_iff {fields : Fields} {key : String} {fault : Fault} :
    fields.int? key = .error fault ↔ ∃ x, fields.HoldsNonFinite key x ∧ notWhole x = fault := by
  unfold int?
  cases h : fields.get? key with
  | none =>
      refine iff_of_false nofun ?_
      rintro ⟨x, ⟨hx, -⟩, -⟩
      cases h.symm.trans hx
  | some value =>
      simp only [Value.toInt?_eq_error_iff, HoldsNonFinite, h, Option.some.injEq, and_assoc]

end Fields

namespace Record

/-- A position of a record is a double that is infinite or no number. -/
def Misplaced (r : Record) (x : Float) : Prop :=
  r.fields.HoldsNonFinite Key.startIndex x ∨ r.fields.HoldsNonFinite Key.endIndex x

/-- A name of the record is told by its metadata only, and not by anything that has a text. -/
def Unnamed (r : Record) : Prop :=
  (given r.sourceUri = none ∧ r.fields.isLegible Key.sourceUri = false) ∨
    (given r.docId = none ∧ r.fields.isLegible Key.docId = false)

inductive Untold (r : Record) : Fault → Prop
  | misplaced {x : Float} (h : r.Misplaced x) : r.Untold (notWhole x)
  | unnamed (h : r.Unnamed) : r.Untold Value.tooLong

/-- The metadata of a record give usable positions for its text. -/
def StandsAt (r : Record) (start stop : Nat) : Prop :=
  r.fields.int? Key.startIndex = .ok (some start) ∧
    r.fields.int? Key.endIndex = .ok (some stop) ∧ start < stop

end Record

namespace Source

/-- The source of a match: its text, at the positions stored with it if these are usable, else as a
whole. -/
structure Tells (m : Match) (s : Source) : Prop where
  id : s.chunk.id = (given m.record.chunkId).getD m.record.id
  text : s.chunk.text = m.record.text
  metadata : s.chunk.metadata = m.record.metadata.filter (!·.isEmpty)
  score : s.score = m.score
  sourceUri : s.sourceUri = (given m.record.sourceUri).or (m.record.fields.display? Key.sourceUri)
  docId : s.docId = (given m.record.docId).or (m.record.fields.display? Key.docId)
  span : s.chunk.start < s.chunk.stop
  placed : m.record.StandsAt s.chunk.start s.chunk.stop ∨
    (∀ start stop, ¬ m.record.StandsAt start stop) ∧
      s.chunk.start = 0 ∧ s.chunk.stop = max m.record.text.length 1

theorem positions_cases (start stop : Option Int) (length : Nat) :
    (∃ first last : Nat, start = some (first : Int) ∧ stop = some (last : Int) ∧ first < last ∧
      positions start stop length = (first, last)) ∨
    ((∀ first last : Nat, start = some (first : Int) → stop = some (last : Int) → ¬ first < last) ∧
      positions start stop length = (0, max length 1)) := by
  by_cases h : ∃ first last : Nat, start = some (first : Int) ∧ stop = some (last : Int) ∧
      first < last
  · obtain ⟨first, last, rfl, rfl, hlt⟩ := h
    exact Or.inl ⟨first, last, rfl, rfl, hlt, positions_of_lt hlt length⟩
  · refine Or.inr ⟨fun first last hfirst hlast hlt => h ⟨first, last, hfirst, hlast, hlt⟩, ?_⟩
    unfold positions
    split
    · next first last =>
      refine if_neg fun husable => h ⟨first.toNat, last.toNat, ?_, ?_, ?_⟩
      · rw [Int.toNat_of_nonneg husable.1]
      · rw [Int.toNat_of_nonneg (husable.1.trans husable.2.le)]
      · omega
    · rfl

def tell (m : Match) (start stop : Option Int) : Source where
  chunk :=
    ⟨(given m.record.chunkId).getD m.record.id, m.record.text,
      (positions start stop m.record.text.length).1,
      (positions start stop m.record.text.length).2, m.record.metadata.filter (!·.isEmpty)⟩
  score := m.score
  sourceUri := (given m.record.sourceUri).or (m.record.fields.display? Key.sourceUri)
  docId := (given m.record.docId).or (m.record.fields.display? Key.docId)

theorem reference_cases (fields : Fields) (name : Option String) (key : String) :
    (fields.reference name key = .ok ((given name).or (fields.display? key)) ∧
        ¬ (given name = none ∧ fields.isLegible key = false)) ∨
      (fields.reference name key = .error Value.tooLong ∧
        given name = none ∧ fields.isLegible key = false) := by
  unfold Fields.reference Fields.text?
  cases given name with
  | some s => exact .inl ⟨rfl, fun h => by cases h.1⟩
  | none => cases fields.isLegible key <;> simp

theorem ofMatch_eq (m : Match) :
    ofMatch m = (m.record.fields.int? Key.startIndex).bind fun start =>
      (m.record.fields.int? Key.endIndex).bind fun stop =>
        (m.record.fields.reference m.record.sourceUri Key.sourceUri).bind fun source =>
          (m.record.fields.reference m.record.docId Key.docId).map fun doc =>
            { tell m start stop with sourceUri := source, docId := doc } := by
  unfold ofMatch
  dsimp only
  cases m.record.fields.int? Key.startIndex with
  | error => rfl
  | ok =>
      cases m.record.fields.int? Key.endIndex with
      | error => rfl
      | ok =>
          cases m.record.fields.reference m.record.sourceUri Key.sourceUri with
          | error => rfl
          | ok => cases m.record.fields.reference m.record.docId Key.docId <;> rfl

theorem tells_tell {m : Match} {start stop : Option Int}
    (hstart : m.record.fields.int? Key.startIndex = .ok start)
    (hstop : m.record.fields.int? Key.endIndex = .ok stop) : Tells m (tell m start stop) := by
  have hstands {first last : Nat} : m.record.StandsAt first last ↔
      start = some (first : Int) ∧ stop = some (last : Int) ∧ first < last := by
    rw [Record.StandsAt, hstart, hstop, Except.ok.injEq, Except.ok.injEq]
  rcases positions_cases start stop m.record.text.length with
    ⟨first, last, hfirst, hlast, hlt, heq⟩ | ⟨hnone, heq⟩
  · have hplaced : (tell m start stop).chunk.start = first ∧
        (tell m start stop).chunk.stop = last := by
      rw [tell, heq]
      exact ⟨rfl, rfl⟩
    refine ⟨rfl, rfl, rfl, rfl, rfl, rfl, ?_, Or.inl ?_⟩
    · rwa [hplaced.1, hplaced.2]
    · rw [hplaced.1, hplaced.2]
      exact hstands.2 ⟨hfirst, hlast, hlt⟩
  · have hwhole : (tell m start stop).chunk.start = 0 ∧
        (tell m start stop).chunk.stop = max m.record.text.length 1 := by
      rw [tell, heq]
      exact ⟨rfl, rfl⟩
    refine ⟨rfl, rfl, rfl, rfl, rfl, rfl, ?_, Or.inr ⟨fun first last h => ?_, hwhole⟩⟩
    · rw [hwhole.1, hwhole.2]
      exact Nat.lt_of_lt_of_le Nat.one_pos (Nat.le_max_right _ _)
    · obtain ⟨hfirst, hlast, hlt⟩ := hstands.1 h
      exact hnone first last hfirst hlast hlt

theorem ofMatch_cases (m : Match) :
    (∀ fault, ¬ m.record.Untold fault) ∧ (∃ s, ofMatch m = .ok s ∧ Tells m s) ∨
      ∃ fault, m.record.Untold fault ∧ ofMatch m = .error fault := by
  rw [ofMatch_eq]
  cases hstart : m.record.fields.int? Key.startIndex with
  | error fault =>
      obtain ⟨x, hx, rfl⟩ := Fields.int?_eq_error_iff.1 hstart
      exact Or.inr ⟨_, .misplaced (Or.inl hx), rfl⟩
  | ok start =>
  cases hstop : m.record.fields.int? Key.endIndex with
  | error fault =>
      obtain ⟨x, hx, rfl⟩ := Fields.int?_eq_error_iff.1 hstop
      exact Or.inr ⟨_, .misplaced (Or.inr hx), rfl⟩
  | ok stop =>
  rcases reference_cases m.record.fields m.record.sourceUri Key.sourceUri with
    ⟨hsource, hnamed⟩ | ⟨hsource, hunnamed⟩
  · rcases reference_cases m.record.fields m.record.docId Key.docId with
      ⟨hdoc, hnamed'⟩ | ⟨hdoc, hunnamed⟩
    · rw [hsource, hdoc]
      refine Or.inl ⟨?_, _, rfl, tells_tell hstart hstop⟩
      rintro _ (hx | hx)
      · rcases hx with hx | hx
        · cases hstart.symm.trans (Fields.int?_eq_error_iff.2 ⟨_, hx, rfl⟩)
        · cases hstop.symm.trans (Fields.int?_eq_error_iff.2 ⟨_, hx, rfl⟩)
      · exact hx.elim hnamed hnamed'
    · rw [hsource, hdoc]
      exact Or.inr ⟨_, .unnamed (Or.inr hunnamed), rfl⟩
  · rw [hsource]
    exact Or.inr ⟨_, .unnamed (Or.inl hunnamed), rfl⟩

theorem mapM_cases (found : List Match) :
    (∀ m ∈ found, ∀ fault, ¬ m.record.Untold fault) ∧
        (∃ sources : List Source, (found.mapM ofMatch : Outcome (List Source)) = .ok sources ∧
          List.Forall₂ Tells found sources) ∨
      ∃ m ∈ found, ∃ fault, m.record.Untold fault ∧
        (found.mapM ofMatch : Outcome (List Source)) = .error fault := by
  rcases Outcome.mapM_cases ofMatch found with
    ⟨sources, hsources, hmap⟩ | ⟨m, hm, fault, hfault, hlog⟩
  · have hread (m : Match) (hm : m ∈ found) :
        (∀ fault, ¬ m.record.Untold fault) ∧ ∃ s, ofMatch m = .ok s ∧ Tells m s := by
      obtain ⟨s, hs⟩ := Outcome.exists_ok_of_map_eq hmap hm
      refine (ofMatch_cases m).resolve_right fun ⟨fault, _, herror⟩ => ?_
      cases hs.symm.trans herror
    have hpairs : List.Forall₂ (fun m s => ofMatch m = .ok s) found sources := by
      rwa [← List.forall₂_eq_eq_eq, List.forall₂_map_left_iff, List.forall₂_map_right_iff] at hmap
    have htells := ((List.forall₂_and_left found sources).2 ⟨hread, hpairs⟩).imp
      fun m s ⟨⟨_, t, ht, htells⟩, hs⟩ => Except.ok.inj (ht.symm.trans hs) ▸ htells
    exact Or.inl ⟨fun m hm => (hread m hm).1, sources, hsources, htells⟩
  · rcases ofMatch_cases m with ⟨-, s, hs, -⟩ | ⟨fault', huntold, herror⟩
    · cases hs.symm.trans hfault
    · obtain rfl := Except.error.inj (hfault.symm.trans herror)
      exact Or.inr ⟨m, hm, _, huntold, hlog⟩

end Source

theorem Search.isWellFormed_scope {s : Search}
    (h : ∀ f, s.filter = some f → f.isWellFormed = true) : s.scope.isWellFormed = true := by
  unfold scope
  cases hf : s.filter with
  | none => rfl
  | some f =>
      have hwf := h f hf
      simp [Filter.isWellFormed, Filter.areWellFormed, Filter.ofTenant, Filter.equals, hwf]

/-- The filter of a search cannot be told only of records of its tenant, and only if a filter that
was asked for cannot. -/
theorem Search.illegible_of_scope {s : Search}
    (h : ∀ f, s.filter = some f → f.isWellFormed = true) {r : Record} {fault : Fault}
    (hfault : s.scope.evaluate r.fields = .error fault) :
    r.inScope s.tenant = true ∧ ∃ f, s.filter = some f ∧ f.isLegible r.fields = false := by
  have htenant := Record.evaluate_ofTenant s.tenant r
  unfold scope at hfault
  cases hf : s.filter with
  | none =>
      rw [hf] at hfault
      cases htenant.symm.trans hfault
  | some f =>
      rw [hf] at hfault
      simp only [Filter.evaluate, Filter.evaluateAll, htenant] at hfault
      cases hscope : r.inScope s.tenant with
      | false =>
          rw [hscope] at hfault
          cases hfault
      | true =>
          refine ⟨rfl, f, rfl, ?_⟩
          rcases Filter.evaluate_cases (h f hf) r.fields with heval | ⟨-, hlegible⟩
          · rw [hscope, heval] at hfault
            cases haccepts : f.accepts r.fields <;> rw [haccepts] at hfault <;> cases hfault
          · exact hlegible

variable {ω : Type} {memory : ω → Memory} {put : Memory → ω → ω} {w w' : ω}

/-- A search for a tenant finds what is stored, whatever its metadata, and tells where each text
stands. It fails if a record that is found cannot be told: it holds an infinite double, or one that
is no number, as one of its positions, or names its source or its document by a number that has no
text. And it fails if the filter wants the text of such a number of a record of the tenant. -/
theorem Retriever.retrieves_placed {r : Retriever ω} {s : Search}
    (hstore : r.store = Memory.backend.within memory put)
    (htenant : Tenant.isValidId s.tenant = true)
    (hfilter : ∀ f, s.filter = some f → f.isWellFormed = true)
    {vector : Embedding} {others : List Embedding}
    (hembed : (r.route.select s.tenant).embed [s.query] w = (.ok (vector :: others), w')) :
    (∃ found, (memory w').search (s.lookup vector) = .ok found ∧
      (∀ m ∈ found, m.record ∈ ((memory w').records s.collection).values ∧
        s.scope.accepts m.record.fields = true) ∧
      ((∀ m ∈ found, ∀ fault, ¬ m.record.Untold fault) → ∃ sources,
        r.retrieve s w = (.ok ⟨sources, vector⟩, put (memory w') w') ∧
          List.Forall₂ Source.Tells found sources) ∧
      ((∃ m ∈ found, ∃ fault, m.record.Untold fault) → ∃ m ∈ found, ∃ fault,
        m.record.Untold fault ∧ r.retrieve s w = (.error fault, put (memory w') w'))) ∨
    (∃ q ∈ ((memory w').records s.collection).values, q.inScope s.tenant = true ∧
      (∃ f, s.filter = some f ∧ f.isLegible q.fields = false) ∧
      r.retrieve s w = (.error Value.tooLong, put (memory w') w')) := by
  have hretrieve := retrieve_eq hstore htenant hembed
  rcases Memory.search_cases (q := s.lookup vector) rfl (Search.isWellFormed_scope hfilter)
    (memory w') with ⟨found, hfound, hmem⟩ | ⟨hsearch, q, hq, hfault⟩
  · have hstored (m : Match) (hm : m ∈ found) :
        m.record ∈ ((memory w').records s.collection).values ∧ s.scope.accepts m.record.fields = true :=
      (List.mem_filter.1 (hmem m hm)).imp_right
        (Filter.accepts_of_passes (Search.isWellFormed_scope hfilter))
    refine .inl ⟨found, hfound, hstored, ?_⟩
    rw [hfound, Outcome.bind_ok] at hretrieve
    rw [hretrieve]
    rcases Source.mapM_cases found with
      ⟨htold, sources, hsources, htells⟩ | ⟨m, hm, fault, huntold, herror⟩
    · rw [hsources]
      exact ⟨fun _ => ⟨sources, rfl, htells⟩,
        fun ⟨m, hm, fault, huntold⟩ => absurd huntold (htold m hm fault)⟩
    · rw [herror]
      exact ⟨fun h => absurd huntold (h m hm fault), fun _ => ⟨m, hm, fault, huntold, rfl⟩⟩
  · obtain ⟨hscope, hillegible⟩ := Search.illegible_of_scope hfilter hfault
    rw [hsearch] at hretrieve
    exact .inr ⟨q, hq, hscope, hillegible, hretrieve⟩

theorem Retriever.retrieves_far_and_nameless :
    let route : Routing Memory := ⟨⟨"unit", fun texts => pure (texts.map fun _ => [1])⟩, []⟩
    let r : Retriever Memory := ⟨route, Memory.backend⟩
    let record (id : String) (more : Fields) : Record :=
      ⟨id, [1], "alpha", some ((Key.tenantId, .text "acme") :: more), none, none, none, none, none⟩
    let m := (Memory.empty "default").store
      [record "a" [(Key.startIndex, .int (10 ^ 40)), (Key.endIndex, .int (10 ^ 40 + 5))],
        record "b" [(Key.startIndex, .text "first"), ("weight", .real (0 / 0))]] none
    let s : Search := ⟨"alpha", "acme", 5, some (.not (Filter.equals "weight" (.int 1))), none⟩
    ∃ found sources, m.search (s.lookup [1]) = .ok found ∧
      r.retrieve s m = (.ok ⟨sources, [1]⟩, m) ∧ List.Forall₂ Source.Tells found sources := by
  intro route r record m s
  have hfilter : ∀ f, s.filter = some f → f.isWellFormed = true := by
    rintro f ⟨⟩
    rfl
  have hstore : r.store = Memory.backend.within id fun m _ => m := rfl
  have hembed : (r.route.select s.tenant).embed [s.query] m = (.ok [[1]], m) := rfl
  have hlegible : ∀ q ∈ (m.records none).values,
      (Filter.not (Filter.equals "weight" (.int 1))).isLegible q.fields = true := by
    decide +kernel
  have hread : ∀ q ∈ (m.records none).values, (q.fields.int? Key.startIndex).isOk ∧
      (q.fields.int? Key.endIndex).isOk ∧ q.fields.isLegible Key.sourceUri ∧
      q.fields.isLegible Key.docId := by
    decide +kernel
  rcases retrieves_placed hstore (by decide +kernel) hfilter hembed with
    ⟨found, hfound, hstored, htold, -⟩ | ⟨q, hq, -, ⟨f, hf, hillegible⟩, -⟩
  · have hall : ∀ x ∈ found, ∀ fault, ¬ x.record.Untold fault := by
      rintro x hx _ ((hy | hy) | (hy | hy))
      all_goals obtain ⟨hstart, hstop, hsource, hdoc⟩ := hread x.record (hstored x hx).1
      · rw [Fields.int?_eq_error_iff.2 ⟨_, hy, rfl⟩] at hstart
        cases hstart
      · rw [Fields.int?_eq_error_iff.2 ⟨_, hy, rfl⟩] at hstop
        cases hstop
      · cases hy.2.symm.trans hsource
      · cases hy.2.symm.trans hdoc
    obtain ⟨sources, hretrieve, htells⟩ := htold hall
    exact ⟨found, sources, hfound, hretrieve, htells⟩
  · obtain rfl := Option.some.inj hf
    cases hillegible.symm.trans (hlegible q hq)

/-- A text that is said to begin at infinity cannot be found. -/
theorem Retriever.infinite_position_stops_search :
    let route : Routing Memory := ⟨⟨"unit", fun texts => pure (texts.map fun _ => [1])⟩, []⟩
    let r : Retriever Memory := ⟨route, Memory.backend⟩
    let m := (Memory.empty "default").store [⟨"a", [1], "alpha", some [(Key.tenantId, .text "acme"),
      (Key.startIndex, .real (1 / 0)), (Key.endIndex, .int 5)], none, none, none, none, none⟩] none
    let found := (r.retrieve ⟨"alpha", "acme", 5, none, none⟩ m).1
    found.map (·.sources.length) =
      .error (.overflow "cannot convert float infinity to integer") := by
  decide +kernel

end Retrieval
