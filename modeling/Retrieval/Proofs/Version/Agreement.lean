import Mathlib.Algebra.Order.Ring.Int
import Mathlib.Data.List.Nodup
import Retrieval.Proofs.Index.Filled
import Retrieval.Proofs.Value.Stored
import Retrieval.Proofs.Version.Groups

/-!
# The history of a document and its single versions

On a store that was filled by indexing, listing the versions of a document and looking one of them
up read the same records. The list gives every version once, newest first and versions of one age in
the order of their first records, and no record of a version is lost.
-/

namespace Retrieval

open Time

namespace Version

section Sorting

variable {α : Type} {le : α → α → Bool} {l : List α} {a b : α}

theorem pair_sublist_or (ha : a ∈ l) (hb : b ∈ l) (hne : a ≠ b) :
    [a, b].Sublist l ∨ [b, a].Sublist l := by
  induction l with
  | nil => cases ha
  | cons x rest ih =>
      rcases List.mem_cons.1 ha with rfl | ha'
      · left
        have hb' : b ∈ rest := (List.mem_cons.1 hb).resolve_left hne.symm
        exact (List.singleton_sublist.2 hb').cons_cons a
      · rcases List.mem_cons.1 hb with rfl | hb'
        · right
          exact (List.singleton_sublist.2 ha').cons_cons b
        · exact (ih ha' hb').imp (·.cons x) (·.cons x)

theorem pair_sublist_asymm (hl : l.Nodup) (h : [a, b].Sublist l) : ¬ [b, a].Sublist l := by
  induction l with
  | nil => cases h
  | cons x rest ih =>
      obtain ⟨hx, hrest⟩ := List.nodup_cons.1 hl
      intro hback
      cases h with
      | cons _ h =>
          cases hback with
          | cons _ hback => exact ih hrest h hback
          | cons_cons _ _ => exact hx (h.subset (by simp))
      | cons_cons _ h =>
          cases hback with
          | cons _ hback => exact hx (hback.subset (by simp))
          | cons_cons _ _ => exact hx (h.subset (by simp))

/-- Of two that a sort takes for equal, the one that came first still comes first. -/
theorem pairwise_mergeSort_of_nodup
    (htrans : ∀ a b c, le a b = true → le b c = true → le a c = true)
    (htotal : ∀ a b, (le a b || le b a) = true) (hl : l.Nodup) :
    (l.mergeSort le).Pairwise fun a b => le a b = true ∧ (le b a = true → [a, b].Sublist l) := by
  rw [List.pairwise_iff_forall_sublist]
  intro a b hab
  have hle := List.pairwise_iff_forall_sublist.1 (List.pairwise_mergeSort htrans htotal l) hab
  have hperm := List.mergeSort_perm l le
  have hsorted : (l.mergeSort le).Nodup := hperm.nodup_iff.2 hl
  refine ⟨hle, fun hback => ?_⟩
  have hne : a ≠ b := List.pairwise_iff_forall_sublist.1 hsorted hab
  have ha : a ∈ l := hperm.subset (hab.subset (by simp))
  have hb : b ∈ l := hperm.subset (hab.subset (by simp))
  rcases pair_sublist_or ha hb hne with h | h
  · exact h
  · have hba := List.pair_sublist_mergeSort htrans htotal hback h
    exact absurd hba (pair_sublist_asymm hsorted hab)

end Sorting

theorem find?_eq_of_perm {l l' : List Version} (h : l.Perm l') (hl : (l.map (·.id)).Nodup)
    (version : String) : l.find? (·.id == version) = l'.find? (·.id == version) := by
  induction h with
  | nil => rfl
  | cons v _ ih =>
      rw [List.find?_cons, List.find?_cons, ih (List.nodup_cons.1 hl).2]
  | swap v u rest =>
      have hne : u.id ≠ v.id := by
        intro he
        refine (List.nodup_cons.1 hl).1 ?_
        show u.id ∈ _
        rw [he]
        exact List.mem_cons_self
      by_cases hv : v.id = version
      · have hu : u.id ≠ version := fun he => hne (he.trans hv.symm)
        rw [List.find?_cons_of_neg (by simpa using hu), List.find?_cons_of_pos (by simpa using hv),
          List.find?_cons_of_pos (by simpa using hv)]
      · by_cases hu : u.id = version
        · rw [List.find?_cons_of_pos (by simpa using hu),
            List.find?_cons_of_neg (by simpa using hv), List.find?_cons_of_pos (by simpa using hu)]
        · rw [List.find?_cons_of_neg (by simpa using hu),
            List.find?_cons_of_neg (by simpa using hv), List.find?_cons_of_neg (by simpa using hv),
            List.find?_cons_of_neg (by simpa using hu)]
  | trans h _ ih ih' => exact (ih hl).trans (ih' ((h.map _).nodup_iff.1 hl))

/-- Versions are listed newest first, and those of one age in the order of their groups. -/
theorem pairwise_ofRecords (tenant doc : String) (now : Moment) (records : List Record)
    {age : Version → Int} (h : ∀ a ∈ made tenant doc now (groups records),
      ∀ b ∈ made tenant doc now (groups records),
        a.createdAt.compare b.createdAt = compareInts (age a) (age b)) :
    (ofRecords tenant doc now records).Pairwise fun a b =>
      age b < age a ∨ age a = age b ∧ firstOf a.id records < firstOf b.id records := by
  have hids := map_id_made_groups tenant doc now records
  have hnodup : (made tenant doc now (groups records)).Nodup := by
    have hkeys := nodup_keys_groups records
    rw [← hids] at hkeys
    exact List.Nodup.of_map _ hkeys
  have hplaces : (made tenant doc now (groups records)).Pairwise fun a b =>
      firstOf a.id records < firstOf b.id records := by
    have hkeys := pairwise_keys_groups records
    rwa [← hids, List.pairwise_map] at hkeys
  rw [ofRecords_eq_of_follows h]
  refine (pairwise_mergeSort_of_nodup ?_ ?_ hnodup).imp ?_
  · intro a b c hab hbc
    simp only [decide_eq_true_eq] at hab hbc ⊢
    omega
  · intro a b
    simp only [Bool.or_eq_true, decide_eq_true_eq]
    omega
  · intro a b hab
    simp only [decide_eq_true_eq] at hab
    obtain ⟨hnewer, htie⟩ := hab
    by_cases hback : age a ≤ age b
    · exact Or.inr ⟨by omega, List.pairwise_iff_forall_sublist.1 hplaces (htie hback)⟩
    · exact Or.inl (by omega)

section Lookup

variable {m : Memory} {r : Record}

theorem ofRecord?_of_isIndexed (h : r.IsIndexed) : ofRecord? r = given r.versionId := by
  obtain ⟨o, createdAt, c, v, rfl⟩ := h
  rw [ofRecord?, Fields.display?, Record.get?_versionId_ofChunk]
  show given ((given o.versionId).or _) = given o.versionId
  cases hv : given o.versionId with
  | none => rfl
  | some version =>
      rw [← hv]
      exact (congrArg given (by rw [hv]; rfl)).trans (given_given o.versionId)

theorem isTold_of_isIndexed (h : r.IsIndexed) : isTold r = true := by
  obtain ⟨o, createdAt, c, v, rfl⟩ := h
  have hlegible : (Record.ofChunk o createdAt c v).fields.isLegible Key.versionId = true := by
    rw [Fields.isLegible, Record.get?_versionId_ofChunk]
    cases given o.versionId <;> rfl
  rw [isTold, hlegible, Bool.or_true]

theorem firstOf_eq {records : List Record} (h : ∀ r ∈ records, ofRecord? r = given r.versionId)
    (version : String) :
    firstOf version records = records.findIdx fun r => given r.versionId == some version := by
  induction records with
  | nil => rfl
  | cons r rest ih =>
      obtain ⟨hr, hrest⟩ := List.forall_mem_cons.1 h
      rw [firstOf] at ih ⊢
      rw [List.findIdx_cons, List.findIdx_cons, hr, ih hrest]

theorem accepts_scope (h : r.IsIndexed) (tenant doc : String) :
    (Filter.all (scope tenant doc)).accepts r.fields = r.isOf tenant doc := by
  rw [← h.bears_identity]
  simp only [scope, Filter.accepts, Filter.acceptsAll, Record.accepts_equals, Bool.and_true]

theorem accepts_scope_version (h : r.IsIndexed) (tenant doc version : String) :
    (Filter.all (scope tenant doc ++ [.equals Key.versionId (.text version)])).accepts r.fields =
      (r.isOf tenant doc && ofRecord? r == some version) := by
  rw [← h.bears_identity, ofRecord?_of_isIndexed h, ← h.bears_versionId]
  simp only [scope, List.cons_append, List.nil_append, Filter.accepts, Filter.acceptsAll,
    Record.accepts_equals, Bool.and_true, Bool.and_assoc]

theorem isLegible_scope (tenant doc : String) (fields : Fields) :
    (Filter.all (scope tenant doc)).isLegible fields = true := by
  simp [scope, Filter.isLegible, Filter.areLegible, Filter.isLegible_equals_text]

theorem isLegible_scope_version (tenant doc version : String) (fields : Fields) :
    (Filter.all (scope tenant doc ++ [.equals Key.versionId (.text version)])).isLegible fields =
      true := by
  simp [scope, Filter.isLegible, Filter.areLegible, Filter.isLegible_equals_text]

theorem fetch_eq (filters : List Filter) (hf : (Filter.all filters).isWellFormed = true)
    (hlegible : ∀ fields, (Filter.all filters).isLegible fields = true)
    (tenant : String) (c : Option String) (m : Memory) :
    fetch Memory.backend tenant filters c m = (.ok (((m.records c).values.filter fun r =>
      (Filter.all filters).accepts r.fields).take 10000), m) := by
  have hquery : Memory.backend.query (.listing (.all filters) tenant c) m =
      (.ok ((((m.records c).values.filter fun r => (Filter.all filters).accepts r.fields).take
        10000).map fun r => ⟨r, 1⟩), m) :=
    congrArg (·, m) (Memory.search_listing hf hlegible m tenant c)
  rw [fetch, Action.bind_ok hquery, List.map_map]
  exact congrArg (fun records => (Except.ok records, m)) (List.map_id _)

variable {tenant doc : String} (hm : m.Filled) (ht : Tenant.isValidId tenant = true)
  (c : Option String) (now : Moment)
  (hfew : ((m.records c).values.filter (·.isOf tenant doc)).length ≤ 10000)

include hm ht hfew

theorem list_eq : list Memory.backend (fun _ => now) tenant doc c m =
    (.ok (ofRecords tenant doc now ((m.records c).values.filter (·.isOf tenant doc))), m) := by
  have hscope : (m.records c).values.filter
      (fun r => (Filter.all (scope tenant doc)).accepts r.fields) =
        (m.records c).values.filter (·.isOf tenant doc) :=
    List.filter_congr fun r hr => accepts_scope (hm.isIndexed hr) tenant doc
  have hfetch := fetch_eq (scope tenant doc) rfl (isLegible_scope tenant doc) tenant c m
  rw [hscope, List.take_of_length_le hfew] at hfetch
  have htenant : (liftM (Tenant.checkId (some tenant)) : Action Memory String) m =
      (.ok tenant, m) := congrArg (·, m) (Tenant.checkId_of_isValidId ht)
  have htold : ((m.records c).values.filter (·.isOf tenant doc)).all isTold = true :=
    List.all_eq_true.2 fun r hr => isTold_of_isIndexed (hm.isIndexed (List.mem_filter.1 hr).1)
  rw [list, Action.bind_ok htenant, Action.bind_ok hfetch, if_pos htold,
    Action.bind_ok (Action.read_apply _ m)]
  rfl

theorem find?_eq (version : String) : find? Memory.backend (fun _ => now) tenant doc version c m =
    (.ok (ofGroup? tenant doc now version
      (members version ((m.records c).values.filter (·.isOf tenant doc)))), m) := by
  have hscope : (m.records c).values.filter (fun r => (Filter.all (scope tenant doc ++
      [.equals Key.versionId (.text version)])).accepts r.fields) =
        members version ((m.records c).values.filter (·.isOf tenant doc)) := by
    rw [members, List.filter_filter]
    refine List.filter_congr fun r hr => ?_
    rw [accepts_scope_version (hm.isIndexed hr), Bool.and_comm]
  have hlength : (members version ((m.records c).values.filter (·.isOf tenant doc))).length ≤
      10000 := Nat.le_trans (List.length_filter_le _ _) hfew
  have hfetch := fetch_eq (scope tenant doc ++ [.equals Key.versionId (.text version)]) rfl
    (isLegible_scope_version tenant doc version) tenant c m
  rw [hscope, List.take_of_length_le hlength] at hfetch
  have htenant : (liftM (Tenant.checkId (some tenant)) : Action Memory String) m =
      (.ok tenant, m) := congrArg (·, m) (Tenant.checkId_of_isValidId ht)
  rw [find?, Action.bind_ok htenant, Action.bind_ok hfetch]
  cases members version ((m.records c).values.filter (·.isOf tenant doc)) with
  | nil => rfl
  | cons first others => rfl

end Lookup

end Version

end Retrieval
