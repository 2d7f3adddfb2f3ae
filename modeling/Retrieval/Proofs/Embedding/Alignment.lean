import Mathlib.Algebra.Order.Ring.Int
import Mathlib.Data.List.Forall2
import Mathlib.Data.List.Perm.Subperm
import Retrieval.Proofs.Embedding.Exchange

/-!
# Which text a vector belongs to

Texts are sent in slices, and the items of an answer name the positions of their texts in the slice.
If the items of every answer name each position once, the vectors stand in the order of the texts.
The number of vectors is compared with the number of texts only when all answers are together: an
answer that names a position twice, or one too long beside one too short, goes unnoticed, and then
some vector is not that of its text.
-/

namespace Retrieval

namespace EmbeddingModel

theorem flatten_slices {α : Type} {size : Nat} (hsize : 0 < size) (items : List α) :
    (slices size items).flatten = items := by
  fun_induction slices size items with
  | case1 items h =>
      simp only [Bool.or_eq_true, List.isEmpty_iff, decide_eq_true_eq] at h
      rw [h.resolve_right (by omega), List.flatten_nil]
  | case2 items h ih => rw [List.flatten_cons, ih, List.take_append_drop]

theorem bounds_of_mem_slices {α : Type} {size : Nat} {items part : List α}
    (h : part ∈ slices size items) : part ≠ [] ∧ part.length ≤ size := by
  fun_induction slices size items with
  | case1 items _ => cases h
  | case2 items hsome ih =>
      rcases List.mem_cons.1 h with rfl | h
      · simp only [Bool.or_eq_true, List.isEmpty_iff, decide_eq_true_eq, not_or] at hsome
        refine ⟨fun hnil => ?_, List.length_take_le _ _⟩
        rcases List.take_eq_nil_iff.1 hnil with hsize | hitems
        · exact hsome.2 hsize
        · exact hsome.1 hitems
      · exact ih h

def positions (count : Nat) : List Int := (List.range count).map fun i : Nat => (i : Int)

@[simp] theorem length_positions (count : Nat) : (positions count).length = count := by
  simp [positions]

theorem mem_positions {count : Nat} {n : Int} :
    n ∈ positions count ↔ ∃ i : Nat, i < count ∧ (i : Int) = n := by
  simp [positions]

theorem pairwise_positions (count : Nat) : (positions count).Pairwise (· < ·) := by
  rw [positions, List.pairwise_map]
  exact List.pairwise_lt_range.imp fun h => Int.ofNat_lt.2 h

theorem nodup_positions (count : Nat) : (positions count).Nodup :=
  (pairwise_positions count).imp fun h => Int.ne_of_lt h

theorem map_index_sorted {items : List EmbeddingItem} {count : Nat}
    (h : (items.map (·.index)).Perm (positions count)) :
    (items.mergeSort fun a b => a.index ≤ b.index).map (·.index) = positions count := by
  have hsorted : (items.mergeSort fun a b => a.index ≤ b.index).Pairwise
      fun a b => decide (a.index ≤ b.index) = true :=
    List.pairwise_mergeSort (fun a b c hab hbc => by simp only [decide_eq_true_eq] at *; omega)
      (fun a b => by simp only [Bool.or_eq_true, decide_eq_true_eq]; omega) items
  have hperm := ((List.mergeSort_perm items fun a b => a.index ≤ b.index).map (·.index)).trans h
  refine List.Perm.eq_of_pairwise (fun a b _ _ hab hba => Int.le_antisymm hab hba) ?_
    ((pairwise_positions count).imp Int.le_of_lt) hperm
  rw [List.pairwise_map]
  exact hsorted.imp of_decide_eq_true

@[simp] theorem length_inOrder (items : List EmbeddingItem) :
    (inOrder items).length = items.length := by
  rw [inOrder, List.length_map, List.length_mergeSort]

end EmbeddingModel

open EmbeddingModel

/-- The place of a text among all that was sent: the exchange, and the position in it. -/
structure Place where
  exchange : Exchange
  position : Nat

namespace Place

def text? (p : Place) : Option String := p.exchange.inputs[p.position]?

def Holds (p : Place) (vector : Embedding) : Prop :=
  ∃ item ∈ p.exchange.items, item.index = p.position ∧ item.vector = vector

end Place

namespace Exchange

variable {e : Exchange} {log : List Exchange}

/-- The items that came back name each position of the inputs once, in any order. -/
def IsComplete (e : Exchange) : Prop := (e.items.map (·.index)).Perm (positions e.inputs.length)

def places (e : Exchange) : List Place := (List.range e.inputs.length).map fun i => ⟨e, i⟩

theorem text?_places (e : Exchange) : e.places.map Place.text? = e.inputs.map some := by
  apply List.ext_getElem
  · simp [places]
  · intro i hi hi'
    simp only [places, List.map_map, List.getElem_map, List.getElem_range, Function.comp_apply,
      Place.text?]
    exact List.getElem?_eq_getElem (by simpa using hi')

theorem length_items_of_isComplete (h : e.IsComplete) : e.items.length = e.inputs.length := by
  simpa using h.length_eq

theorem holds_of_isComplete (h : e.IsComplete) :
    List.Forall₂ Place.Holds e.places (inOrder e.items) := by
  have hindex := map_index_sorted h
  have hmem : ∀ item ∈ e.items.mergeSort fun a b => a.index ≤ b.index, item ∈ e.items :=
    fun item h => (List.mergeSort_perm _ _).subset h
  rw [places, inOrder, List.forall₂_map_left_iff, List.forall₂_map_right_iff]
  generalize e.items.mergeSort (fun a b => a.index ≤ b.index) = sorted at hindex hmem
  have hpairs : List.Forall₂ (fun item (i : Nat) => item.index = (i : Int)) sorted
      (List.range e.inputs.length) := by
    rw [positions, ← List.forall₂_eq_eq_eq, List.forall₂_map_left_iff,
      List.forall₂_map_right_iff] at hindex
    exact hindex
  have hboth := (List.forall₂_and_left sorted _).2 ⟨hmem, hpairs⟩
  exact List.Forall₂.flip (hboth.imp fun item i h => ⟨item, h.1, h.2, rfl⟩)

/-- Where every text has an item, there are at least as many items as texts. -/
theorem positions_subperm (h : ∀ p ∈ e.places, ∃ vector, p.Holds vector) :
    (positions e.inputs.length).Subperm (e.items.map (·.index)) := by
  refine List.subperm_of_subset (nodup_positions _) fun n hn => ?_
  obtain ⟨i, hi, rfl⟩ := mem_positions.1 hn
  have hplace : ⟨e, i⟩ ∈ e.places := List.mem_map.2 ⟨i, List.mem_range.2 hi, rfl⟩
  obtain ⟨vector, item, hitem, hindex, -⟩ := h _ hplace
  exact List.mem_map.2 ⟨item, hitem, hindex⟩

theorem length_inputs_le (h : ∀ e ∈ log, e.inputs.length ≤ e.items.length) :
    (log.flatMap inputs).length ≤ (log.flatMap items).length := by
  induction log with
  | nil => exact Nat.le_refl _
  | cons e rest ih =>
      obtain ⟨he, hrest⟩ := List.forall_mem_cons.1 h
      rw [List.flatMap_cons, List.flatMap_cons, List.length_append, List.length_append]
      exact Nat.add_le_add he (ih hrest)

theorem length_items_le (h : ∀ e ∈ log, e.inputs.length ≤ e.items.length)
    (hcount : (log.flatMap items).length ≤ (log.flatMap inputs).length) :
    ∀ e ∈ log, e.items.length ≤ e.inputs.length := by
  induction log with
  | nil => exact nofun
  | cons e rest ih =>
      obtain ⟨he, hrest⟩ := List.forall_mem_cons.1 h
      have hlater := length_inputs_le hrest
      simp only [List.flatMap_cons, List.length_append] at hcount
      exact List.forall_mem_cons.2 ⟨by omega, ih hrest (by omega)⟩

theorem length_items_of_all_complete (h : ∀ e ∈ log, e.IsComplete) :
    (log.flatMap items).length = (log.flatMap inputs).length := by
  rw [List.length_flatMap, List.length_flatMap]
  exact congrArg List.sum (List.map_congr_left fun e he => length_items_of_isComplete (h e he))

def vectors (log : List Exchange) : List Embedding := log.flatMap fun e => inOrder e.items

theorem length_vectors (log : List Exchange) :
    (vectors log).length = (log.flatMap items).length := by
  rw [vectors, List.length_flatMap, List.length_flatMap]
  exact congrArg List.sum (List.map_congr_left fun e _ => length_inOrder e.items)

theorem holds_vectors (h : ∀ e ∈ log, e.IsComplete) :
    List.Forall₂ Place.Holds (log.flatMap places) (vectors log) := by
  induction log with
  | nil => exact .nil
  | cons e rest ih =>
      obtain ⟨he, hrest⟩ := List.forall_mem_cons.1 h
      exact List.rel_append (holds_of_isComplete he) (ih hrest)

/-- With as many vectors as texts, the vectors are those of the texts exactly if the items of every
answer name each position once. -/
theorem holds_vectors_iff (hcount : (log.flatMap items).length = (log.flatMap inputs).length) :
    List.Forall₂ Place.Holds (log.flatMap places) (vectors log) ↔ ∀ e ∈ log, e.IsComplete := by
  constructor
  · intro h
    have hheld : ∀ e ∈ log, ∀ p ∈ e.places, ∃ vector, p.Holds vector := by
      intro e he p hp
      obtain ⟨i, hi, rfl⟩ := List.getElem_of_mem (List.mem_flatMap.2 ⟨e, he, hp⟩)
      exact ⟨_, h.get hi (h.length_eq ▸ hi)⟩
    have hsubperm := fun e he => positions_subperm (hheld e he)
    have hle : ∀ e ∈ log, e.inputs.length ≤ e.items.length := by
      intro e he
      simpa using (hsubperm e he).length_le
    have hge := length_items_le hle hcount.le
    intro e he
    exact ((hsubperm e he).perm_of_length_le (by simpa using hge e he)).symm
  · exact holds_vectors

end Exchange

namespace EmbeddingModel

variable {ω : Type} (m : EmbeddingModel) (call : EmbeddingService ω) {texts : List String}
  {log : List Exchange} {outcome : Outcome (List Embedding)}

/-- How embedding texts ends, told from the exchanges: with the fault of a call, with the fault that
the numbers differ, or with the vectors of all answers. -/
inductive Ends (texts : List String) (log : List Exchange) : Outcome (List Embedding) → Prop
  | failed {e : Exchange} {failure : Remote.Failure} (he : e ∈ log)
      (hfailure : e.answer = .error failure) : Ends texts log (.error (failure.toFault m.label))
  | uneven (hall : ∀ e ∈ log, e.isAnswered = true)
      (hcount : (log.flatMap Exchange.items).length ≠ texts.length) :
      Ends texts log
        (.error (miscounted m.label texts.length (log.flatMap Exchange.items).length))
  | returned (hall : ∀ e ∈ log, e.isAnswered = true)
      (hcount : (log.flatMap Exchange.items).length = texts.length) :
      Ends texts log (.ok (Exchange.vectors log))

def gather (texts : List String) (parts : List (List Embedding)) : Outcome (List Embedding) :=
  if parts.flatten.length = texts.length then .ok parts.flatten
  else .error (miscounted m.label texts.length parts.flatten.length)

theorem embed_apply (texts : List String) {w w' : ω} {answers : Outcome (List (List Embedding))}
    (h : (slices sliceSize texts).mapM (m.embedSlice call) w = (answers, w')) :
    (m.embedder call).embed texts w = (answers.bind (m.gather texts), w') := by
  show ((slices sliceSize texts).mapM (m.embedSlice call) >>= _) w = _
  rw [Action.bind_apply, h]
  cases answers with
  | error f => rfl
  | ok parts =>
      by_cases hcount : parts.flatten.length = texts.length
      · rw [Except.bind, gather, if_pos hcount]
        exact congrFun (if_pos hcount) w'
      · rw [Except.bind, gather, if_neg hcount]
        exact congrFun (if_neg hcount) w'

theorem ends_of_log (texts : List String) (log : List Exchange) :
    m.Ends texts log ((log.mapM (Exchange.outcome m.label)).bind (m.gather texts)) := by
  rcases Exchange.mapM_outcome_cases m.label log with
    ⟨hall, hlog⟩ | ⟨e, he, failure, hfailure, hlog⟩
  · have hgather : m.gather texts (log.map fun e => inOrder e.items) =
        if (log.flatMap Exchange.items).length = texts.length then .ok (Exchange.vectors log)
        else .error (miscounted m.label texts.length (log.flatMap Exchange.items).length) := by
      rw [gather, ← List.flatMap_def, ← Exchange.length_vectors]
      rfl
    rw [hlog, Except.bind, hgather]
    split
    · next hcount => exact .returned hall hcount
    · next hcount => exact .uneven hall hcount
  · rw [hlog]
    exact .failed he hfailure

/-- What was sent: the texts in order, cut into slices that are not empty and not too long, up to
the first call that failed. -/
structure Sends (texts : List String) (log : List Exchange) : Prop where
  bounds : ∀ e ∈ log, e.inputs ≠ [] ∧ e.inputs.length ≤ sliceSize
  inOrder : log.flatMap Exchange.inputs <+: texts
  all : (∀ e ∈ log, e.isAnswered = true) → log.flatMap Exchange.inputs = texts

theorem sends_of_exchanged (h : m.Exchanged call (slices sliceSize texts) log) :
    Sends texts log := by
  have hflat : log.flatMap Exchange.inputs = (log.map Exchange.inputs).flatten := List.flatMap_def
  have hwhole : (slices sliceSize texts).flatten = texts := flatten_slices (by decide) texts
  refine ⟨fun e he => ?_, ?_, fun hall => ?_⟩
  · exact bounds_of_mem_slices (h.sent.subset (List.mem_map_of_mem he))
  · obtain ⟨later, hlater⟩ := h.sent
    refine ⟨later.flatten, ?_⟩
    rw [hflat, ← List.flatten_append, hlater, hwhole]
  · rw [hflat, h.all_sent hall, hwhole]

theorem exists_log (texts : List String) (w : ω) :
    ∃ outcome w' log, (m.embedder call).embed texts w = (outcome, w') ∧
      (m.embedder call.noted).embed texts (w, []) = (outcome, w', log) ∧
      m.Exchanged call (slices sliceSize texts) log ∧ m.Ends texts log outcome := by
  obtain ⟨w', log, hlog, hplain, hnoted⟩ := m.exists_exchanged call (slices sliceSize texts) w
  exact ⟨_, w', log, m.embed_apply call texts hplain, m.embed_apply call.noted texts (hnoted []),
    hlog, m.ends_of_log texts log⟩

theorem text?_flatMap_places (log : List Exchange) :
    (log.flatMap Exchange.places).map Place.text? = (log.flatMap Exchange.inputs).map some := by
  rw [List.map_flatMap, List.map_flatMap]
  exact congrArg (log.flatMap ·) (funext Exchange.text?_places)

variable {m call}

/-- A service that gives every slice one item for each input, in any order, is understood: the texts
are sent in order, in slices that it takes, and every text gets the vector of the only item that
names its position in its slice. -/
theorem embeds_in_order
    (hservice : ∀ inputs, inputs ≠ [] → inputs.length ≤ sliceSize → ∀ w,
      ∃ items, (call m.name inputs w).1 = .ok items ∧
        (items.map (·.index)).Perm (positions inputs.length))
    (texts : List String) (w : ω) :
    ∃ vectors w' log, (m.embedder call).embed texts w = (.ok vectors, w') ∧
      (m.embedder call.noted).embed texts (w, []) = (.ok vectors, w', log) ∧
      log.flatMap (·.inputs) = texts ∧
      (∀ e ∈ log, e.model = m.name ∧ e.inputs ≠ [] ∧ e.inputs.length ≤ sliceSize) ∧
      (∀ e ∈ log, e.IsComplete) ∧
      (log.flatMap Exchange.places).map Place.text? = texts.map some ∧
      List.Forall₂ Place.Holds (log.flatMap Exchange.places) vectors := by
  obtain ⟨outcome, w', log, hplain, hnoted, hlog, hends⟩ := m.exists_log call texts w
  have hsends := m.sends_of_exchanged call hlog
  have hgood : ∀ e ∈ log, e.isAnswered = true ∧ e.IsComplete := by
    intro e he
    obtain ⟨hne, hle⟩ := hsends.bounds e he
    obtain ⟨w₁, hmade⟩ := hlog.made e he
    obtain ⟨items, hitems, hperm⟩ := hservice e.inputs hne hle w₁
    have hanswer : e.answer = .ok items := by
      rw [hmade]
      exact hitems
    refine ⟨Exchange.isAnswered_of_ok hanswer, ?_⟩
    rw [Exchange.IsComplete, Exchange.items, hanswer]
    exact hperm
  have hall := fun e he => (hgood e he).1
  have hcomplete := fun e he => (hgood e he).2
  have hwhole := hsends.all hall
  have hcount : (log.flatMap Exchange.items).length = texts.length := by
    rw [Exchange.length_items_of_all_complete hcomplete, hwhole]
  cases hends with
  | failed he hfailure => exact absurd (hall _ he) (Exchange.not_isAnswered_of_error hfailure)
  | uneven _ hne => exact absurd hcount hne
  | returned _ _ =>
      refine ⟨_, w', log, hplain, hnoted, hwhole, fun e he => ⟨?_, hsends.bounds e he⟩, hcomplete,
        ?_, Exchange.holds_vectors hcomplete⟩
      · obtain ⟨w₁, hmade⟩ := hlog.made e he
        rw [hmade]
        rfl
      · rw [text?_flatMap_places, hwhole]

/-- Five thousand texts take three calls, and the service answers each of them backwards. -/
theorem embeds_in_order_backwards :
    let call : EmbeddingService Nat := fun _ inputs calls =>
      (.ok ((positions inputs.length).reverse.map fun n => ⟨n, [Float.ofInt n]⟩), calls + 1)
    let m : EmbeddingModel := ⟨EmbeddingModel.standardName, "embedding", true⟩
    let texts := List.replicate 5000 "alpha"
    ∃ vectors calls log, (m.embedder call).embed texts 0 = (.ok vectors, calls) ∧
      (m.embedder call.noted).embed texts (0, []) = (.ok vectors, calls, log) ∧
      log.flatMap (·.inputs) = texts ∧ (∀ e ∈ log, e.inputs.length ≤ sliceSize) ∧
      List.Forall₂ Place.Holds (log.flatMap Exchange.places) vectors := by
  intro call m texts
  have hservice : ∀ inputs, inputs ≠ [] → inputs.length ≤ sliceSize → ∀ calls,
      ∃ items, (call m.name inputs calls).1 = .ok items ∧
        (items.map (·.index)).Perm (positions inputs.length) := by
    intro inputs _ _ calls
    refine ⟨_, rfl, ?_⟩
    rw [List.map_map]
    exact (List.map_id _).symm ▸ List.reverse_perm _
  obtain ⟨vectors, calls, log, hplain, hnoted, hsent, hbounds, -, -, hholds⟩ :=
    embeds_in_order hservice texts 0
  exact ⟨vectors, calls, log, hplain, hnoted, hsent, fun e he => (hbounds e he).2.2, hholds⟩

variable (m call)

/-- What embedding returns is aligned with the texts exactly if the items of every answer name each
position of their slice once. Only the number of all items together is compared with the number of
texts. -/
theorem returns_aligned_iff_complete (texts : List String) (w : ω) :
    ∃ outcome w' log, (m.embedder call).embed texts w = (outcome, w') ∧
      (m.embedder call.noted).embed texts (w, []) = (outcome, w', log) ∧
      Sends texts log ∧ m.Ends texts log outcome ∧
      ∀ vectors, outcome = .ok vectors →
        (log.flatMap Exchange.places).map Place.text? = texts.map some ∧
        (List.Forall₂ Place.Holds (log.flatMap Exchange.places) vectors ↔
          ∀ e ∈ log, e.IsComplete) := by
  obtain ⟨outcome, w', log, hplain, hnoted, hlog, hends⟩ := m.exists_log call texts w
  have hsends := m.sends_of_exchanged call hlog
  refine ⟨outcome, w', log, hplain, hnoted, hsends, hends, ?_⟩
  rintro vectors rfl
  cases hends with
  | returned hall hcount =>
      have hwhole := hsends.all hall
      rw [text?_flatMap_places, hwhole]
      exact ⟨rfl, Exchange.holds_vectors_iff (by rw [hcount, hwhole])⟩

/-- Two items for the first text and none for the second are as many as the texts: the vectors are
returned, the second of them for a text it is not of. -/
theorem repeated_position_is_returned :
    let call : EmbeddingService Unit := fun _ _ w => (.ok [⟨0, [1]⟩, ⟨0, [2]⟩], w)
    let m : EmbeddingModel := ⟨EmbeddingModel.standardName, "embedding", true⟩
    ∃ log, (m.embedder call.noted).embed ["alpha", "beta"] ((), []) = (.ok [[1], [2]], (), log) ∧
      ¬ List.Forall₂ Place.Holds (log.flatMap Exchange.places) [[1], [2]] := by
  intro call m
  let e : Exchange := m.exchange call ["alpha", "beta"] ()
  have hslices : slices sliceSize ["alpha", "beta"] = [["alpha", "beta"]] := by
    simp [slices, sliceSize]
  have horder : inOrder e.items = [[1], [2]] := by
    rw [inOrder, List.mergeSort_of_pairwise]
    · rfl
    · decide
  have hrun : (slices sliceSize ["alpha", "beta"]).mapM (m.embedSlice call.noted) ((), []) =
      (.ok [[[1], [2]]], (), [e]) := by
    have hslice : m.embedSlice call.noted ["alpha", "beta"] ((), []) =
        (.ok [[1], [2]], (), [e]) := by
      rw [embedSlice_noted]
      exact Prod.ext (congrArg Except.ok horder) rfl
    rw [hslices, List.mapM_cons]
    exact Action.bind_ok hslice _
  refine ⟨[e], (m.embed_apply call.noted _ hrun).trans rfl, fun h => ?_⟩
  obtain ⟨item, hitem, hindex, -⟩ := h.get (i := 1) (by decide) (by decide)
  rcases List.mem_pair.1 hitem with rfl | rfl
  · cases hindex
  · cases hindex

end EmbeddingModel

end Retrieval
