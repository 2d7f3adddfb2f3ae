import Mathlib.Data.List.Nodup
import Mathlib.Data.List.Sort
import Retrieval.Proofs.Store.Client
import Retrieval.Proofs.Store.Score

/-!
# A store in front of an ideal client

An ideal client counts, lists, ranks and deletes what it keeps without error: a search gives the
nearest of the items that the clause selects, by their distance. In front of it a query gives just
the first of the items that pass the filter, nearest first, and deleting by a filter removes just
these items, unless an item has no text where one is needed. Scores are cut to an interval, so
distances that differ can share a score; they do not change the order, since what is farther away
never scores higher.
-/

namespace Retrieval

namespace RemoteStore

variable {ω : Type}

structure Ideal (s : RemoteStore ω) extends Faithful s where
  distance : Embedding → Item → Float
  /-- Items in the order of searches. -/
  ranking : Embedding → List Item → List Item
  ranking_perm (vector : Embedding) (items : List Item) : (ranking vector items).Perm items
  ranking_sorted (vector : Embedding) (items : List Item) :
    (ranking vector items).Pairwise fun i j => distance vector i ≤ distance vector j
  count {w : ω} (h : kept w) (name : String) : ∃ w',
    s.client.count name w = (.ok (.int (contents w name).length), w') ∧ kept w' ∧
      contents w' = contents w
  nearest {w : ω} (h : kept w) (name : String) {q : Nearest} {limit : Nat}
    (hlimit : q.count = .int limit) : ∃ answer w',
    s.client.nearest name q w = (.ok answer, w') ∧ kept w' ∧ contents w' = contents w ∧
      Page.TellsNearest answer (distance q.vector)
        (((ranking q.vector (contents w name)).filter fun i =>
          q.clause.all (·.selects i.metadata)).take limit)
  delete {w : ω} (h : kept w) (name : String) (ids : List String) : ∃ w',
    s.client.delete name ids w = (.ok (), w') ∧ kept w' ∧
      (contents w' name = (contents w name).filter fun i => i.id ∉ ids) ∧
      ∀ other, other ≠ name → contents w' other = contents w other

namespace Ideal

variable {s : RemoteStore ω} (v : s.Ideal) {w : ω}

/-- The items in the order of the answers: nearest first, or as they are listed. -/
def order : Option Embedding → List Item → List Item
  | some vector => v.ranking vector
  | none => id

def score : Option Embedding → Item → Float
  | some vector => fun i => clampUnit (1 - v.distance vector i)
  | none => fun _ => 1

def found (vector : Option Embedding) (i : Item) : Match := ⟨i.record, v.score vector i⟩

theorem score_bounds (vector : Option Embedding) (i : Item) :
    0 ≤ v.score vector i ∧ v.score vector i ≤ 1 := by
  cases vector with
  | none =>
      show (0 : Float) ≤ 1 ∧ (1 : Float) ≤ 1
      decide
  | some vector => exact clampUnit_bounds _

theorem pairwise_order (vector : Option Embedding) (items : List Item) :
    (v.order vector items).Pairwise fun i j => v.score vector j ≤ v.score vector i := by
  cases vector with
  | none =>
      apply List.pairwise_of_forall
      intro i j
      show (1 : Float) ≤ 1
      decide
  | some vector => exact (v.ranking_sorted vector items).imp clampUnit_one_sub_antitone

/-- What a search finds is already in the order of the scores, whatever ties they have. -/
theorem sorted_found {vector : Embedding} {items chosen : List Item}
    (h : chosen.Sublist (v.ranking vector items)) :
    (chosen.map (v.found (some vector))).Pairwise fun a b => !(a.score < b.score) := by
  refine List.pairwise_map.2 (((v.pairwise_order (some vector) items).sublist h).imp ?_)
  intro i j hle
  rw [Bool.not_eq_true', decide_eq_false_iff_not]
  exact Number.not_lt_of_le hle

theorem lesser_int (topK n : Int) :
    lesser topK (.int n) = .ok (if n < topK then .int n else .int topK) := by
  rw [lesser]
  dsimp only [Value.number?]
  rw [Number.Extended.compare?_ofInt]
  by_cases hn : n < topK
  · rw [if_pos hn, if_pos rfl, if_pos hn]
  · have hne : some (if n = topK then Ordering.eq else .gt) ≠ some .lt := by
      split_ifs <;> exact nofun
    rw [if_neg hn, if_neg hne, if_neg hn]

theorem exists_limit {α : Type} (split : Split) {topK : Int} (htop : ¬ topK ≤ 0) (n : Nat)
    (k : Value → Action ω α) (w : ω) :
    ∃ limit : Nat, (n ≤ limit ∨ split.residual = none ∧ topK.toNat ≤ limit) ∧
      (if split.residual.isSome then pure (.int n) >>= k
        else liftM (lesser topK (.int n)) >>= k) w = k (.int limit) w := by
  cases hres : split.residual with
  | some f => exact ⟨n, Or.inl (Nat.le_refl n), rfl⟩
  | none =>
      rw [Option.isSome_none, if_neg Bool.false_ne_true, lesser_int]
      by_cases hn : (n : Int) < topK
      · rw [if_pos hn]
        exact ⟨n, Or.inl (Nat.le_refl n), rfl⟩
      · refine ⟨topK.toNat, Or.inr ⟨rfl, Nat.le_refl _⟩, ?_⟩
        rw [if_neg hn, Int.toNat_of_nonneg (by omega)]
        rfl

theorem gather_found {split : Split} {filter : Option Filter} (hsplit : split.Renders filter)
    (vector : Embedding) {fetched : List Item}
    (hscalar : ∀ i ∈ fetched, ∀ e ∈ i.metadata, e.2.isScalar = true) :
    let found : Outcome (List Match) := gather (fun r => do
        let score ← r.score
        let _ ← Column.part r.embedding
        split.found score r) (fetched.map fun i => i.rowAt (v.distance vector i))
    (found = .ok ((fetched.filter fun i => split.residual.all (·.accepts i.metadata)).map
        (v.found (some vector))) ∧
      ∀ i ∈ fetched, i.passes filter = filter.all (·.accepts i.metadata)) ∨
    (found = .error Value.tooLong ∧ ∃ i ∈ fetched, i.isTold filter = false) :=
  gather_cases _ (fun i => i.rowAt (v.distance vector i)) fun i hi =>
    hsplit.found_cases rfl (Row.record_rowAt (hscalar i hi)) (v.score (some vector) i)

theorem passing_eq_nil (vector : Embedding) (items : List Item) (filter : Option Filter)
    {topK : Int} (h : (Value.int items.length).same (.int 0) = true ∨ topK ≤ 0) :
    ((v.ranking vector items).filter (·.passes filter)).take topK.toNat = [] := by
  rcases h with hzero | htop
  · rw [Value.same_int, beq_iff_eq, ← Int.natCast_zero, Int.natCast_inj,
      ← (v.ranking_perm vector items).length_eq, List.length_eq_zero_iff] at hzero
    rw [hzero]
    exact List.take_nil
  · rw [Int.toNat_of_nonpos htop, List.take_zero]

theorem search_renders (h : v.kept w) {split : Split} {filter : Option Filter}
    (hsplit : split.Renders filter) (name : String) (vector : Embedding) (topK : Int)
    (hscalar : ∀ i ∈ v.contents w name, ∀ e ∈ i.metadata, e.2.isScalar = true) :
    ∃ outcome w', s.search name vector topK split w = (outcome, w') ∧
      Item.Gives (v.contents w name) (·.isTold filter) Value.tooLong
        ((((v.ranking vector (v.contents w name)).filter (·.passes filter)).take topK.toNat).map
          (v.found (some vector))) outcome ∧
      v.kept w' ∧ v.contents w' = v.contents w := by
  obtain ⟨w₁, hcount, h₁, hsame₁⟩ := v.count h name
  have hperm := v.ranking_perm vector (v.contents w name)
  unfold RemoteStore.search
  rw [Action.bind_ok hcount]
  by_cases hnone : (Value.int (v.contents w name).length).same (.int 0) = true ∨ topK ≤ 0
  · rw [if_pos hnone, v.passing_eq_nil vector (v.contents w name) filter hnone]
    exact ⟨_, w₁, rfl, .inl rfl, h₁, hsame₁⟩
  · have htop : ¬ topK ≤ 0 := fun htop => hnone (Or.inr htop)
    rw [if_neg hnone]
    obtain ⟨limit, hlimit, hasked⟩ := exists_limit split htop (v.contents w name).length _ w₁
    obtain ⟨answer, w₂, hnearest, h₂, hsame₂, htells⟩ := v.nearest h₁ name
      (q := ⟨vector, .int limit, split.clause,
        [.documents, .metadatas, .distances, .embeddings]⟩) rfl
    rw [hsame₁] at htells
    obtain ⟨fetched, hfetched⟩ : ∃ fetched, fetched = ((v.ranking vector (v.contents w name)).filter
      fun i => split.clause.all (·.selects i.metadata)).take limit := ⟨_, rfl⟩
    rw [← hfetched] at htells
    have hsublist : fetched.Sublist (v.ranking vector (v.contents w name)) :=
      hfetched ▸ (List.take_sublist _ _).trans List.filter_sublist
    have hmem (i : Item) (hi : i ∈ fetched) : i ∈ v.contents w name :=
      hperm.mem_iff.1 (hsublist.subset hi)
    have hsorted := v.sorted_found (List.filter_sublist.trans hsublist :
      (fetched.filter fun i => split.residual.all (·.accepts i.metadata)).Sublist _)
    rw [← hperm.length_eq] at hlimit
    have hcut := hsplit.cut (v.ranking vector (v.contents w name)) hlimit
    rw [← hfetched] at hcut
    rw [hasked]
    dsimp only
    rw [Action.bind_ok hnearest, htells.nearest, Action.bind_ok (Action.lift_apply _ _)]
    dsimp only [Lines.gather]
    rcases v.gather_found hsplit vector fun i hi => hscalar i (hmem i hi) with
      ⟨hread, htold⟩ | ⟨hread, i, hi, huntold⟩
    · rw [hread, Action.bind_ok (Action.lift_apply _ _), List.mergeSort_of_pairwise hsorted,
        ← List.map_take, hcut htold]
      exact ⟨_, w₂, rfl, .inl rfl, h₂, hsame₂.trans hsame₁⟩
    · rw [hread]
      exact ⟨_, w₂, rfl, .inr ⟨rfl, i, hmem i hi, huntold⟩, h₂, hsame₂.trans hsame₁⟩

theorem query_found (h : v.kept w) (c : Option String) {filter : Option Filter}
    (hf : ∀ f, filter = some f → f.isWellFormed = true)
    (hscalar : ∀ i ∈ v.contents w (s.target c), ∀ e ∈ i.metadata, e.2.isScalar = true)
    (vector : Option Embedding) (topK : Int) (tenant : Option String) :
    ∃ outcome w', s.query ⟨vector, topK, filter, tenant, c⟩ w = (outcome, w') ∧
      Item.Gives (v.contents w (s.target c)) (·.isTold filter) (wrap "query" Value.tooLong)
        ((((v.order vector (v.contents w (s.target c))).filter (·.passes filter)).take
          topK.toNat).map (v.found vector)) outcome ∧
      v.kept w' ∧ v.contents w' = v.contents w := by
  cases vector with
  | none => exact v.query_listing h filter hf topK tenant c hscalar
  | some vector =>
      obtain ⟨w₁, hopen, h₁, hsame₁⟩ := v.collection h c
      obtain ⟨split, hsplit, hrenders⟩ := Split.exists_renders filter hf
      rw [← hsame₁] at hscalar
      obtain ⟨outcome, w₂, hsearch, hgives, h₂, hsame₂⟩ :=
        v.search_renders h₁ hrenders (s.target c) vector topK hscalar
      have hrun : (do
          let target ← s.collection c
          let split ← Split.ofFilter filter
          s.search target vector topK split : Action ω (List Match)) w = (outcome, w₂) := by
        rw [Action.bind_ok hopen, hsplit, Action.bind_ok (Action.lift_apply _ _)]
        exact hsearch
      rw [hsame₁] at hgives
      rcases hgives with rfl | ⟨rfl, huntold⟩
      · exact ⟨_, w₂, guarded_ok hrun, .inl rfl, h₂, hsame₂.trans hsame₁⟩
      · exact ⟨_, w₂, guarded_error hrun rfl, .inr ⟨rfl, huntold⟩, h₂, hsame₂.trans hsame₁⟩

theorem filter_not_mem_ids {items : List Item} (hids : (items.map (·.id)).Nodup)
    (p : Item → Bool) : (items.filter fun i => i.id ∉ (items.filter p).map (·.id)) =
      items.filter fun i => !p i := by
  apply List.filter_congr
  intro i hi
  have hmem : i.id ∈ (items.filter p).map (·.id) ↔ p i = true := by
    constructor
    · intro h
      obtain ⟨j, hj, hij⟩ := List.mem_map.1 h
      obtain ⟨hj, hp⟩ := List.mem_filter.1 hj
      rwa [List.inj_on_of_nodup_map hids hj hi hij] at hp
    · exact fun hp => List.mem_map.2 ⟨i, List.mem_filter.2 ⟨hi, hp⟩, rfl⟩
  rw [decide_not, Bool.decide_congr hmem, Bool.decide_coe]

theorem delete_selected (h : v.kept w) (name : String) (p : Item → Bool)
    (hids : ((v.contents w name).map (·.id)).Nodup) : ∃ w',
    (do
      let ids : List String := ((v.contents w name).filter p).map (·.id)
      if !ids.isEmpty then s.client.delete name ids
      return ids.length : Action ω Nat) w = (.ok ((v.contents w name).filter p).length, w') ∧
      v.kept w' ∧ (v.contents w' name = (v.contents w name).filter fun i => !p i) ∧
      ∀ other, other ≠ name → v.contents w' other = v.contents w other := by
  have hleft := filter_not_mem_ids hids p
  obtain ⟨chosen, hchosen⟩ : ∃ chosen, chosen = (v.contents w name).filter p := ⟨_, rfl⟩
  rw [← hchosen] at hleft ⊢
  cases chosen with
  | nil =>
      refine ⟨w, rfl, h, ?_, fun _ _ => rfl⟩
      rw [← hleft]
      exact (List.filter_eq_self.2 fun i _ => decide_eq_true List.not_mem_nil).symm
  | cons i rest =>
      obtain ⟨w', hdelete, h', hself, hothers⟩ := v.delete h name ((i :: rest).map (·.id))
      refine ⟨w', ?_, h', hself.trans hleft, hothers⟩
      have hsome : (!((i :: rest).map (·.id)).isEmpty) = true := rfl
      dsimp only
      rw [if_pos hsome, Action.bind_ok hdelete, List.length_map]
      rfl

theorem delete_filter (h : v.kept w) {f : Filter} (hf : f.isWellFormed = true) (c : Option String)
    (hids : ((v.contents w (s.target c)).map (·.id)).Nodup) : ∃ outcome w',
    s.delete [] c (some f) w = (outcome, w') ∧ v.kept w' ∧
      (outcome = .ok ((v.contents w (s.target c)).filter (·.passes (some f))).length ∧
          (v.contents w' (s.target c) =
            (v.contents w (s.target c)).filter fun i => !i.passes (some f)) ∧
          (∀ other, other ≠ s.target c → v.contents w' other = v.contents w other) ∨
        outcome = .error (wrap "delete" Value.tooLong) ∧ v.contents w' = v.contents w ∧
          ∃ i ∈ v.contents w (s.target c), i.legibleFor (some f) = false) := by
  obtain ⟨w₁, hopen, h₁, hsame₁⟩ := v.collection h c
  obtain ⟨outcome, w₂, hselected, hgives, h₂, hsame₂⟩ := v.selected_ids h₁ hf (s.target c)
  have hsame : v.contents w₂ = v.contents w := hsame₂.trans hsame₁
  have hnone : ¬ (!([] : List String).isEmpty) = true := Bool.false_ne_true
  rw [hsame₁] at hgives
  rcases hgives with rfl | ⟨rfl, i, hi, huntold⟩
  · rw [← hsame] at hids
    obtain ⟨w₃, hdelete, h₃, hself, hothers⟩ :=
      v.delete_selected h₂ (s.target c) (·.passes (some f)) hids
    rw [hsame] at hdelete hself hothers
    refine ⟨_, w₃, guarded_ok ?_, h₃, .inl ⟨rfl, hself, hothers⟩⟩
    rw [Action.bind_ok hopen, if_neg hnone]
    dsimp only
    rw [Action.bind_ok hselected]
    exact hdelete
  · refine ⟨_, w₂, guarded_error ?_ rfl, h₂, .inr ⟨rfl, hsame, i, hi, huntold⟩⟩
    rw [Action.bind_ok hopen, if_neg hnone]
    dsimp only
    rw [Action.bind_error hselected]

end Ideal

end RemoteStore

namespace Shelf

def distance (vector : Embedding) (i : Item) : Float := 1 - cosineSimilarity vector i.vector

instance (vector : Embedding) :
    DecidableRel fun i j : Item => distance vector i ≤ distance vector j :=
  fun _ _ => inferInstance

def ranking (vector : Embedding) (items : List Item) : List Item :=
  items.insertionSort fun i j => distance vector i ≤ distance vector j

def tellingNearest (vector : Embedding) (items : List Item) : Value :=
  .map [("ids", .list [.list (items.map fun i => .text i.id)]),
    ("documents", .list [.list (items.map fun i => .text i.document)]),
    ("metadatas", .list [.list (items.map fun i => .map i.metadata)]),
    ("distances", .list [.list (items.map fun i => .real (distance vector i))]),
    ("embeddings", .list [.list (items.map fun i => .list (i.vector.map .real))])]

def ranked : RemoteStore (String → List Item) :=
  { store with
    client := { client with
      nearest := fun name q => match q.count with
        | .int limit => Action.read fun w =>
            tellingNearest q.vector (((ranking q.vector (w name)).filter fun i =>
              q.clause.all (·.selects i.metadata)).take limit.toNat)
        | _ => throw (.badType "the number of results is not a number") } }

theorem isNumber_distance (vector : Embedding) (i : Item) : Number.IsNumber (distance vector i) :=
  Number.isNumber_one_sub (isNumber_cosineSimilarity vector i.vector)

theorem ranking_sorted (vector : Embedding) (items : List Item) :
    (ranking vector items).Pairwise fun i j => distance vector i ≤ distance vector j := by
  have htotal : Std.Total fun i j : Item => distance vector i ≤ distance vector j :=
    ⟨fun i j => Number.le_total (isNumber_distance vector i) (isNumber_distance vector j)⟩
  have htrans : IsTrans Item fun i j => distance vector i ≤ distance vector j :=
    ⟨fun _ _ _ => Number.le_trans⟩
  exact List.pairwise_insertionSort _ items

def ideal : ranked.Ideal where
  toFaithful := { faithful with }
  distance := distance
  ranking := ranking
  ranking_perm _ items := List.perm_insertionSort _ items
  ranking_sorted := ranking_sorted
  count _ _ := ⟨_, rfl, trivial, rfl⟩
  nearest {w} _ name q limit hlimit := by
    refine ⟨tellingNearest q.vector (((ranking q.vector (w name)).filter fun i =>
      q.clause.all (·.selects i.metadata)).take limit), w, ?_, trivial, rfl,
      ⟨rfl, rfl, rfl, rfl, rfl⟩⟩
    show (match q.count with
      | .int limit => Action.read _
      | _ => throw _ : Action (String → List Item) Value) w = _
    rw [hlimit]
    rfl
  delete {w} _ name ids := by
    refine ⟨_, rfl, trivial, if_pos rfl, fun other hother => if_neg hother⟩

end Shelf

namespace RemoteStore.Ideal

variable {ω : Type} {s : RemoteStore ω} (v : s.Ideal) {w : ω}

end RemoteStore.Ideal

end Retrieval
