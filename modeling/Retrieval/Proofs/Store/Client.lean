import Retrieval.Proofs.Store.Page
import Retrieval.Proofs.Store.Split

/-!
# A store in front of a faithful client

A client is faithful if it keeps what it is given, under the ids it is given, and answers a listing
with just the items whose metadata the clause selects, up to the limit. In front of such a client a
query without a vector gives the items that the filter accepts, whatever part of the filter was
pushed down, unless it meets an item that cannot be read or checked for want of a text.
-/

namespace Retrieval

def Listing.shown (q : Listing) (items : List Item) : List Item :=
  let chosen := items.filter fun i => q.clause.all (·.selects i.metadata)
  match q.limit with
  | some limit => chosen.take limit.toNat
  | none => chosen

theorem Listing.mem_of_mem_shown {q : Listing} {items : List Item} {i : Item}
    (h : i ∈ q.shown items) : i ∈ items := by
  unfold shown at h
  split at h
  · exact (List.mem_filter.1 (List.mem_of_mem_take h)).1
  · exact (List.mem_filter.1 h).1

namespace RemoteStore

variable {ω : Type}

structure Faithful (s : RemoteStore ω) where
  /-- The states that the client can be in. -/
  kept : ω → Prop
  /-- What each collection holds, in the order of listings. -/
  contents : ω → String → List Item
  /-- A collection that was made otherwise cannot be opened as one with given vectors. -/
  open_given {w : ω} (h : kept w) (name : String) : ∃ o w',
    s.client.openCollection name false w = (o, w') ∧ kept w' ∧ contents w' = contents w ∧
      ∀ f, o = .error f → f.kind.isBadValue = true
  open_plain {w : ω} (h : kept w) (name : String) : ∃ w',
    s.client.openCollection name true w = (.ok (), w') ∧ kept w' ∧ contents w' = contents w
  mark {w : ω} (h : kept w) (name : String) :
    kept (s.markOpen name w) ∧ contents (s.markOpen name w) = contents w
  upsert {w : ω} (h : kept w) (name : String) {items : List Item}
    (hids : (items.map (·.id)).Nodup) : ∃ w',
    s.client.upsert name items w = (.ok (), w') ∧ kept w' ∧
      (contents w' name).Perm
        (items ++ (contents w name).filter fun i => i.id ∉ items.map (·.id)) ∧
      ∀ other, other ≠ name → contents w' other = contents w other
  list {w : ω} (h : kept w) (name : String) (q : Listing) : ∃ answer w',
    s.client.list name q w = (.ok answer, w') ∧ kept w' ∧ contents w' = contents w ∧
      Page.Tells q.columns answer (q.shown (contents w name))

def target (s : RemoteStore ω) (c : Option String) : String := (given c).getD s.standard

theorem guarded_ok {α : Type} {what : String} {passes : Fault → Bool} {a : Action ω α} {w w' : ω}
    {x : α} (h : a w = (.ok x, w')) : guarded what passes a w = (.ok x, w') := by
  unfold guarded
  rw [h]

namespace Faithful

variable {s : RemoteStore ω} (v : s.Faithful) {w : ω}

theorem collection (h : v.kept w) (c : Option String) : ∃ w',
    s.collection c w = (.ok (s.target c), w') ∧ v.kept w' ∧ v.contents w' = v.contents w := by
  have hread : Action.read s.opened w = (.ok (s.opened w), w) := rfl
  unfold RemoteStore.collection
  rw [Action.bind_ok hread]
  dsimp only
  rw [← target]
  by_cases ho : (s.opened w).contains (s.target c) = true
  · rw [if_pos ho]
    exact ⟨w, rfl, h, rfl⟩
  · rw [if_neg ho]
    obtain ⟨o, w₁, hopen, h₁, hsame₁, hbad⟩ := v.open_given h (s.target c)
    have hattempt : (s.client.openCollection (s.target c) false).attempt w = (.ok o, w₁) := by
      rw [Action.attempt_apply, hopen]
    rw [Action.bind_ok hattempt]
    cases o with
    | ok _ =>
        obtain ⟨hkept, hsame⟩ := v.mark h₁ (s.target c)
        exact ⟨_, rfl, hkept, hsame.trans hsame₁⟩
    | error f =>
        obtain ⟨w₂, hplain, h₂, hsame₂⟩ := v.open_plain h₁ (s.target c)
        obtain ⟨hkept, hsame⟩ := v.mark h₂ (s.target c)
        dsimp only
        rw [if_pos (hbad f rfl), Action.bind_ok hplain]
        exact ⟨_, rfl, hkept, (hsame.trans hsame₂).trans hsame₁⟩

theorem store (h : v.kept w) {records : List Record} {items : List Item} (c : Option String)
    (hitems : (records.mapM Item.ofRecord : Outcome (List Item)) = .ok items)
    (hids : (items.map (·.id)).Nodup) : ∃ w',
    s.upsert records c w = (.ok records.length, w') ∧ v.kept w' ∧
      (v.contents w' (s.target c)).Perm
        (items ++ (v.contents w (s.target c)).filter fun i => i.id ∉ items.map (·.id)) ∧
      ∀ other, other ≠ s.target c → v.contents w' other = v.contents w other := by
  unfold RemoteStore.upsert
  cases records with
  | nil =>
      cases hitems
      have hall : ((v.contents w (s.target c)).filter fun i =>
          i.id ∉ ([] : List Item).map (·.id)) = v.contents w (s.target c) :=
        List.filter_eq_self.2 (by simp)
      refine ⟨w, rfl, h, ?_, fun _ _ => rfl⟩
      show (v.contents w (s.target c)).Perm ([] ++ _)
      rw [List.nil_append]
      exact .of_eq hall.symm
  | cons r rest =>
      obtain ⟨w₁, hopen, h₁, hsame⟩ := v.collection h c
      obtain ⟨w₂, hwrite, h₂, hperm, hothers⟩ := v.upsert h₁ (s.target c) hids
      rw [hsame] at hperm hothers
      refine ⟨w₂, guarded_ok ?_, h₂, hperm, hothers⟩
      rw [Action.bind_ok hopen, hitems, Action.bind_ok (Action.lift_apply _ _),
        Action.bind_ok hwrite]
      rfl

end Faithful

end RemoteStore

theorem gather_cases {α : Type} (read : Row → Outcome (Option α)) (row : Item → Row)
    {p : Item → Bool} {told untold : Item → Prop} {f : Item → α} {items : List Item}
    (h : ∀ i ∈ items, (read (row i) = .ok (if p i then some (f i) else none) ∧ told i) ∨
      (read (row i) = .error Value.tooLong ∧ untold i)) :
    (gather read (items.map row) = .ok ((items.filter p).map f) ∧ ∀ i ∈ items, told i) ∨
      (gather read (items.map row) = .error Value.tooLong ∧ ∃ i ∈ items, untold i) := by
  induction items with
  | nil => exact .inl ⟨rfl, fun _ hi => by cases hi⟩
  | cons i rest ih =>
      obtain ⟨hi, hrest⟩ := List.forall_mem_cons.1 h
      rw [List.map_cons, gather]
      rcases hi with ⟨hread, htold⟩ | ⟨hread, huntold⟩
      · rw [hread]
        rcases ih hrest with ⟨hgather, hall⟩ | ⟨hgather, j, hj, huntold⟩
        · refine .inl ⟨?_, List.forall_mem_cons.2 ⟨htold, hall⟩⟩
          rw [hgather]
          cases hp : p i <;> simp [hp, bind, Except.bind, pure, Except.pure]
        · refine .inr ⟨?_, j, List.mem_cons_of_mem _ hj, huntold⟩
          rw [hgather]
          rfl
      · rw [hread]
        exact .inr ⟨rfl, i, List.mem_cons_self, huntold⟩

/-- What is asked of some items is given, or one of them cannot be told. -/
def Item.Gives {α : Type} (items : List Item) (told : Item → Bool) (fault : Fault) (given : α)
    (outcome : Outcome α) : Prop :=
  outcome = .ok given ∨ (outcome = .error fault ∧ ∃ i ∈ items, told i = false)

def Item.isTold (filter : Option Filter) (i : Item) : Bool := i.isLegible && i.legibleFor filter

namespace Split.Renders

variable {split : Split} {filter : Option Filter}

/-- A line is read as the item that it tells, after what is left of the filter is checked. -/
theorem found_cases (h : split.Renders filter) {i : Item} {r : Row}
    (hmetadata : r.metadata = some (.map i.metadata))
    (hrecord : r.record = if i.isLegible then .ok i.record else .error Value.tooLong)
    (score : Float) :
    (split.found score r =
        .ok (if split.residual.all (·.accepts i.metadata) then some ⟨i.record, score⟩ else none) ∧
      i.passes filter = filter.all (·.accepts i.metadata)) ∨
    (split.found score r = .error Value.tooLong ∧ i.isTold filter = false) := by
  unfold Split.found Item.isTold
  rcases h.admits_cases hmetadata with ⟨hadmits, htold⟩ | ⟨hadmits, hlegible⟩
  · rw [hadmits, hrecord]
    cases split.residual.all (·.accepts i.metadata) with
    | false => exact .inl ⟨rfl, htold⟩
    | true =>
        cases i.isLegible with
        | true => exact .inl ⟨rfl, htold⟩
        | false => exact .inr ⟨rfl, rfl⟩
  · rw [hadmits, hlegible, Bool.and_false]
    exact .inr ⟨rfl, rfl⟩

end Split.Renders

/-- A listing is limited only where nothing is left to check. -/
theorem Split.exists_shown {split : Split} {limit : Option Int} {topK : Int}
    (hlimit : limit = if split.residual.isSome then none else some topK) (columns : List Column)
    (items : List Item) : ∃ n : Nat,
    (items.length ≤ n ∨ split.residual = none ∧ topK.toNat ≤ n) ∧
      Listing.shown ⟨limit, split.clause, columns⟩ items =
        (items.filter fun i => split.clause.all (·.selects i.metadata)).take n := by
  cases hres : split.residual with
  | none =>
      rw [hlimit, hres]
      exact ⟨topK.toNat, .inr ⟨rfl, Nat.le_refl _⟩, rfl⟩
  | some f =>
      rw [hlimit, hres]
      exact ⟨items.length, .inl (Nat.le_refl _),
        (List.take_of_length_le (List.length_filter_le _ _)).symm⟩

namespace RemoteStore

variable {ω : Type} {s : RemoteStore ω}

theorem guarded_error {α : Type} {what : String} {passes : Fault → Bool} {a : Action ω α}
    {w w' : ω} {f : Fault} (h : a w = (.error f, w')) (hf : passes f = false) :
    guarded what passes a w = (.error (wrap what f), w') := by
  unfold guarded
  rw [h]
  simp [hf]

namespace Faithful

variable (v : s.Faithful) {w : ω}

theorem listing_renders (h : v.kept w) {split : Split} {filter : Option Filter}
    (hsplit : split.Renders filter) (name : String) (topK : Int)
    (hscalar : ∀ i ∈ v.contents w name, ∀ e ∈ i.metadata, e.2.isScalar = true) :
    ∃ outcome w', s.listing name topK split w = (outcome, w') ∧
      Item.Gives (v.contents w name) (·.isTold filter) Value.tooLong
        ((((v.contents w name).filter (·.passes filter)).take topK.toNat).map fun i => ⟨i.record, 1⟩)
        outcome ∧
      v.kept w' ∧ v.contents w' = v.contents w := by
  unfold RemoteStore.listing
  -- Nothing is listed for a count that is not positive, so the limit is never sent as such.
  by_cases htop : topK ≤ 0
  · rw [if_pos htop]
    refine ⟨_, w, rfl, .inl ?_, h, rfl⟩
    rw [Int.toNat_of_nonpos htop, List.take_zero]
    rfl
  · obtain ⟨limit, hlimit⟩ : ∃ limit, limit = if split.residual.isSome then none else some topK :=
      ⟨_, rfl⟩
    obtain ⟨answer, w', hlist, h', hsame, htells⟩ :=
      v.list h name ⟨limit, split.clause, [.documents, .metadatas, .embeddings]⟩
    obtain ⟨n, hn, hshown⟩ := Split.exists_shown hlimit [.documents, .metadatas, .embeddings]
      (v.contents w name)
    have hcut := hsplit.cut (v.contents w name) hn
    rw [← hshown] at hcut
    have hread : ∀ i ∈ Listing.shown ⟨limit, split.clause, [.documents, .metadatas, .embeddings]⟩
        (v.contents w name), _ := fun i hi => hsplit.found_cases (i := i) rfl
          (Row.record_row (hscalar i (Listing.mem_of_mem_shown hi))) 1
    rw [if_neg htop, ← hlimit, Action.bind_ok hlist, htells.listed,
      Action.bind_ok (Action.lift_apply _ _)]
    dsimp only [Lines.gather]
    rcases gather_cases (split.found 1) Item.row hread with
      ⟨hgather, htold⟩ | ⟨hgather, i, hi, huntold⟩
    · rw [hgather, Action.bind_ok (Action.lift_apply _ _), ← List.map_take, hcut htold]
      exact ⟨_, w', rfl, .inl rfl, h', hsame⟩
    · rw [hgather]
      exact ⟨_, w', rfl, .inr ⟨rfl, i, Listing.mem_of_mem_shown hi, huntold⟩, h', hsame⟩

theorem query_listing (h : v.kept w) (filter : Option Filter)
    (hf : ∀ f, filter = some f → f.isWellFormed = true) (topK : Int) (tenant c : Option String)
    (hscalar : ∀ i ∈ v.contents w (s.target c), ∀ e ∈ i.metadata, e.2.isScalar = true) :
    ∃ outcome w', s.query ⟨none, topK, filter, tenant, c⟩ w = (outcome, w') ∧
      Item.Gives (v.contents w (s.target c)) (·.isTold filter) (wrap "query" Value.tooLong)
        ((((v.contents w (s.target c)).filter (·.passes filter)).take topK.toNat).map
          fun i => ⟨i.record, 1⟩) outcome ∧
      v.kept w' ∧ v.contents w' = v.contents w := by
  obtain ⟨w₁, hopen, h₁, hsame₁⟩ := v.collection h c
  obtain ⟨split, hsplit, hrenders⟩ := Split.exists_renders filter hf
  rw [← hsame₁] at hscalar
  obtain ⟨outcome, w₂, hlist, hgives, h₂, hsame₂⟩ :=
    v.listing_renders h₁ hrenders (s.target c) topK hscalar
  have hrun : (do
      let target ← s.collection c
      let split ← Split.ofFilter filter
      s.listing target topK split : Action ω (List Match)) w = (outcome, w₂) := by
    rw [Action.bind_ok hopen, hsplit, Action.bind_ok (Action.lift_apply _ _)]
    exact hlist
  rw [hsame₁] at hgives
  rcases hgives with rfl | ⟨rfl, huntold⟩
  · exact ⟨_, w₂, guarded_ok hrun, .inl rfl, h₂, hsame₂.trans hsame₁⟩
  · exact ⟨_, w₂, guarded_error hrun rfl, .inr ⟨rfl, huntold⟩, h₂, hsame₂.trans hsame₁⟩

theorem selected_ids (h : v.kept w) {f : Filter} (hf : f.isWellFormed = true) (name : String) :
    ∃ outcome w', s.selected name f w = (outcome, w') ∧
      Item.Gives (v.contents w name) (·.legibleFor (some f)) Value.tooLong
        (((v.contents w name).filter (·.passes (some f))).map (·.id)) outcome ∧
      v.kept w' ∧ v.contents w' = v.contents w := by
  obtain ⟨split, hsplit, hrenders⟩ :=
    Split.exists_renders (some f) fun _ hg => Option.some.inj hg ▸ hf
  obtain ⟨answer, w', hlist, h', hsame, htells⟩ :=
    v.list h name ⟨none, split.clause, [.metadatas]⟩
  let read (r : Row) : Outcome (Option String) := do
    if ← split.admits r then return some r.id.display else return none
  have hread : ∀ i ∈ Listing.shown ⟨none, split.clause, [.metadatas]⟩ (v.contents w name),
      (read (Page.mark i) = .ok (if split.residual.all (·.accepts i.metadata) then some i.id
          else none) ∧ i.passes (some f) = (some f).all (·.accepts i.metadata)) ∨
        (read (Page.mark i) = .error Value.tooLong ∧ i.legibleFor (some f) = false) := by
    intro i _
    rcases hrenders.admits_cases (i := i) (r := Page.mark i) rfl with
      ⟨hadmits, htold⟩ | ⟨hadmits, hlegible⟩
    · refine .inl ⟨?_, htold⟩
      simp only [read, hadmits]
      cases split.residual.all (·.accepts i.metadata) <;> rfl
    · refine .inr ⟨?_, hlegible⟩
      simp only [read, hadmits]
      rfl
  unfold RemoteStore.selected
  rw [hsplit, Action.bind_ok (Action.lift_apply _ _), Action.bind_ok hlist, htells.marked,
    Action.bind_ok (Action.lift_apply _ _)]
  dsimp only [Lines.gather]
  rcases gather_cases read Page.mark hread with ⟨hgather, htold⟩ | ⟨hgather, i, hi, huntold⟩
  · have hpass := hrenders.filter_filter (v.contents w name) fun i hi hselected =>
      htold i (List.mem_filter.2 ⟨hi, hselected⟩)
    rw [show gather _ _ = _ from hgather]
    exact ⟨_, w', rfl, .inl (congrArg (fun items => Except.ok (items.map (·.id))) hpass), h', hsame⟩
  · rw [show gather _ _ = _ from hgather]
    exact ⟨_, w', rfl, .inr ⟨rfl, i, Listing.mem_of_mem_shown hi, huntold⟩, h', hsame⟩

end Faithful

end RemoteStore

namespace Shelf

def put (name : String) (items : List Item) (w : String → List Item) : String → List Item :=
  fun other => if other = name then
    items ++ (w name).filter fun i => i.id ∉ items.map (·.id) else w other

/-- A client that keeps its collections as lists of items and compares no vectors. -/
def client : StoreClient (String → List Item) where
  openCollection _ _ := pure ()
  count name := Action.read fun w => .int (w name).length
  upsert name items := Action.change (put name items)
  list name q := Action.read fun w => Page.telling (q.shown (w name))
  nearest _ _ := throw (.badValue "vectors are not compared")
  delete name ids := Action.change fun w other =>
    if other = name then (w name).filter fun i => i.id ∉ ids else w other

def store : RemoteStore (String → List Item) := ⟨client, "default", fun _ => [], fun _ w => w⟩

def faithful : store.Faithful where
  kept _ := True
  contents w := w
  open_given _ _ := ⟨_, _, rfl, trivial, rfl, nofun⟩
  open_plain _ _ := ⟨_, rfl, trivial, rfl⟩
  mark _ _ := ⟨trivial, rfl⟩
  upsert {w} _ name items _ := by
    have hself : put name items w name =
        items ++ (w name).filter fun i => i.id ∉ items.map (·.id) := if_pos rfl
    exact ⟨put name items w, rfl, trivial, .of_eq hself, fun other hother => if_neg hother⟩
  list _ _ q := ⟨_, _, rfl, trivial, rfl, Page.tells_telling q.columns _⟩

end Shelf

end Retrieval
