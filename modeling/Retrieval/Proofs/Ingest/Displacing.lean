import Retrieval.Proofs.Ingest.Writing

/-!
# How the documents of a batch displace one another

If the options of a batch ask for an update that deletes old versions of a document and name no
version, then each document that is indexed takes all that was written before it for superseded: a
version that is made for it is a new one. Otherwise nothing is ever superseded.
-/

namespace Retrieval

open Text

namespace IndexOptions

/-- Every document written under these options displaces those written before it. -/
def displaces (o : IndexOptions) : Bool := o.replaces && (given o.versionId).isNone

end IndexOptions

namespace Stage

def version? : Stage → Option String
  | .loading o _ | .loaded o _ | .prepared o _ _ => o.versionId
  | _ => none

end Stage

namespace Pipeline

variable {σ : Type} {p : Pipeline σ} {j : Job} {w w' : World σ} {s target : Stage}

theorem Passes.version (hp : p.Passes j w s target w') (hs : s ≠ .queued) :
    target.version? = none ∨ target.version? = s.version? := by
  cases hp with
  | asked valid => exact absurd rfl hs
  | loaded loads => exact Or.inr rfl
  | prepared prepares => exact Or.inr rfl
  | _ => exact Or.inl rfl

theorem Passes.of_queued (hp : p.Passes j w .queued target w') :
    target.version? = none ∨ target.version? = (p.assignVersion j.options w).1.versionId ∧
      w'.versionSerial = (p.opened j w).versionSerial := by
  cases hp with
  | asked valid => exact Or.inr ⟨rfl, rfl⟩
  | _ => exact Or.inl rfl

end Pipeline

namespace Course

variable {σ : Type} {p : Pipeline σ} {jobs : List Job} {permits : Nat} {o o' : IndexOptions}
  {memory : σ → Memory} {put : Memory → σ → σ} {u rest : Course σ} {m : Move σ} {j : Job}
  {chunks : List Chunk} {new : List Record}

def versions (u : Course σ) : Multiset (List Char) :=
  u.total fun s => (↑(s.version?.map (ending 8)).toList : Multiset (List Char))

/-- Every document has a version of its own, if versions are made for the batch. -/
structure Versioned (memory : σ → Memory) (o : IndexOptions) (u : Course σ) : Prop where
  apart : u.versions.Nodup
  past : ∀ k ∈ u.versions, ∃ serial < u.world.versionSerial, k = hexDigits 8 serial
  held : ∀ r ∈ (u.held memory o).values, ∃ v, r.versionId = some v ∧ ending 8 v ∉ u.versions ∧
    ∃ serial < u.world.versionSerial, ending 8 v = hexDigits 8 serial

theorem Moved.versions_le (hm : Moved p jobs permits u rest m j) (hs : m.source ≠ .queued) :
    (rest.place m).versions ≤ u.versions := by
  obtain ⟨hbefore, hafter⟩ := hm.total
    (f := fun s => (↑(s.version?.map (ending 8)).toList : Multiset (List Char))) rfl fun _ => rfl
  rw [versions, versions, hbefore, hafter]
  refine add_le_add_left ?_ _
  rcases hm.passes.version hs with hnone | hsame
  · rw [hnone]
    exact Multiset.zero_le _
  · rw [hsame]

theorem Moved.versions_eq (hrenews : p.renews j.options = true)
    (hm : Moved p jobs permits u rest m j) (hs : m.source = .queued) :
    (rest.place m).versions = u.versions ∨
      (rest.place m).versions = hexDigits 8 u.world.versionSerial ::ₘ u.versions ∧
        m.after.versionSerial = u.world.versionSerial + 1 := by
  obtain ⟨hbefore, hafter⟩ := hm.total
    (f := fun s => (↑(s.version?.map (ending 8)).toList : Multiset (List Char))) rfl fun _ => rfl
  have hrest : u.versions = rest.versions := by
    rw [versions, hbefore, hs, versions]
    exact zero_add _
  rw [hrest, versions, hafter]
  rcases (hs ▸ hm.passes).of_queued with hnone | ⟨hsome, hserial⟩
  · left
    rw [hnone]
    exact zero_add _
  · right
    rw [Pipeline.assignVersion_of_renews hrenews] at hsome
    rw [(p.serials_opened j u.world).2, if_pos hrenews] at hserial
    refine ⟨?_, hserial⟩
    rw [hsome, ← Multiset.singleton_add, versions, Option.map_some, Version.ending_newId]
    rfl

/-- Every version that is made is a new one, as long as numbers do not run out. -/
theorem Versioned.made (hrenews : p.renews j.options = true)
    (hm : Moved p jobs permits u rest m j) (hs : m.source = .queued)
    (hheld : (rest.place m).held memory o = u.held memory o)
    (hbound : m.after.versionSerial ≤ 16 ^ 8) (hv : Versioned memory o u) :
    Versioned memory o (rest.place m) := by
  have hless : u.world.versionSerial ≤ m.after.versionSerial := hm.passes.serials.2
  rcases hm.versions_eq hrenews hs with heq | ⟨heq, hserial⟩
  · refine ⟨heq ▸ hv.apart, fun k hk => ?_, fun r hr => ?_⟩
    · obtain ⟨serial, hlt, he⟩ := hv.past k (heq ▸ hk)
      exact ⟨serial, Nat.lt_of_lt_of_le hlt hless, he⟩
    · obtain ⟨v, hversion, hnot, serial, hlt, he⟩ := hv.held r (hheld ▸ hr)
      exact ⟨v, hversion, heq ▸ hnot, serial, Nat.lt_of_lt_of_le hlt hless, he⟩
  · have hnew {serial : Nat} (hlt : serial < u.world.versionSerial) :
        hexDigits 8 serial ≠ hexDigits 8 u.world.versionSerial := by
      intro he
      have := hexDigits_inj (by omega) (by omega) he
      omega
    refine ⟨?_, fun k hk => ?_, fun r hr => ?_⟩
    · rw [heq]
      refine Multiset.nodup_cons.2 ⟨fun hmem => ?_, hv.apart⟩
      obtain ⟨serial, hlt, he⟩ := hv.past _ hmem
      exact hnew hlt he.symm
    · rw [heq] at hk
      rcases Multiset.mem_cons.1 hk with rfl | hk
      · exact ⟨u.world.versionSerial, show _ < m.after.versionSerial by omega, rfl⟩
      · obtain ⟨serial, hlt, he⟩ := hv.past k hk
        exact ⟨serial, Nat.lt_of_lt_of_le hlt hless, he⟩
    · obtain ⟨v, hversion, hnot, serial, hlt, he⟩ := hv.held r (hheld ▸ hr)
      refine ⟨v, hversion, ?_, serial, Nat.lt_of_lt_of_le hlt hless, he⟩
      rw [heq, Multiset.mem_cons, he]
      rintro (hsame | hmem)
      · exact hnew hlt hsame
      · exact hnot (he ▸ hmem)

theorem Indexes.versions (hi : Indexes p memory o u m o' chunks new)
    (hm : Moved p jobs permits u rest m j) {v : String} (hv : o'.versionId = some v) :
    u.versions = ending 8 v ::ₘ (rest.place m).versions := by
  obtain ⟨d, hsource⟩ := hi.source
  obtain ⟨d', htarget⟩ := hi.target
  obtain ⟨hbefore, hafter⟩ := hm.total
    (f := fun s => (↑(s.version?.map (ending 8)).toList : Multiset (List Char))) rfl fun _ => rfl
  rw [Course.versions, Course.versions, hbefore, hafter, hsource, htarget,
    ← Multiset.singleton_add]
  simp only [Stage.version?, hv, Option.map_some, Option.map_none, Option.toList_some,
    Option.toList_none, Multiset.coe_nil, zero_add, Multiset.coe_singleton]

theorem Versioned.kept (hm : Moved p jobs permits u rest m j) (hs : m.source ≠ .queued)
    (hheld : (rest.place m).held memory o = u.held memory o) (hv : Versioned memory o u) :
    Versioned memory o (rest.place m) := by
  have hle := hm.versions_le hs
  have hserial : u.world.versionSerial ≤ m.after.versionSerial := hm.passes.serials.2
  refine ⟨Multiset.nodup_of_le hle hv.apart, fun k hk => ?_, fun r hr => ?_⟩
  · obtain ⟨serial, hlt, he⟩ := hv.past k (Multiset.mem_of_le hle hk)
    exact ⟨serial, Nat.lt_of_lt_of_le hlt hserial, he⟩
  · obtain ⟨v, hversion, hnot, serial, hlt, hend⟩ := hv.held r (hheld ▸ hr)
    exact ⟨v, hversion, fun hmem => hnot (Multiset.mem_of_le hle hmem), serial,
      Nat.lt_of_lt_of_le hlt hserial, hend⟩

theorem Versioned.indexed (hrenews : p.renews o = true) (hm : Moved p jobs permits u rest m j)
    (hi : Indexes p memory o u m o' chunks new) (hv : Versioned memory o u) :
    Versioned memory o (rest.place m) := by
  obtain ⟨d, hsource⟩ := hi.source
  have hle := hm.versions_le (by rw [hsource]; exact fun h => nomatch h)
  have hserial : u.world.versionSerial ≤ m.after.versionSerial := hm.passes.serials.2
  refine ⟨Multiset.nodup_of_le hle hv.apart, fun k hk => ?_, fun r hr => ?_⟩
  · obtain ⟨serial, hlt, he⟩ := hv.past k (Multiset.mem_of_le hle hk)
    exact ⟨serial, Nat.lt_of_lt_of_le hlt hserial, he⟩
  · obtain ⟨e, he, rfl⟩ := List.mem_map.1 hr
    rcases hi.mem_held he with he | ⟨r, hnew, rfl⟩
    · obtain ⟨v, hversion, hnot, serial, hlt, hend⟩ := hv.held _ (List.mem_map_of_mem he)
      exact ⟨v, hversion, fun hmem => hnot (Multiset.mem_of_le hle hmem), serial,
        Nat.lt_of_lt_of_le hlt hserial, hend⟩
    · obtain ⟨createdAt, c, vector, rfl⟩ := hi.exists_of_mem hnew
      obtain ⟨now, number, hmade⟩ := hi.assigned.made hrenews
      have hversions := hi.versions hm hmade
      obtain ⟨serial, hlt, hend⟩ := hv.past _ (hversions ▸ Multiset.mem_cons_self _ _)
      refine ⟨_, hmade, ?_, serial, Nat.lt_of_lt_of_le hlt hserial, hend⟩
      exact (Multiset.nodup_cons.1 (hversions ▸ hv.apart)).1

theorem given_newId (now : Time.Moment) (serial : Nat) :
    given (some (Version.newId now serial)) = some (Version.newId now serial) := by
  have hne : Version.newId now serial ≠ "" := by
    intro h
    have hlength := congrArg List.length (Version.ending_newId now serial)
    rw [h, length_hexDigits] at hlength
    cases hlength
  rw [given, Option.filter_some, if_pos (by simpa using hne)]

/-- A document that is indexed takes all there is for superseded, or nothing. -/
theorem Indexes.supersedes (hi : Indexes p memory o u m o' chunks new)
    (hm : Moved p jobs permits u rest m j) (ha : Assigns p memory o u)
    (hreplaces : o.replaces = true) (hv : p.renews o = true → Versioned memory o u) :
    ∀ e ∈ u.held memory o, o'.supersedes e.2 = o.displaces := by
  intro e he
  have hr : e.2 ∈ (u.held memory o).values := List.mem_map_of_mem he
  obtain ⟨o'', createdAt, c, v, hassigned, heq⟩ := ha.held e.2 hr
  rw [heq, IndexOptions.supersedes_ofChunk (hassigned.docName.trans hi.assigned.docName.symm)
    (hassigned.tenantId.trans hi.assigned.tenantId.symm), IndexOptions.displaces, hreplaces]
  by_cases hrenews : p.renews o = true
  · obtain ⟨now, serial, hmade⟩ := hi.assigned.made hrenews
    obtain ⟨now', serial', hmade'⟩ := hassigned.made hrenews
    obtain ⟨version, hversion, hnot, -⟩ := (hv hrenews).held e.2 hr
    have hsame : version = Version.newId now' serial' := by
      rw [heq] at hversion
      exact Option.some.inj (hversion.symm.trans hmade')
    have hother : Version.newId now' serial' ≠ Version.newId now serial := by
      intro h
      rw [hsame, h, hi.versions hm hmade] at hnot
      exact hnot (Multiset.mem_cons_self _ _)
    have hnone : (given o.versionId).isNone = true := (Bool.and_eq_true_iff.1 hrenews).2
    rw [hmade, hmade', given_newId, given_newId, hnone]
    simpa using hother
  · have hkept := Bool.eq_false_of_not_eq_true hrenews
    rw [hi.assigned.kept hkept, hassigned.kept hkept]
    cases given o.versionId with
    | none => rfl
    | some version => simp

theorem Indexes.length_held (hi : Indexes p memory o u m o' chunks new)
    (hm : Moved p jobs permits u rest m j) (ha : Assigns p memory o u)
    (hv : o.displaces = true → p.renews o = true → Versioned memory o u) :
    ((rest.place m).held memory o).length =
      (if o.displaces then (u.held memory o).length - 10000 else (u.held memory o).length) +
        chunks.length := by
  have hnew : new.length = chunks.length := by
    have hlength := congrArg List.length hi.marks
    rwa [List.length_map, List.length_map] at hlength
  have heq : (rest.place m).held memory o = _ := hi.held
  rw [heq, List.length_append, List.length_map, hnew]
  congr 1
  by_cases hreplaces : o.replaces = true
  · rw [if_pos hreplaces]
    by_cases hdisplaces : o.displaces = true
    · have hall := hi.supersedes hm ha hreplaces (hv hdisplaces)
      rw [hdisplaces] at hall
      rw [if_pos hdisplaces, Table.withoutFirst_of_all hall, List.length_drop]
    · have hdisplaces' := Bool.eq_false_of_not_eq_true hdisplaces
      have hnone := hi.supersedes hm ha hreplaces fun hrenews => by
        have hgiven := (Bool.and_eq_true_iff.1 hrenews).2
        rw [IndexOptions.displaces, hreplaces, hgiven] at hdisplaces
        exact absurd rfl hdisplaces
      rw [hdisplaces'] at hnone
      rw [if_neg hdisplaces, Table.withoutFirst_of_none hnone]
  · have hdisplaces : ¬ o.displaces = true := by
      rw [IndexOptions.displaces, Bool.eq_false_of_not_eq_true hreplaces]
      exact Bool.false_ne_true
    rw [if_neg hreplaces, if_neg hdisplaces]

end Course

end Retrieval
