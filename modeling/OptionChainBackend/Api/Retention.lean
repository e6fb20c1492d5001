import Mathlib.Data.List.Perm.Subperm
import OptionChainBackend.Api.Grounded

/-!
The loop of `insert_snapshot_bounded`, run over any sequence of snapshots. The store holds the
newest of all it was given, since what a call drops is older than everything it keeps.
-/
namespace OptionChainBackend
open Foundation Upstream

/-- What a caller of `insert_snapshot_bounded` passes to it and to `StoredSnapshot::new`. -/
structure SnapshotCall where
  id : String
  createdAtMs : ℕ
  infos : List OrderbookSnapshotInfo
  deriving DecidableEq, Repr

/-- The order of eviction. -/
def StoredSnapshot.Older (a b : StoredSnapshot) : Prop :=
  a.createdAtMs < b.createdAtMs ∨ a.createdAtMs = b.createdAtMs ∧ a.seq < b.seq

namespace AppState
variable {B F : Type} [Upstream B]

/-- The `while` loop, for at most `fuel` tests of its condition. -/
def evictLoop : ℕ → Table String StoredSnapshot → Option (Table String StoredSnapshot)
  | 0, _ => none
  | fuel + 1, snapshots =>
    if maxRetainedSnapshots < snapshots.size then
      match oldestSnapshot (snapshots.select fun _ _ => true) with
      | none => some snapshots
      | some (key, _) => evictLoop fuel (snapshots.erase key)
    else some snapshots

/-- One call, with its snapshot stamped just before. -/
def saveSnapshot (fuel : ℕ) (s : AppState B F) (c : SnapshotCall) : Option (AppState B F) :=
  let stored : StoredSnapshot := ⟨c.createdAtMs, c.infos, s.snapshotSeq⟩
  (evictLoop fuel (s.snapshots.insert c.id stored)).map fun snapshots =>
    { s with snapshotSeq := s.snapshotSeq + 1, snapshots := snapshots }

def saveSnapshots (fuel : ℕ) (s : AppState B F) (calls : List SnapshotCall) :
    Option (AppState B F) := calls.foldlM (saveSnapshot fuel) s

end AppState

/-- The snapshots of a sequence of calls, numbered from `seq` on. -/
def stamped : ℕ → List SnapshotCall → List (String × StoredSnapshot)
  | _, [] => []
  | seq, c :: calls => (c.id, ⟨c.createdAtMs, c.infos, seq⟩) :: stamped (seq + 1) calls

/-- `snapshots` holds the newest of `inserted`, as many as fit. -/
structure KeepsNewest (inserted : List (String × StoredSnapshot))
    (snapshots : Table String StoredSnapshot) : Prop where
  size : snapshots.size = min AppState.maxRetainedSnapshots inserted.length
  kept : snapshots.All fun id stored => (id, stored) ∈ inserted
  newest : ∀ e ∈ inserted, snapshots.lookup e.1 ≠ some e.2 →
    snapshots.All fun _ stored => e.2.Older stored

/-- Ids and numbers of the snapshots inserted before the number `seq` is given out. -/
structure Stamped (seq : ℕ) (inserted : List (String × StoredSnapshot)) : Prop where
  ids : (inserted.map Prod.fst).Nodup
  seqs : (inserted.map fun e => e.2.seq).Nodup
  below : ∀ e ∈ inserted, e.2.seq < seq

namespace StoredSnapshot
variable {a b c : StoredSnapshot}

instance : Decidable (a.Older b) := inferInstanceAs (Decidable (_ ∨ _))

theorem Older.trans (h : a.Older b) (h' : b.Older c) : a.Older c := by
  unfold Older at *
  omega

theorem older_of_not (h : ¬ b.Older a) (hseq : a.seq ≠ b.seq) : a.Older b := by
  unfold Older at *
  omega

end StoredSnapshot

namespace AppState
variable {B F : Type} {t : Table String StoredSnapshot} {fuel : ℕ}
  {es : List (String × StoredSnapshot)} {e : String × StoredSnapshot}

theorem oldestSnapshot_eq_none : oldestSnapshot es = none ↔ es = [] := by
  cases es with
  | nil => simp [oldestSnapshot]
  | cons e es =>
    simp only [oldestSnapshot, reduceCtorEq, iff_false]
    cases oldestSnapshot es with
    | none => simp
    | some e' =>
      dsimp only
      split_ifs <;> simp

/-- The entry picked is in the list, and none is older. -/
theorem oldestSnapshot_least (h : oldestSnapshot es = some e) :
    e ∈ es ∧ ∀ e' ∈ es, ¬ e'.2.Older e.2 := by
  induction es generalizing e with
  | nil => cases h
  | cons a es ih =>
    simp only [oldestSnapshot] at h
    cases hrest : oldestSnapshot es with
    | none =>
      obtain rfl := oldestSnapshot_eq_none.mp hrest
      rw [hrest] at h
      obtain rfl := Option.some.inj h
      simp [StoredSnapshot.Older]
    | some b =>
      obtain ⟨hmem, hleast⟩ := ih hrest
      rw [hrest] at h
      dsimp only at h
      split_ifs at h with hold
      · obtain rfl := Option.some.inj h
        refine ⟨List.mem_cons_of_mem _ hmem, ?_⟩
        intro e' he'
        rcases List.mem_cons.mp he' with rfl | he'
        · unfold StoredSnapshot.Older
          omega
        · exact hleast e' he'
      · obtain rfl := Option.some.inj h
        refine ⟨List.mem_cons_self, ?_⟩
        intro e' he'
        rcases List.mem_cons.mp he' with rfl | he'
        · unfold StoredSnapshot.Older
          omega
        · have hb := hleast e' he'
          unfold StoredSnapshot.Older at *
          omega

/-- In a store with an entry, the victim is one of the entries. -/
theorem exists_victim (h : 0 < t.size) : ∃ id stored,
    oldestSnapshot (t.select fun _ _ => true) = some (id, stored) ∧ t.lookup id = some stored ∧
      t.All fun _ stored' => ¬ stored'.Older stored := by
  cases hold : oldestSnapshot (t.select fun _ _ => true) with
  | none =>
    have hnil := oldestSnapshot_eq_none.mp hold
    obtain ⟨id, hid⟩ := List.exists_mem_of_length_pos h
    obtain ⟨stored, hstored⟩ := (Table.mem_keys_iff t id).mp hid
    have hmem := (Table.mem_select t (fun _ _ => true) id stored).mpr ⟨hstored, rfl⟩
    simp [hnil] at hmem
  | some e =>
    obtain ⟨hmem, hleast⟩ := oldestSnapshot_least hold
    refine ⟨e.1, e.2, rfl, ((Table.mem_select t _ e.1 e.2).mp hmem).1, ?_⟩
    intro id stored hs
    exact hleast (id, stored) ((Table.mem_select t _ id stored).mpr ⟨hs, rfl⟩)

/-- The loop ends, after one eviction for each entry too many. -/
theorem evictLoop_eq (h : t.size - maxRetainedSnapshots < fuel) :
    evictLoop fuel t = some (evictOldest^[t.size - maxRetainedSnapshots] t) := by
  induction fuel generalizing t with
  | zero => omega
  | succ fuel ih =>
    unfold evictLoop
    by_cases hfull : maxRetainedSnapshots < t.size
    · obtain ⟨id, stored, hold, hs, -⟩ := exists_victim (by omega : 0 < t.size)
      have hsize := Table.size_erase hs
      have hstep : evictOldest t = t.erase id := by
        unfold evictOldest
        rw [hold]
      have hcount : t.size - maxRetainedSnapshots =
          (Table.size (t.erase id) - maxRetainedSnapshots) + 1 := by omega
      rw [if_pos hfull, hold]
      dsimp only
      rw [ih (by omega), hcount, Function.iterate_succ_apply, hstep]
    · have hnone : t.size - maxRetainedSnapshots = 0 := by omega
      rw [if_neg hfull, hnone]
      simp

end AppState

section Step
variable {seq : ℕ} {inserted : List (String × StoredSnapshot)} {t : Table String StoredSnapshot}
  {e e' : String × StoredSnapshot} {id : String} {stored : StoredSnapshot}

theorem Stamped.eq_of_id (h : Stamped seq inserted) (he : e ∈ inserted) (he' : e' ∈ inserted)
    (hid : e.1 = e'.1) : e = e' := List.inj_on_of_nodup_map h.ids he he' hid

theorem Stamped.seq_ne (h : Stamped seq inserted) (he : e ∈ inserted) (he' : e' ∈ inserted)
    (hid : e.1 ≠ e'.1) : e.2.seq ≠ e'.2.seq := by
  intro hseq
  exact hid (congrArg Prod.fst (List.inj_on_of_nodup_map h.seqs he he' hseq))

theorem Stamped.append (h : Stamped seq inserted) (hid : id ∉ inserted.map Prod.fst)
    (hseq : stored.seq = seq) : Stamped (seq + 1) (inserted ++ [(id, stored)]) where
  ids := by
    rw [List.map_append, List.nodup_append]
    refine ⟨h.ids, by simp, ?_⟩
    intro i hi j hj hij
    obtain rfl : j = id := by simpa using hj
    exact hid (hij ▸ hi)
  seqs := by
    rw [List.map_append, List.nodup_append]
    refine ⟨h.seqs, by simp, ?_⟩
    intro i hi j hj hij
    obtain ⟨e, he, rfl⟩ := List.mem_map.mp hi
    obtain rfl : j = stored.seq := by simpa using hj
    have hlt := h.below e he
    omega
  below e he := by
    rcases List.mem_append.mp he with he | he
    · have hlt := h.below e he
      omega
    · obtain rfl := List.mem_singleton.mp he
      dsimp only
      omega

theorem KeepsNewest.fresh (hk : KeepsNewest inserted t) (hid : id ∉ inserted.map Prod.fst) :
    t.lookup id = none := by
  cases hl : t.lookup id with
  | none => rfl
  | some stored => exact absurd (List.mem_map_of_mem (hk.kept id stored hl)) hid

/-- A store that has as many entries as were inserted has them all. -/
theorem KeepsNewest.all (hk : KeepsNewest inserted t) (hs : Stamped seq inserted)
    (hlen : inserted.length ≤ AppState.maxRetainedSnapshots) (he : e ∈ inserted) :
    t.lookup e.1 = some e.2 := by
  have hsub : t.keys ⊆ inserted.map Prod.fst := by
    intro id hid
    obtain ⟨stored, hl⟩ := (Table.mem_keys_iff t id).mp hid
    exact List.mem_map_of_mem (hk.kept id stored hl)
  have hsize : (inserted.map Prod.fst).length ≤ t.keys.length := by
    have := hk.size
    unfold Table.size at this
    rw [List.length_map]
    omega
  have hperm := (List.subperm_of_subset t.keys_nodup hsub).perm_of_length_le hsize
  obtain ⟨stored, hl⟩ := (Table.mem_keys_iff t e.1).mp
    (hperm.mem_iff.mpr (List.mem_map_of_mem he))
  have heq := hs.eq_of_id (hk.kept e.1 stored hl) he rfl
  rw [hl, ← heq]

/-- A call with room in the store. -/
theorem KeepsNewest.insert (hk : KeepsNewest inserted t) (hs : Stamped seq inserted)
    (hid : id ∉ inserted.map Prod.fst) (hroom : t.size < AppState.maxRetainedSnapshots) :
    KeepsNewest (inserted ++ [(id, stored)]) (t.insert id stored) where
  size := by
    have hsize := hk.size
    rw [Table.size_insert_new (hk.fresh hid), List.length_append, List.length_singleton]
    omega
  kept := (hk.kept.mono fun _ _ _ h => List.mem_append_left _ h).insert (by simp)
  newest e he hgone := by
    have hsize := hk.size
    rw [Table.lookup_insert_eq] at hgone
    rcases List.mem_append.mp he with he | he
    · have hne : e.1 ≠ id := fun h => hid (h ▸ List.mem_map_of_mem he)
      rw [if_neg hne] at hgone
      exact absurd (hk.all hs (by omega) he) hgone
    · obtain rfl := List.mem_singleton.mp he
      simp at hgone

/-- A call that drops the oldest entry of a full store, which may be the new one. -/
theorem KeepsNewest.replace (hk : KeepsNewest inserted t)
    (hs : Stamped seq (inserted ++ [(id, stored)])) (hid : id ∉ inserted.map Prod.fst)
    (hfull : t.size = AppState.maxRetainedSnapshots) {victim : String} {dropped : StoredSnapshot}
    (hv : (t.insert id stored).lookup victim = some dropped)
    (hleast : Table.All (t.insert id stored) fun _ stored' => ¬ stored'.Older dropped) :
    KeepsNewest (inserted ++ [(id, stored)]) ((t.insert id stored).erase victim) := by
  have hkept : Table.All (t.insert id stored) fun id' stored' =>
      (id', stored') ∈ inserted ++ [(id, stored)] :=
    (hk.kept.mono fun _ _ _ h => List.mem_append_left _ h).insert (by simp)
  have hbelow : ∀ id' stored', id' ≠ victim → (t.insert id stored).lookup id' = some stored' →
      dropped.Older stored' := by
    intro id' stored' hne hl
    apply StoredSnapshot.older_of_not (hleast id' stored' hl)
    exact hs.seq_ne (hkept victim dropped hv) (hkept id' stored' hl) hne.symm
  constructor
  · have hsize := hk.size
    have herase := Table.size_erase hv
    rw [Table.size_insert_new (hk.fresh hid)] at herase
    rw [List.length_append, List.length_singleton]
    omega
  · exact .erase fun id' stored' _ hl => hkept id' stored' hl
  · intro e he hgone
    apply Table.All.erase
    intro id' stored' hne hl
    by_cases hvictim : e.1 = victim
    · have hsame : e = (victim, dropped) :=
        hs.eq_of_id he (hkept victim dropped hv) hvictim
      rw [hsame]
      exact hbelow id' stored' hne hl
    · rw [Table.lookup_erase_eq, if_neg hvictim, Table.lookup_insert_eq] at hgone
      have hnew : e.1 ≠ id := by
        intro h
        have hsame : e = (id, stored) := hs.eq_of_id he (by simp) h
        simp [hsame] at hgone
      rw [if_neg hnew] at hgone
      have hold : e ∈ inserted := by
        rcases List.mem_append.mp he with he | he
        · exact he
        · exact absurd (congrArg Prod.fst (List.mem_singleton.mp he)) hnew
      have holder := hk.newest e hold hgone
      rw [Table.lookup_insert_eq] at hl
      split_ifs at hl with hi
      · -- the new entry stays, so the victim is an old one, between the two
        rw [Table.lookup_insert_eq, if_neg (hi ▸ Ne.symm hne)] at hv
        exact (holder victim dropped hv).trans (hbelow id' stored' hne (by simp [hi, hl]))
      · exact holder id' stored' hl

end Step

namespace AppState
variable {B F : Type} {s s' : AppState B F} {fuel : ℕ} {c : SnapshotCall}
  {inserted : List (String × StoredSnapshot)} {calls : List SnapshotCall}

/-- With fuel for its evictions, the loop does what one step of the state does. -/
theorem saveSnapshot_eq
    (hfuel : Table.size (s.snapshots.insert c.id ⟨c.createdAtMs, c.infos, s.snapshotSeq⟩) -
      maxRetainedSnapshots < fuel) :
    saveSnapshot fuel s c = some ({ s with snapshotSeq := s.snapshotSeq + 1
      }.insertSnapshotBounded c.id ⟨c.createdAtMs, c.infos, s.snapshotSeq⟩) := by
  unfold saveSnapshot
  dsimp only
  rw [evictLoop_eq hfuel]
  rfl

/-- `create_snapshot` is such a call, stamped by the clock. -/
theorem createSnapshot_saves [Upstream B] [F64 F] {id : String}
    (hfuel : s.snapshots.size + 1 - maxRetainedSnapshots < fuel) :
    saveSnapshot fuel s ⟨id, s.market.now, (saveBooks s.market id).infos⟩ =
      some (s.createSnapshot id).2 := by
  apply saveSnapshot_eq
  have hsize : Table.size (s.snapshots.insert id ⟨s.market.now, (saveBooks s.market id).infos,
      s.snapshotSeq⟩) ≤ s.snapshots.size + 1 := by
    cases hl : s.snapshots.lookup id with
    | none => exact (Table.size_insert_new hl _).le
    | some stored => exact (Table.size_insert_old hl _).le.trans (Nat.le_succ _)
  dsimp only
  omega

theorem saveSnapshot_step (hk : KeepsNewest inserted s.snapshots)
    (hs : Stamped s.snapshotSeq inserted) (hid : c.id ∉ inserted.map Prod.fst) (hfuel : 2 ≤ fuel) :
    ∃ s', saveSnapshot fuel s c = some s' ∧ s'.snapshotSeq = s.snapshotSeq + 1 ∧
      KeepsNewest (inserted ++ [(c.id, ⟨c.createdAtMs, c.infos, s.snapshotSeq⟩)]) s'.snapshots := by
  obtain ⟨stored, hstored⟩ : ∃ stored : StoredSnapshot,
      stored = ⟨c.createdAtMs, c.infos, s.snapshotSeq⟩ := ⟨_, rfl⟩
  have hsize := hk.size
  have hnew : Table.size (s.snapshots.insert c.id stored) = s.snapshots.size + 1 :=
    Table.size_insert_new (hk.fresh hid) stored
  refine ⟨_, saveSnapshot_eq (by rw [← hstored]; omega), by simp [insertSnapshotBounded], ?_⟩
  unfold insertSnapshotBounded
  dsimp only
  rw [← hstored]
  by_cases hroom : s.snapshots.size < maxRetainedSnapshots
  · have hnone : (s.snapshots.insert c.id stored).keys.length - maxRetainedSnapshots = 0 := by
      unfold Table.size at hnew hroom
      omega
    rw [hnone]
    exact hk.insert hs hid hroom
  · have hone : (s.snapshots.insert c.id stored).keys.length - maxRetainedSnapshots = 1 := by
      unfold Table.size at hnew hsize hroom
      omega
    obtain ⟨victim, dropped, hold, hv, hleast⟩ :=
      exists_victim (t := s.snapshots.insert c.id stored) (by omega)
    have hevict : evictOldest (s.snapshots.insert c.id stored) =
        (s.snapshots.insert c.id stored).erase victim := by
      unfold evictOldest
      rw [hold]
    rw [hone, Function.iterate_one, hevict]
    exact hk.replace (hs.append hid (by simp [hstored])) hid (by omega) hv hleast

theorem saveSnapshots_run (hk : KeepsNewest inserted s.snapshots)
    (hs : Stamped s.snapshotSeq inserted)
    (hid : (inserted.map Prod.fst ++ calls.map SnapshotCall.id).Nodup) (hfuel : 2 ≤ fuel) :
    ∃ s', saveSnapshots fuel s calls = some s' ∧
      KeepsNewest (inserted ++ stamped s.snapshotSeq calls) s'.snapshots := by
  induction calls generalizing s inserted with
  | nil => exact ⟨s, rfl, by simpa [stamped] using hk⟩
  | cons c calls ih =>
    have hfresh : c.id ∉ inserted.map Prod.fst := by
      intro hmem
      exact (List.nodup_append.mp hid).2.2 c.id hmem c.id (by simp) rfl
    obtain ⟨s', hstep, hseq, hk'⟩ := saveSnapshot_step hk hs hfresh hfuel
    have hs' : Stamped (s.snapshotSeq + 1)
        (inserted ++ [(c.id, ⟨c.createdAtMs, c.infos, s.snapshotSeq⟩)]) := hs.append hfresh rfl
    rw [← hseq] at hs'
    obtain ⟨s'', hrun, hkept⟩ := ih hk' hs' (by simpa using hid)
    refine ⟨s'', ?_, ?_⟩
    · unfold saveSnapshots at hrun ⊢
      rw [List.foldlM_cons, hstep]
      exact hrun
    · rw [hseq, List.append_assoc] at hkept
      exact hkept

/-- Every sequence of calls with ids of its own comes to an end, and leaves the newest of all
snapshots it inserted. -/
theorem saveSnapshots_keeps_newest (hempty : s.snapshots = ∅)
    (hid : (calls.map SnapshotCall.id).Nodup) (hfuel : 2 ≤ fuel) :
    ∃ s', saveSnapshots fuel s calls = some s' ∧
      KeepsNewest (stamped s.snapshotSeq calls) s'.snapshots := by
  have hnone : KeepsNewest [] s.snapshots := by
    rw [hempty]
    exact ⟨by simp, .empty, by simp⟩
  exact saveSnapshots_run hnone ⟨by simp, by simp, by simp⟩ (by simpa using hid) hfuel

/-- A burst under a clock that runs backwards. -/
def burst : List SnapshotCall := (List.range 18).map fun i => ⟨s!"snap-{i}", 100 - i / 2, []⟩

theorem burst_keeps_newest : ∃ s', saveSnapshots 2 (reference : AppState ReferenceBook ℚ) burst =
    some s' ∧ KeepsNewest (stamped 0 burst) s'.snapshots := by
  have hids : (burst.map SnapshotCall.id).Nodup := by decide +kernel
  exact saveSnapshots_keeps_newest (s := reference) rfl hids le_rfl

end AppState
end OptionChainBackend
