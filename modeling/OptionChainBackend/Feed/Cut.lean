import OptionChainBackend.Feed.Sequence

/-!
The snapshot a subscriber gets, and the deltas that follow it. The subscriber reads the book
before it draws its number, so a delta can be numbered in between.
-/
namespace OptionChainBackend
open Foundation Upstream MarketMaker Exchange

namespace SnapshotRead

def listed (r : SnapshotRead) : Side → List PriceLevelData
  | .buy => r.bids
  | .sell => r.asks

/-- What a client that keeps the snapshot holds at a level. -/
def quantityAt (r : SnapshotRead) (level : Level) : ℕ :=
  (((r.listed level.side).find? fun l => l.price = level.price).map
    PriceLevelData.quantity).getD 0

/-- The snapshot says what rests at the level: it lists it, or it is not cut off at its depth. -/
def Covers (r : SnapshotRead) (level : Level) : Prop :=
  (∃ l ∈ r.listed level.side, l.price = level.price) ∨ (r.listed level.side).length < r.depth

instance (r : SnapshotRead) : DecidablePred r.Covers :=
  fun _ => inferInstanceAs (Decidable (_ ∨ _))

variable {B : Type} [Upstream B] [Leveled B] {r : SnapshotRead} {level : Level} {b : B}

/-- A snapshot of book `a` shows the book as it was after `seen` changes. -/
def TakenFrom (a : OptionAddr) (history : List B) (r : SnapshotRead) : Prop :=
  r.source = a → ∃ b, history[r.seen]? = some b ∧ ∀ side, r.listed side =
    Leveled.levels b r.depth side

omit [Upstream B] in
theorem TakenFrom.mono {a : OptionAddr} {history history' : List B} (h : r.TakenFrom a history)
    (hpre : history <+: history') : r.TakenFrom a history' := by
  intro hsource
  obtain ⟨b, hb, hlevels⟩ := h hsource
  obtain ⟨later, rfl⟩ := hpre
  exact ⟨b, by rw [List.getElem?_append_left (List.getElem?_eq_some_iff.mp hb).1, hb], hlevels⟩

theorem quantityAt_eq [LawfulUpstream B] [LawfulLeveled B]
    (h : ∀ side, r.listed side = Leveled.levels b r.depth side) (hc : r.Covers level) :
    r.quantityAt level = level.quantityOn b := by
  unfold quantityAt
  cases hfind : (r.listed level.side).find? fun l => l.price = level.price with
  | some l =>
    have hmem : l ∈ Leveled.levels b r.depth level.side := h _ ▸ List.mem_of_find?_eq_some hfind
    have hprice : l.price = level.price := by simpa using List.find?_some hfind
    show l.quantity = _
    rw [LawfulLeveled.quantity b _ _ l hmem, hprice]
  | none =>
    have hnone : ∀ l ∈ r.listed level.side, l.price ≠ level.price := by
      simpa [List.find?_eq_none] using hfind
    have hshort : (r.listed level.side).length < r.depth :=
      hc.resolve_left fun ⟨l, hl, hprice⟩ => hnone l hl hprice
    rw [h] at hshort hnone
    exact (Level.quantityOn_of_not_listed hshort hnone).symm

end SnapshotRead

namespace Feed
variable {B ι : Type} [Upstream B] [DecidableEq ι] {a : OptionAddr} {s s' : Feed B ι} {i : ι}
  {pc : RequestPc} {level : Level} {m : SnapshotSent}

/-- A subscriber draws its number from the counter of the book, and no delta was numbered yet of
a request that changed the book after the subscriber read it. -/
def CutsInOrder (a : OptionAddr) (s : Feed B ι) : FeedStep ι → Prop
  | .go i => match s.requests i with
    | .numbering r => r.source = a →
      r.symbol = s.market.symbols a ∧ ∀ e ∈ s.drawn, e.born ≤ r.seen
    | _ => True
  | _ => True

instance (a : OptionAddr) (s : Feed B ι) : DecidablePred (CutsInOrder a s)
  | .go i => cuts (s.requests i)
  | .call .. | .subscribe .. | .tick _ => isTrue trivial
where
  cuts : ∀ pc : RequestPc, Decidable (match pc with
    | .numbering r => r.source = a → r.symbol = s.market.symbols a ∧ ∀ e ∈ s.drawn, e.born ≤ r.seen
    | _ => True)
    | .numbering r => inferInstanceAs (Decidable (r.source = a →
        r.symbol = s.market.symbols a ∧ ∀ e ∈ s.drawn, e.born ≤ r.seen))
    | .idle | .reading .. | .drawing .. | .sending .. | .replying _ => isTrue trivial

/-- The snapshot has its number, whether or not it has gone out. -/
def Sent (s : Feed B ι) (m : SnapshotSent) : Prop :=
  m ∈ s.snapshots ∨ ∃ i, s.requests i = .replying m

/-- The number of the snapshot separates the changes it shows from those it does not show. -/
structure Separates (a : OptionAddr) (s : Feed B ι) (m : SnapshotSent) : Prop where
  symbol : m.symbol = s.market.symbols a
  below : m.sequence < s.nextNumber (s.market.symbols a)
  later : ∀ e ∈ s.drawn, m.seen < e.born → m.sequence < e.event.sequence

structure Consistent [Leveled B] (a : OptionAddr) (s : Feed B ι) : Prop where
  reads : ∀ i r, s.requests i = .numbering r → r.TakenFrom a s.history
  taken : ∀ m, s.Sent m → m.TakenFrom a s.history
  separates : ∀ m, s.Sent m → m.source = a → Separates a s m

omit [Upstream B] in
theorem of_exists_moved {P : RequestPc → Prop} (h : ∃ j, P ((s.moved i pc).requests j)) :
    P pc ∨ ∃ j, P (s.requests j) := by
  obtain ⟨j, hj⟩ := h
  by_cases hji : j = i
  · subst hji
    rw [moved_self] at hj
    exact .inl hj
  · rw [moved_ne hji] at hj
    exact .inr ⟨j, hj⟩

namespace Consistent
variable [Leveled B]

omit [DecidableEq ι] in
theorem start (h : Start a s) : Consistent a s := by
  have hnone : ∀ m, ¬ s.Sent m := by
    rintro m (hm | ⟨i, hi⟩)
    · simp [h.snapshots] at hm
    · simp [h.requests] at hi
  refine ⟨fun i r hi => ?_, fun m hm => absurd hm (hnone m), fun m hm => absurd hm (hnone m)⟩
  simp [h.requests] at hi

omit [Upstream B] [DecidableEq ι] in
theorem frame (h : Consistent a s) (hhistory : s.history <+: s'.history)
    (hsymbol : s'.market.symbols a = s.market.symbols a)
    (hnext : s.nextNumber (s.market.symbols a) ≤ s'.nextNumber (s.market.symbols a))
    (hdrawn : ∀ e ∈ s'.drawn, e ∈ s.drawn ∨
      s.nextNumber (s.market.symbols a) ≤ e.event.sequence)
    (hreads : ∀ r, (∃ i, s'.requests i = .numbering r) →
      (∃ i, s.requests i = .numbering r) ∨ r.TakenFrom a s'.history)
    (hsent : ∀ m, s'.Sent m → s.Sent m ∨
      m.TakenFrom a s'.history ∧ (m.source = a → Separates a s' m)) : Consistent a s' where
  reads i r hi := by
    rcases hreads r ⟨i, hi⟩ with ⟨j, hj⟩ | htaken
    · exact (h.reads j r hj).mono hhistory
    · exact htaken
  taken m hm := by
    rcases hsent m hm with hm | hnew
    · exact (h.taken m hm).mono hhistory
    · exact hnew.1
  separates m hm hsource := by
    rcases hsent m hm with hm | hnew
    · have hold := h.separates m hm hsource
      refine ⟨hold.symbol.trans hsymbol.symm, ?_, fun e he hborn => ?_⟩
      · rw [hsymbol]
        exact hold.below.trans_le hnext
      · rcases hdrawn e he with he | hlarge
        · exact hold.later e he hborn
        · exact hold.below.trans_le hlarge
    · exact hnew.2 hsource

omit [Upstream B] in
/-- A request that is no subscription moves on. -/
theorem frame_moved (h : Consistent a s) (hhistory : s.history <+: s'.history)
    (hsymbol : s'.market.symbols a = s.market.symbols a)
    (hnext : s.nextNumber (s.market.symbols a) ≤ s'.nextNumber (s.market.symbols a))
    (hdrawn : ∀ e ∈ s'.drawn, e ∈ s.drawn ∨
      s.nextNumber (s.market.symbols a) ≤ e.event.sequence)
    (hsnapshots : s'.snapshots = s.snapshots)
    (hrequests : s'.requests = (s.moved i pc).requests)
    (hpc : ∀ r, pc ≠ .numbering r) (hpc' : ∀ m, pc ≠ .replying m) : Consistent a s' := by
  refine h.frame hhistory hsymbol hnext hdrawn (fun r hr => ?_) fun m hm => ?_
  · rw [hrequests] at hr
    exact .inl ((of_exists_moved (P := (· = .numbering r)) hr).resolve_left (hpc r))
  · rcases hm with hm | hm
    · exact .inl (.inl (hsnapshots ▸ hm))
    · rw [hrequests] at hm
      exact .inl (.inr ((of_exists_moved (P := (· = .replying m)) hm).resolve_left (hpc' m)))

theorem step (h : Consistent a s) (ht : Current a s) (st : FeedStep ι)
    (hok : CutsInOrder a s st) : Consistent a (s.step a st) := by
  have hkeep : ∀ e ∈ s.drawn, e ∈ s.drawn ∨ s.nextNumber (s.market.symbols a) ≤ e.event.sequence :=
    fun e he => .inl he
  cases st with
  | call i c =>
    show Consistent a (if s.requests i = .idle then _ else s)
    split_ifs with hidle
    · have hsymbols : (c.apply s.market a).1.symbols a = s.market.symbols a :=
        congrArg (fun c => c.symbols a) (UserCall.apply_catalog c)
      exact h.frame_moved (List.prefix_append _ _) hsymbols le_rfl hkeep rfl rfl
        (by intros; nofun) (by intros; nofun)
    · exact h
  | subscribe i symbol depth =>
    show Consistent a (if s.requests i = .idle then _ else s)
    split_ifs with hidle
    · cases hread : s.readOf symbol depth with
      | none => exact h
      | some r =>
        have htaken : r.TakenFrom a s.history := by
          obtain ⟨b, -, rfl⟩ := Option.map_eq_some_iff.mp hread
          intro hsource
          refine ⟨s.market.books a, ?_, fun side => ?_⟩
          · rw [← show s.history.getLast? = _ from ht, List.getLast?_eq_getElem?]
          · obtain rfl : b = a := hsource
            cases side <;> rfl
        refine h.frame (List.prefix_refl _) rfl le_rfl hkeep (fun r' hr => ?_) fun m hm => ?_
        · rcases of_exists_moved (P := (· = .numbering r')) hr with heq | hold
          · obtain rfl := RequestPc.numbering.inj heq
            exact .inr htaken
          · exact .inl hold
        · rcases hm with hm | hm
          · exact .inl (.inl hm)
          · exact .inl (.inr ((of_exists_moved (P := (· = .replying m)) hm).resolve_left nofun))
    · exact h
  | tick ms =>
    exact h.frame (List.prefix_append _ _) rfl le_rfl hkeep (fun _ => .inl) fun _ => .inl
  | go i =>
    show Consistent a (s.go a i)
    cases hpc : s.requests i with
    | idle =>
      rw [go_eq hpc]
      exact h
    | reading born levels =>
      rw [go_eq hpc]
      cases levels <;>
        exact h.frame_moved (List.prefix_refl _) rfl le_rfl hkeep rfl rfl
          (by intros; nofun) (by intros; nofun)
    | drawing born level q levels =>
      rw [go_eq hpc]
      refine h.frame_moved (List.prefix_refl _) rfl ?_ (fun e he => ?_) rfl rfl
        (by intros; nofun) (by intros; nofun)
      · show _ ≤ (s.numbered (s.market.symbols a)).nextNumber _
        rw [nextNumber_numbered, if_pos rfl]
        exact Nat.le_succ _
      · rcases List.mem_append.mp he with he | he
        · exact .inl he
        · rw [List.mem_singleton.mp he]
          exact .inr le_rfl
    | sending d levels =>
      rw [go_eq hpc]
      exact h.frame_moved (List.prefix_refl _) rfl le_rfl hkeep rfl rfl
        (by intros; nofun) (by intros; nofun)
    | numbering r =>
      rw [go_eq hpc]
      have hcut : r.source = a →
          r.symbol = s.market.symbols a ∧ ∀ e ∈ s.drawn, e.born ≤ r.seen := by
        unfold CutsInOrder at hok
        simpa only [hpc] using hok
      refine h.frame (List.prefix_refl _) rfl ?_ hkeep (fun r' hr => ?_) fun m hm => ?_
      · show _ ≤ (s.numbered r.symbol).nextNumber _
        rw [nextNumber_numbered]
        split_ifs <;> omega
      · exact .inl ((of_exists_moved (s := s.numbered r.symbol) (P := (· = .numbering r'))
          hr).resolve_left nofun)
      · rcases hm with hm | hm
        · exact .inl (.inl hm)
        · rcases of_exists_moved (s := s.numbered r.symbol) (P := (· = .replying m)) hm with
            heq | hold
          · -- the snapshot that was just numbered
            obtain rfl := RequestPc.replying.inj heq
            refine .inr ⟨h.reads i r hpc, fun hsource => ⟨(hcut hsource).1, ?_, fun e he hborn => ?_⟩⟩
            · show s.nextNumber r.symbol < (s.numbered r.symbol).nextNumber (s.market.symbols a)
              rw [nextNumber_numbered, (hcut hsource).1, if_pos rfl]
              exact Nat.lt_succ_self _
            · have hle := (hcut hsource).2 e he
              exact absurd hborn (Nat.not_lt.mpr hle)
          · exact .inl (.inr hold)
    | replying m =>
      rw [go_eq hpc]
      refine h.frame (List.prefix_refl _) rfl le_rfl hkeep (fun r' hr => ?_) fun m' hm => ?_
      · exact .inl ((of_exists_moved (P := (· = .numbering r')) hr).resolve_left nofun)
      · rcases hm with hm | hm
        · rcases List.mem_append.mp hm with hm | hm
          · exact .inl (.inl hm)
          · rw [List.mem_singleton.mp hm]
            exact .inl (.inr ⟨i, hpc⟩)
        · exact .inl (.inr ((of_exists_moved (P := (· = .replying m')) hm).resolve_left nofun))

end Consistent

section Results
variable [Leveled B] [LawfulUpstream B] [LawfulLeveled B]

omit [LawfulUpstream B] [LawfulLeveled B] in
theorem consistent (h : Reaches (Start a) (step a) (CutsInOrder a) s) : Consistent a s := by
  induction h with
  | start h => exact .start h
  | next h hok ih => exact ih.step (.reached h) _ hok

omit [DecidableEq ι] in
/-- What a client holds that keeps the snapshot and applies the deltas that follow it. -/
theorem followed (hcut : Consistent a s) (hn : Numbered a s) (ht : Tracked a s) (hsh : Shows a s)
    (hs : s.Settled) (hm : m ∈ s.snapshots) (hsource : m.source = a)
    (hlevel : m.Covers level ∨
      ∃ d ∈ s.deltas, d.About m.symbol level ∧ m.sequence < d.sequence) :
    clientLevel m.symbol level (m.sequence + 1) (m.quantityAt level) s.deltas =
      s.market.levelQuantity a level := by
  have hsep := hcut.separates m (.inl hm) hsource
  rw [hsep.symbol] at hlevel ⊢
  rw [clientLevel_settled hn hs]
  by_cases hlater : ∃ e ∈ s.drawn, e.level = level ∧ m.sequence + 1 ≤ e.event.sequence
  · -- the last delta of the level follows the snapshot
    obtain ⟨e, he, hp, hmax⟩ := exists_greatest (k := fun e : DrawnDelta => e.event.sequence)
      (p := fun e => e.level = level ∧ m.sequence + 1 ≤ e.event.sequence) hn.increasing hlater
    have hsorted := hn.increasing.imp Nat.le_of_lt
    rw [latest_of_greatest (k := fun e : DrawnDelta => e.event.sequence) hsorted he hp hmax,
      ← hsh.settled hs level]
    symm
    apply latest_of_greatest (k := fun e : DrawnDelta => e.event.sequence) hsorted he hp.1
    intro e' he' hlevel' hne
    by_cases hafter : m.sequence + 1 ≤ e'.event.sequence
    · exact hmax e' he' ⟨hlevel', hafter⟩ hne
    · have := hp.2
      omega
  · -- nobody changed the level after the snapshot was read
    have hcovers : m.Covers level := hlevel.resolve_right fun ⟨d, hd, habout, hseq⟩ => by
      obtain ⟨e, he, rfl⟩ := (hn.settled hs d).mp hd
      exact hlater ⟨e, he, (hn.labelled e he).about_iff.mp habout, hseq⟩
    rw [latest_of_none fun e he hp => hlater ⟨e, he, hp⟩]
    obtain ⟨b, hb, hlisted⟩ := hcut.taken m (.inl hm) hsource
    rw [SnapshotRead.quantityAt_eq hlisted hcovers]
    rcases ht.changes m.seen b hb level with heq | ⟨i, -, howed⟩ | ⟨e, he, hel, hborn⟩
    · exact heq
    · simp [hs i, RequestPc.owed] at howed
    · exact absurd ⟨e, he, hel, hsep.later e he hborn⟩ hlater

/-- A snapshot shows the changes behind every delta with a smaller number; and a client that
keeps it and applies the deltas with larger numbers holds the book, once the requests returned. -/
theorem snapshot_is_cut :
    (∀ s : Feed B ι, Reaches (Start a) (step a) (CutsInOrder a) s → ∀ m ∈ s.snapshots,
      m.source = a → m.TakenFrom a s.history ∧
        ∀ e ∈ s.drawn, e.event.sequence < m.sequence → e.born ≤ m.seen) ∧
    ∀ s : Feed B ι, Reaches (Start a) (step a)
        (fun s st => CutsInOrder a s st ∧ Faithful a s st) s → s.Settled → ∀ m ∈ s.snapshots,
      m.source = a → ∀ level, (m.Covers level ∨
          ∃ d ∈ s.deltas, d.About m.symbol level ∧ m.sequence < d.sequence) →
        clientLevel m.symbol level (m.sequence + 1) (m.quantityAt level) s.deltas =
          s.market.levelQuantity a level := by
  constructor
  · intro s h m hm hsource
    have hcut := consistent h
    refine ⟨hcut.taken m (.inl hm), fun e he hseq => ?_⟩
    by_contra hborn
    have hlater := (hcut.separates m (.inl hm) hsource).later e he (Nat.not_le.mp hborn)
    omega
  · intro s h hs m hm hsource level hlevel
    obtain ⟨hn, ht, hsh⟩ := reached (h.mono fun _ _ hok => hok.2)
    exact followed (consistent (h.mono fun _ _ hok => hok.1)) hn ht hsh hs hm hsource hlevel

end Results

section Traces

def subscribed : FeedStep Bool := .subscribe false "BTC-20241004-100-C" none

/-- The subscriber reads the empty book, a bid is placed and published, and then the subscriber
draws its number. -/
def readTooEarly : List (FeedStep Bool) :=
  [subscribed, .call true (bid 5), .go true, .go true, .go true, .go true, .go false, .go false]

/-- A bid is placed and published, the subscriber reads the book, and a second bid is placed and
published around the moment at which the subscriber draws its number. -/
def cutBetween : List (FeedStep Bool) :=
  [.call true (bid 5), .go true, .go true, .go true, .go true, subscribed, .call true (bid 3),
    .go true, .go false, .go true, .go false, .go true, .go true]

def cutFeed : Feed ReferenceBook Bool := cutBetween.foldl (step tradedBook) quietFeed

theorem cutBetween_allowed : Allowed (step tradedBook)
    (fun s st => CutsInOrder tradedBook s st ∧ Faithful tradedBook s st) quietFeed cutBetween := by
  refine ⟨⟨?_, trivial, ?_⟩, ⟨?_, trivial, ?_⟩, ⟨?_, trivial, ?_⟩, ⟨?_, trivial, ?_⟩,
    ⟨?_, trivial, ?_⟩, ⟨?_, trivial, ?_⟩, ⟨?_, trivial, ?_⟩, ⟨?_, trivial, ?_⟩, ⟨?_, trivial, ?_⟩,
    ⟨?_, trivial, ?_⟩, ⟨?_, trivial, ?_⟩, ⟨?_, trivial, ?_⟩, ⟨?_, trivial, ?_⟩, trivial⟩ <;>
    decide +kernel

theorem snapshot_is_cut_between : ∃ m ∈ cutFeed.snapshots,
    (∀ e ∈ cutFeed.drawn, e.event.sequence < m.sequence → e.born ≤ m.seen) ∧
    m.quantityAt ⟨.buy, 100⟩ = 5 ∧
    clientLevel m.symbol ⟨.buy, 100⟩ (m.sequence + 1) (m.quantityAt ⟨.buy, 100⟩) cutFeed.deltas =
      cutFeed.market.levelQuantity tradedBook ⟨.buy, 100⟩ ∧
    cutFeed.market.levelQuantity tradedBook ⟨.buy, 100⟩ = 8 := by
  have hreach := (Reaches.start quietFeed_start).run cutBetween_allowed
  have hm : ∃ m ∈ cutFeed.snapshots, m.source = tradedBook ∧ m.Covers ⟨.buy, 100⟩ ∧
      m.quantityAt ⟨.buy, 100⟩ = 5 := by decide +kernel
  obtain ⟨m, hm, hsource, hcovers, hquantity⟩ := hm
  refine ⟨m, hm, ?_, hquantity, ?_, by decide +kernel⟩
  · exact (snapshot_is_cut.1 cutFeed (hreach.mono fun _ _ hok => hok.1) m hm hsource).2
  · exact snapshot_is_cut.2 cutFeed hreach (by unfold Settled; decide +kernel) m hm hsource _ (.inl hcovers)

theorem snapshot_misses_a_change : ∃ s : Feed ReferenceBook Bool,
    Reaches (Start tradedBook) (step tradedBook) (fun _ _ => True) s ∧
    (∀ i : Bool, s.requests i = .idle) ∧
    ∃ m ∈ s.snapshots, m.source = tradedBook ∧ m.symbol = s.market.symbols tradedBook ∧
      (∃ e ∈ s.drawn, e.event ∈ s.deltas ∧ e.event.sequence < m.sequence ∧ m.seen < e.born) ∧
      m.Covers ⟨.buy, 100⟩ ∧
      clientLevel m.symbol ⟨.buy, 100⟩ (m.sequence + 1) (m.quantityAt ⟨.buy, 100⟩) s.deltas ≠
        s.market.levelQuantity tradedBook ⟨.buy, 100⟩ :=
  ⟨readTooEarly.foldl (step tradedBook) quietFeed,
    (Reaches.start quietFeed_start).run (by simp [readTooEarly, Allowed]), by decide +kernel⟩

end Traces
end Feed
end OptionChainBackend
