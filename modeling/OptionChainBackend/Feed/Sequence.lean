import Mathlib.Data.Fintype.Basic
import OptionChainBackend.Feed.Numbers

/-!
The deltas of a level, applied in the order of their sequence numbers. A request that read the
level back before another one changed it may draw its number after that one did.
-/
namespace OptionChainBackend
open Foundation Upstream MarketMaker Exchange

namespace Feed
variable {B ι : Type} [Upstream B] [DecidableEq ι] {a : OptionAddr} {s s' : Feed B ι} {i : ι}
  {level : Level}

/-- The quantity of a level before the requests began. -/
def opening (s : Feed B ι) (level : Level) : ℕ := (s.history.head?.map level.quantityOn).getD 0

/-- The quantity of a level after the deltas numbered so far. -/
def shown (s : Feed B ι) (level : Level) : ℕ :=
  latest (fun e : DrawnDelta => e.level = level) (fun e => e.event.change.quantity)
    (s.opening level) s.drawn

/-- What changes on the book is published by who changed it. -/
def Publishes (a : OptionAddr) (s : Feed B ι) : FeedStep ι → Prop
  | .call _ c => c.Uncrossed s.market a
  | .tick ms => ∀ level, (s.market.tick ms).levelQuantity a level = s.market.levelQuantity a level
  | _ => True

/-- A number is drawn for a level only while the level still holds what was read back, or while
somebody who changed it has still to draw a number for it. -/
def DrawsInOrder (a : OptionAddr) (s : Feed B ι) : FeedStep ι → Prop
  | .go i => match s.requests i with
    | .drawing _ level quantity levels =>
      quantity = s.market.levelQuantity a level ∨ level ∈ levels ∨
        ∃ j, j ≠ i ∧ level ∈ (s.requests j).owed
    | _ => True
  | _ => True

instance [Fintype ι] (a : OptionAddr) (s : Feed B ι) : DecidablePred (DrawsInOrder a s) :=
  fun st => by
    unfold DrawsInOrder
    split
    · split <;> infer_instance
    · infer_instance

def Faithful (a : OptionAddr) (s : Feed B ι) (st : FeedStep ι) : Prop :=
  Publishes a s st ∧ DrawsInOrder a s st

/-- Somebody who changed the book after its change `k` has still to draw a number for `level`. -/
def Owed (s : Feed B ι) (k : ℕ) (level : Level) : Prop :=
  ∃ i, k < (s.requests i).born ∧ level ∈ (s.requests i).owed

omit [Upstream B] in
theorem Owed.moved {k : ℕ} {pc : RequestPc} (h : s.Owed k level)
    (hi : k < (s.requests i).born → level ∈ (s.requests i).owed →
      k < pc.born ∧ level ∈ pc.owed) : (s.moved i pc).Owed k level :=
  exists_moved (P := fun pc => k < pc.born ∧ level ∈ pc.owed) h fun h => hi h.1 h.2

omit [Upstream B] in
/-- A request that owes nothing moves on. -/
theorem Owed.moved_free {k : ℕ} {pc : RequestPc} (h : s.Owed k level)
    (hi : (s.requests i).owed = []) : (s.moved i pc).Owed k level :=
  h.moved fun _ hlevel => by simp [hi] at hlevel

/-- A number was drawn for `level` by somebody who changed the book after its change `k`. -/
def DrawnSince (s : Feed B ι) (k : ℕ) (level : Level) : Prop :=
  ∃ e ∈ s.drawn, e.level = level ∧ k < e.born

/-- Between two moments at which a level holds different quantities somebody changed it. -/
structure Tracked (a : OptionAddr) (s : Feed B ι) : Prop where
  fresh : s.market.Fresh
  changes : ∀ k b, s.history[k]? = some b → ∀ level,
    level.quantityOn b = s.market.levelQuantity a level ∨ s.Owed k level ∨ s.DrawnSince k level

namespace Tracked

omit [DecidableEq ι] in
theorem start [Leveled B] [LawfulUpstream B] (h : Start a s) : Tracked a s where
  fresh := h.fresh
  changes k b hb level := by
    rw [h.history, List.getElem?_singleton] at hb
    split_ifs at hb
    obtain rfl := Option.some.inj hb
    exact .inl rfl

omit [DecidableEq ι] in
theorem frame (h : Tracked a s) (hmarket : s'.market = s.market)
    (hhistory : s'.history = s.history) (hdrawn : s.drawn ⊆ s'.drawn)
    (howed : ∀ k level, s.Owed k level → s'.Owed k level ∨ s'.DrawnSince k level) :
    Tracked a s' where
  fresh := hmarket ▸ h.fresh
  changes k b hb level := by
    rw [hmarket]
    rcases h.changes k b (hhistory ▸ hb) level with heq | how | ⟨e, he, hlevel⟩
    · exact .inl heq
    · exact .inr (howed k level how)
    · exact .inr (.inr ⟨e, hdrawn he, hlevel⟩)

omit [DecidableEq ι] in
/-- The exchange changed, and the levels that changed are owed. -/
theorem change (h : Tracked a s) {x : Exchange B} (hx : x.Fresh) (hmarket : s'.market = x)
    (hhistory : s'.history = s.history ++ [x.books a]) (hdrawn : s'.drawn = s.drawn)
    (howed : ∀ k level, s.Owed k level → s'.Owed k level)
    (hnew : ∀ level, x.levelQuantity a level = s.market.levelQuantity a level ∨
      ∀ k < s.history.length, s'.Owed k level) : Tracked a s' where
  fresh := hmarket ▸ hx
  changes k b hb level := by
    rw [hmarket]
    rw [hhistory] at hb
    rcases Nat.lt_trichotomy k s.history.length with hk | hk | hk
    · rw [List.getElem?_append_left hk] at hb
      rcases hnew level with hsame | hnew
      · rcases h.changes k b hb level with heq | how | hdr
        · exact .inl (heq.trans hsame.symm)
        · exact .inr (.inl (howed k level how))
        · obtain ⟨e, he, hlevel⟩ := hdr
          exact .inr (.inr ⟨e, hdrawn ▸ he, hlevel⟩)
      · exact .inr (.inl (hnew k hk))
    · obtain rfl : x.books a = b := by simpa [hk] using hb
      exact .inl rfl
    · have hlen := (List.getElem?_eq_some_iff.mp hb).1
      rw [List.length_append, List.length_singleton] at hlen
      omega

theorem step [Leveled B] [LawfulUpstream B] (h : Tracked a s) (st : FeedStep ι)
    (hok : Publishes a s st) : Tracked a (s.step a st) := by
  cases st with
  | call i c =>
    show Tracked a (if s.requests i = .idle then _ else s)
    split_ifs with hidle
    · have hfree : ((s.changed a (c.apply s.market a).1).requests i).owed = [] := by
        simp [changed, hidle, RequestPc.owed]
      refine h.change (UserCall.apply_fresh h.fresh c) rfl rfl rfl (fun k level how => Owed.moved_free
        (s := s.changed a (c.apply s.market a).1) how hfree) fun level => ?_
      by_cases hlevel : level ∈ (c.apply s.market a).2
      · refine .inr fun k hk => ⟨i, ?_⟩
        rw [moved_self]
        exact ⟨hk, hlevel⟩
      · exact .inl (UserCall.covers h.fresh c hok hlevel)
    · exact h
  | subscribe i symbol depth =>
    show Tracked a (if s.requests i = .idle then _ else s)
    split_ifs with hidle
    · cases s.readOf symbol depth with
      | none => exact h
      | some r =>
        have hfree : (s.requests i).owed = [] := by simp [hidle, RequestPc.owed]
        exact h.frame rfl rfl (fun _ => id) fun _ _ how => .inl (how.moved_free hfree)
    · exact h
  | tick ms =>
    exact h.change (h.fresh.shrunk (tick_shrunk _ _)) rfl rfl rfl (fun _ _ => id)
      fun level => .inl (hok level)
  | go i =>
    show Tracked a (s.go a i)
    cases hpc : s.requests i with
    | idle =>
      rw [go_eq hpc]
      exact h
    | reading born levels =>
      rw [go_eq hpc]
      cases levels with
      | nil =>
        have hfree : (s.requests i).owed = [] := by simp [hpc, RequestPc.owed]
        exact h.frame rfl rfl (fun _ => id) fun _ _ how => .inl (how.moved_free hfree)
      | cons next levels =>
        refine h.frame rfl rfl (fun _ => id) fun _ _ how => .inl (how.moved fun hk hlevel => ?_)
        rw [hpc] at hk hlevel
        exact ⟨hk, hlevel⟩
    | drawing born next q levels =>
      rw [go_eq hpc]
      refine h.frame rfl rfl (List.subset_append_left _ _) fun k level how => ?_
      by_cases hdraw : k < born ∧ next = level
      · refine .inr ⟨s.drawnFor a born next q, ?_, hdraw.2, hdraw.1⟩
        exact List.mem_append_right _ (List.mem_singleton_self _)
      · refine .inl (Owed.moved (s := s.numbered (s.market.symbols a)) how fun hk hlevel => ?_)
        rw [show (s.numbered (s.market.symbols a)).requests i = _ from hpc] at hk hlevel
        exact ⟨hk, (List.mem_cons.mp hlevel).resolve_left fun heq => hdraw ⟨hk, heq.symm⟩⟩
    | sending d levels =>
      rw [go_eq hpc]
      refine h.frame rfl rfl (fun _ => id) fun _ _ how => .inl (how.moved fun hk hlevel => ?_)
      rw [hpc] at hk hlevel
      exact ⟨hk, hlevel⟩
    | numbering r =>
      rw [go_eq hpc]
      have hfree : ((s.numbered r.symbol).requests i).owed = [] := by
        simp [numbered, hpc, RequestPc.owed]
      exact h.frame rfl rfl (fun _ => id) fun _ _ how =>
        .inl (Owed.moved_free (s := s.numbered r.symbol) how hfree)
    | replying m =>
      rw [go_eq hpc]
      have hfree : (s.requests i).owed = [] := by simp [hpc, RequestPc.owed]
      exact h.frame rfl rfl (fun _ => id) fun _ _ how => .inl (how.moved_free hfree)

end Tracked

/-- Somebody has still to draw a number for the level. -/
def Pending (s : Feed B ι) (level : Level) : Prop := ∃ i, level ∈ (s.requests i).owed

omit [Upstream B] in
theorem Pending.moved {pc : RequestPc} (h : s.Pending level)
    (hi : level ∈ (s.requests i).owed → level ∈ pc.owed) : (s.moved i pc).Pending level :=
  exists_moved (P := fun pc => level ∈ pc.owed) h hi

/-- A level that nobody owes is what the deltas numbered so far say. -/
def Shows (a : OptionAddr) (s : Feed B ι) : Prop :=
  ∀ level, s.Pending level ∨ s.shown level = s.market.levelQuantity a level

namespace Shows

omit [DecidableEq ι] in
theorem start [Leveled B] (h : Start a s) : Shows a s := by
  intro level
  refine .inr ?_
  unfold shown opening
  rw [h.drawn, h.history]
  rfl

omit [DecidableEq ι] in
theorem frame (h : Shows a s) (hmarket : s'.market = s.market) (hhistory : s'.history = s.history)
    (hdrawn : s'.drawn = s.drawn)
    (howed : ∀ level, s.Pending level → s'.Pending level) :
    Shows a s' := by
  intro level
  rcases h level with how | heq
  · exact .inl (howed level how)
  · refine .inr ?_
    unfold shown opening at heq ⊢
    rw [hmarket, hhistory, hdrawn, heq]

omit [DecidableEq ι] in
theorem change (h : Shows a s) (hne : s.history ≠ []) {x : Exchange B} (hmarket : s'.market = x)
    (hhistory : s'.history = s.history ++ [x.books a]) (hdrawn : s'.drawn = s.drawn)
    (howed : ∀ level, s.Pending level → s'.Pending level)
    (hnew : ∀ level, x.levelQuantity a level = s.market.levelQuantity a level ∨
      s'.Pending level) : Shows a s' := by
  have hopen : ∀ level, s'.opening level = s.opening level := by
    intro level
    unfold opening
    rw [hhistory, List.head?_append_of_ne_nil _ hne]
  intro level
  rcases hnew level with hsame | hnew
  · rcases h level with how | heq
    · exact .inl (howed level how)
    · refine .inr ?_
      unfold shown at heq ⊢
      rw [hmarket, hdrawn, hopen, heq, hsame]
  · exact .inl hnew

theorem step [Leveled B] [LawfulUpstream B] (h : Shows a s) (ht : Tracked a s)
    (hcurrent : Current a s) (st : FeedStep ι) (hok : Faithful a s st) :
    Shows a (s.step a st) := by
  have hne : s.history ≠ [] := hcurrent.history_ne_nil
  cases st with
  | call i c =>
    show Shows a (if s.requests i = .idle then _ else s)
    split_ifs with hidle
    · refine h.change hne rfl rfl rfl (fun level how => ?_) fun level => ?_
      · apply Pending.moved (s := s.changed a (c.apply s.market a).1) how
        simp [changed, hidle, RequestPc.owed]
      · by_cases hlevel : level ∈ (c.apply s.market a).2
        · refine .inr ⟨i, ?_⟩
          rw [moved_self]
          exact hlevel
        · exact .inl (UserCall.covers ht.fresh c hok.1 hlevel)
    · exact h
  | subscribe i symbol depth =>
    show Shows a (if s.requests i = .idle then _ else s)
    split_ifs with hidle
    · cases s.readOf symbol depth with
      | none => exact h
      | some r =>
        refine h.frame rfl rfl rfl fun level how => how.moved ?_
        simp [hidle, RequestPc.owed]
    · exact h
  | tick ms => exact h.change hne rfl rfl rfl (fun _ => id) fun level => .inl (hok.1 level)
  | go i =>
    show Shows a (s.go a i)
    cases hpc : s.requests i with
    | idle =>
      rw [go_eq hpc]
      exact h
    | reading born levels =>
      rw [go_eq hpc]
      cases levels with
      | nil =>
        refine h.frame rfl rfl rfl fun level how => how.moved ?_
        simp [hpc, RequestPc.owed]
      | cons next levels =>
        refine h.frame rfl rfl rfl fun level how => how.moved ?_
        rw [hpc]
        exact id
    | drawing born next q levels =>
      rw [go_eq hpc]
      have hdraw : q = s.market.levelQuantity a next ∨ next ∈ levels ∨
          ∃ j, j ≠ i ∧ next ∈ (s.requests j).owed := by
        have hdraws := hok.2
        unfold DrawsInOrder at hdraws
        simpa only [hpc] using hdraws
      have hshown : ∀ level, (s.goOn a i (.drawing born next q levels)).shown level =
          if next = level then q else s.shown level := fun level => latest_concat
      have hself : (s.goOn a i (.drawing born next q levels)).requests i =
          .sending (s.drawnFor a born next q) levels := moved_self _ _ _
      have hother : ∀ j, j ≠ i →
          (s.goOn a i (.drawing born next q levels)).requests j = s.requests j := fun j hj =>
        moved_ne (s := s.numbered (s.market.symbols a)) hj
      intro level
      rw [hshown]
      by_cases hlevel : next = level
      · subst hlevel
        rw [if_pos rfl]
        rcases hdraw with hq | hown | ⟨j, hj, howed⟩
        · exact .inr hq
        · refine .inl ⟨i, ?_⟩
          rw [hself]
          exact hown
        · refine .inl ⟨j, ?_⟩
          rw [hother j hj]
          exact howed
      · rw [if_neg hlevel]
        rcases h level with ⟨j, howed⟩ | heq
        · refine .inl ⟨j, ?_⟩
          by_cases hj : j = i
          · subst hj
            rw [hpc] at howed
            rw [hself]
            exact (List.mem_cons.mp howed).resolve_left (Ne.symm hlevel)
          · rw [hother j hj]
            exact howed
        · exact .inr heq
    | sending d levels =>
      rw [go_eq hpc]
      refine h.frame rfl rfl rfl fun level how => how.moved ?_
      rw [hpc]
      exact id
    | numbering r =>
      rw [go_eq hpc]
      refine h.frame rfl rfl rfl fun level how =>
        Pending.moved (s := s.numbered r.symbol) how ?_
      simp [numbered, hpc, RequestPc.owed]
    | replying m =>
      rw [go_eq hpc]
      refine h.frame rfl rfl rfl fun level how => how.moved ?_
      simp [hpc, RequestPc.owed]

omit [DecidableEq ι] in
theorem settled (h : Shows a s) (hs : s.Settled) (level : Level) :
    s.shown level = s.market.levelQuantity a level :=
  (h level).resolve_left fun ⟨i, hi⟩ => by simp [hs i, RequestPc.owed] at hi

end Shows

omit [Upstream B] [DecidableEq ι] in
/-- What a client makes of the broadcast deltas, told by the history. -/
theorem clientLevel_settled (h : Numbered a s) (hs : s.Settled) (level : Level)
    (since quantity : ℕ) :
    clientLevel (s.market.symbols a) level since quantity s.deltas =
      latest (fun e : DrawnDelta => e.level = level ∧ since ≤ e.event.sequence)
        (fun e => e.event.change.quantity) quantity s.drawn := by
  unfold clientLevel
  rw [latest_sorted (k := OrderbookDeltaEvent.sequence) h.increasing (h.settled hs)]
  exact latest_congr fun e he => and_congr_left' (h.labelled e he).about_iff

variable [Leveled B] [LawfulUpstream B]

theorem reached (h : Reaches (Start a) (step a) (Faithful a) s) :
    Numbered a s ∧ Tracked a s ∧ Shows a s := by
  induction h with
  | start h => exact ⟨.start h, .start h, .start h⟩
  | next h hok ih =>
    exact ⟨ih.1.step _, ih.2.1.step _ hok.1, ih.2.2.step ih.2.1 (.reached h) _ hok⟩

/-- Once every request has returned, the delta of a level with the greatest sequence number
carries the quantity of the level, and a client that applied them all holds it. -/
theorem highest_sequence_wins (h : Reaches (Start a) (step a) (Faithful a) s) (hs : s.Settled)
    (level : Level) :
    (∀ d ∈ s.deltas, d.About (s.market.symbols a) level →
      (∀ d' ∈ s.deltas, d'.About (s.market.symbols a) level → d'.sequence ≤ d.sequence) →
      d.change.quantity = s.market.levelQuantity a level) ∧
    clientLevel (s.market.symbols a) level 0 (s.opening level) s.deltas =
      s.market.levelQuantity a level := by
  obtain ⟨hn, -, hshows⟩ := reached h
  have hshown := hshows.settled hs level
  constructor
  · intro d hd habout hmax
    obtain ⟨e, he, rfl⟩ := (hn.settled hs d).mp hd
    rw [← hshown]
    symm
    apply latest_of_greatest (k := fun e : DrawnDelta => e.event.sequence)
      (hn.increasing.imp Nat.le_of_lt) he
    · exact (hn.labelled e he).about_iff.mp habout
    · intro e' he' hlevel hne
      have hle := hmax e'.event ((hn.settled hs _).mpr ⟨e', he', rfl⟩)
        ((hn.labelled e' he').about_iff.mpr hlevel)
      exact lt_of_le_of_ne hle fun heq => hne (eq_of_same_number hn.increasing he' he heq)
  · rw [clientLevel_settled hn hs, ← hshown]
    exact latest_congr fun e _ => and_iff_left (Nat.zero_le _)

section Traces

def tradedBook : OptionAddr := ⟨"BTC", .dateTime ⟨20000, 57600⟩, 100, .call⟩

/-- Two requests, nothing under way. -/
def quietFeed : Feed ReferenceBook Bool where
  sequences := ∅
  deltas := []
  tradeEvents := []
  market := Exchange.init.openBook tradedBook
  requests _ := .idle
  snapshots := []
  history := [Upstream.empty]
  drawn := []

theorem quietFeed_start : Start tradedBook quietFeed where
  fresh := init_fresh.quiet (openBook_quiet _ _)
  requests _ := rfl
  deltas := rfl
  snapshots := rfl
  history := rfl
  drawn := rfl

def bid (quantity : ℕ) : UserCall := .limit .buy 100 quantity .gtc

/-- The first request reads the level back, the second one changes the level and publishes it,
then the first one draws its number. -/
def overtaken : List (FeedStep Bool) :=
  [.call false (bid 5), .go false, .call true (bid 3), .go true, .go true, .go true, .go true,
    .go false, .go false, .go false]

/-- The same two requests, one after the other. -/
def inTurn : List (FeedStep Bool) :=
  [.call false (bid 5), .go false, .go false, .go false, .go false, .call true (bid 3), .go true,
    .go true, .go true, .go true]

theorem inTurn_faithful : Allowed (step tradedBook) (Faithful tradedBook) quietFeed inTurn := by
  refine ⟨⟨trivial, ?_⟩, ⟨trivial, ?_⟩, ⟨trivial, ?_⟩, ⟨trivial, ?_⟩, ⟨trivial, ?_⟩, ⟨trivial, ?_⟩,
    ⟨trivial, ?_⟩, ⟨trivial, ?_⟩, ⟨trivial, ?_⟩, ⟨trivial, ?_⟩, trivial⟩ <;> decide +kernel

theorem highest_sequence_wins_inTurn :
    let s := inTurn.foldl (step tradedBook) quietFeed
    clientLevel (s.market.symbols tradedBook) ⟨.buy, 100⟩ 0 (s.opening ⟨.buy, 100⟩) s.deltas =
      s.market.levelQuantity tradedBook ⟨.buy, 100⟩ ∧
    s.market.levelQuantity tradedBook ⟨.buy, 100⟩ = 8 :=
  ⟨(highest_sequence_wins ((Reaches.start quietFeed_start).run inTurn_faithful)
    (by unfold Settled; decide +kernel) ⟨.buy, 100⟩).2, by decide +kernel⟩

theorem stale_delta_wins : ∃ s : Feed ReferenceBook Bool,
    Reaches (Start tradedBook) (step tradedBook) (fun _ _ => True) s ∧
    (∀ i : Bool, s.requests i = .idle) ∧
    (∃ d ∈ s.deltas, d.About (s.market.symbols tradedBook) ⟨.buy, 100⟩ ∧
      (∀ d' ∈ s.deltas, d'.About (s.market.symbols tradedBook) ⟨.buy, 100⟩ →
        d'.sequence ≤ d.sequence) ∧
      d.change.quantity ≠ s.market.levelQuantity tradedBook ⟨.buy, 100⟩) ∧
    clientLevel (s.market.symbols tradedBook) ⟨.buy, 100⟩ 0 (s.opening ⟨.buy, 100⟩) s.deltas ≠
      s.market.levelQuantity tradedBook ⟨.buy, 100⟩ :=
  ⟨overtaken.foldl (step tradedBook) quietFeed,
    (Reaches.start quietFeed_start).run (by simp [overtaken, Allowed]), by decide +kernel⟩

end Traces
end Feed
end OptionChainBackend
