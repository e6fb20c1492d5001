import OptionChainBackend.Feed.Requests
import OptionChainBackend.Foundation.Latest

/-!
The numbers of the deltas. They grow in the order they are drawn, and once every request has
returned the deltas broadcast are those that were numbered.
-/
namespace OptionChainBackend
open Foundation Upstream MarketMaker Exchange

/-- The event is about the level of the book with this symbol. -/
def OrderbookDeltaEvent.About (symbol : String) (level : Level) (d : OrderbookDeltaEvent) : Prop :=
  d.symbol = symbol ∧ d.change.side = Subscriptions.restingSideStr level.side ∧
    d.change.price = level.price

instance (symbol : String) (level : Level) : DecidablePred (OrderbookDeltaEvent.About symbol level) :=
  fun _ => inferInstanceAs (Decidable (_ ∧ _ ∧ _))

/-- A level as a client holds it that started from `quantity` and applied, in the order of their
numbers, the deltas numbered `since` or later. -/
def clientLevel (symbol : String) (level : Level) (since quantity : ℕ)
    (deltas : List OrderbookDeltaEvent) : ℕ :=
  latest (fun d : OrderbookDeltaEvent => d.About symbol level ∧ since ≤ d.sequence)
    (fun d => d.change.quantity) quantity
    (inOrder OrderbookDeltaEvent.sequence deltas)

namespace DrawnDelta

/-- The event says what the history says. -/
def Labelled (symbol : String) (e : DrawnDelta) : Prop :=
  ∃ quantity n, e.event =
    Subscriptions.buildLevelDelta symbol e.level.side e.level.price quantity n

theorem Labelled.about_iff {symbol : String} {e : DrawnDelta} (h : e.Labelled symbol)
    {level : Level} : e.event.About symbol level ↔ e.level = level := by
  obtain ⟨q, n, h⟩ := h
  have hside : ∀ s s' : Side, Subscriptions.restingSideStr s = Subscriptions.restingSideStr s' →
      s = s' := by
    intro s s' h
    cases s <;> cases s' <;> first | rfl | exact absurd h (by decide)
  rw [OrderbookDeltaEvent.About, h]
  constructor
  · rintro ⟨-, hs, hp⟩
    obtain ⟨side, price⟩ := level
    obtain ⟨born, ⟨side', price'⟩, event⟩ := e
    obtain rfl := hside _ _ hs
    obtain rfl : price' = price := hp
    rfl
  · rintro rfl
    exact ⟨rfl, rfl, rfl⟩

end DrawnDelta

namespace Feed
variable {B ι : Type} [Upstream B] [DecidableEq ι] {a : OptionAddr} {s s' : Feed B ι} {i : ι}
  {pc : RequestPc} {level : Level} {symbol : String}

def nextNumber (s : Feed B ι) (symbol : String) : ℕ := (s.nextSequence symbol).1

section Moves

omit [Upstream B] in
theorem exists_moved {P : RequestPc → Prop} (h : ∃ j, P (s.requests j))
    (hi : P (s.requests i) → P pc) : ∃ j, P ((s.moved i pc).requests j) := by
  obtain ⟨j, hj⟩ := h
  by_cases hji : j = i
  · subst hji
    exact ⟨j, by rw [moved_self]; exact hi hj⟩
  · refine ⟨j, ?_⟩
    show P (Function.update s.requests i pc j)
    rw [Function.update_of_ne hji]
    exact hj

omit [Upstream B] in
theorem moved_ne {j : ι} (h : j ≠ i) : (s.moved i pc).requests j = s.requests j :=
  Function.update_of_ne h _ _

omit [Upstream B] [DecidableEq ι] in
theorem nextNumber_numbered {symbol' : String} : (s.numbered symbol').nextNumber symbol =
    if symbol = symbol' then s.nextNumber symbol + 1 else s.nextNumber symbol := by
  unfold numbered nextNumber Subscriptions.nextSequence
  split_ifs with h
  · subst h
    simp
  · simp [AList.lookup_insert_ne h]

end Moves

/-- The numbers of the deltas: they grow in the order they are drawn, and what is broadcast is
what was numbered. -/
structure Numbered (a : OptionAddr) (s : Feed B ι) : Prop where
  increasing : s.drawn.Pairwise fun d e => d.event.sequence < e.event.sequence
  below : ∀ e ∈ s.drawn, e.event.sequence < s.nextNumber (s.market.symbols a)
  labelled : ∀ e ∈ s.drawn, e.Labelled (s.market.symbols a)
  sent : ∀ d ∈ s.deltas, ∃ e ∈ s.drawn, e.event = d
  sending : ∀ i e levels, s.requests i = .sending e levels → e ∈ s.drawn
  kept : ∀ e ∈ s.drawn, e.event ∈ s.deltas ∨ ∃ i levels, s.requests i = .sending e levels

namespace Numbered

omit [DecidableEq ι] in
theorem start [Leveled B] (h : Start a s) : Numbered a s where
  increasing := by
    rw [h.drawn]
    exact .nil
  below := by simp [h.drawn]
  labelled := by simp [h.drawn]
  sent := by simp [h.deltas]
  sending i e levels hi := by simp [h.requests] at hi
  kept := by simp [h.drawn]

omit [Upstream B] [DecidableEq ι] in
/-- A step that neither draws for a delta nor broadcasts one. -/
theorem frame (h : Numbered a s) (hdrawn : s'.drawn = s.drawn) (hdeltas : s'.deltas = s.deltas)
    (hsymbol : s'.market.symbols a = s.market.symbols a)
    (hnext : s.nextNumber (s.market.symbols a) ≤ s'.nextNumber (s.market.symbols a))
    (hreq : ∀ j e levels, s'.requests j = .sending e levels ↔ s.requests j = .sending e levels) :
    Numbered a s' where
  increasing := hdrawn ▸ h.increasing
  below e he := by
    rw [hsymbol]
    exact (h.below e (hdrawn ▸ he)).trans_le hnext
  labelled e he := hsymbol ▸ h.labelled e (hdrawn ▸ he)
  sent d hd := hdrawn ▸ h.sent d (hdeltas ▸ hd)
  sending i e levels hi := hdrawn ▸ h.sending i e levels ((hreq _ _ _).mp hi)
  kept e he := by
    rw [hdeltas]
    rcases h.kept e (hdrawn ▸ he) with hd | ⟨i, levels, hi⟩
    · exact .inl hd
    · exact .inr ⟨i, levels, (hreq _ _ _).mpr hi⟩

omit [Upstream B] in
theorem sending_moved {e : DrawnDelta} {levels : List Level}
    (hold : ∀ e levels, s.requests i ≠ .sending e levels)
    (hnew : ∀ e levels, pc ≠ .sending e levels) (j : ι) :
    (s.moved i pc).requests j = .sending e levels ↔ s.requests j = .sending e levels := by
  by_cases hji : j = i
  · subst hji
    rw [moved_self]
    exact iff_of_false (hnew e levels) (hold e levels)
  · rw [moved_ne hji]

/-- A number is drawn for a delta. -/
theorem draw (h : Numbered a s) {born q : ℕ} {levels : List Level}
    (hpc : s.requests i = .drawing born level q levels) :
    Numbered a (s.goOn a i (.drawing born level q levels)) where
  increasing := by
    show (s.drawn ++ [s.drawnFor a born level q]).Pairwise _
    rw [List.pairwise_append]
    refine ⟨h.increasing, List.pairwise_singleton _ _, fun e he d hd => ?_⟩
    rw [List.mem_singleton.mp hd]
    exact h.below e he
  below e he := by
    show e.event.sequence < (s.numbered (s.market.symbols a)).nextNumber (s.market.symbols a)
    rw [nextNumber_numbered, if_pos rfl]
    rcases List.mem_append.mp he with he | he
    · exact (h.below e he).trans (Nat.lt_succ_self _)
    · rw [List.mem_singleton.mp he]
      exact Nat.lt_succ_self _
  labelled e he := by
    rcases List.mem_append.mp he with he | he
    · exact h.labelled e he
    · rw [List.mem_singleton.mp he]
      exact ⟨q, s.nextNumber (s.market.symbols a), rfl⟩
  sent d hd := by
    obtain ⟨e, he, hed⟩ := h.sent d hd
    exact ⟨e, List.mem_append_left _ he, hed⟩
  sending j e levels' hj := by
    by_cases hji : j = i
    · subst hji
      rw [show (s.goOn a j (.drawing born level q levels)).requests j =
        .sending (s.drawnFor a born level q) levels from moved_self _ _ _] at hj
      obtain ⟨rfl, -⟩ := RequestPc.sending.inj hj
      exact List.mem_append_right _ (List.mem_singleton_self _)
    · rw [show (s.goOn a i (.drawing born level q levels)).requests j = s.requests j from
        moved_ne (s := s.numbered _) hji] at hj
      exact List.mem_append_left _ (h.sending j e levels' hj)
  kept e he := by
    rcases List.mem_append.mp he with he | he
    · rcases h.kept e he with hd | ⟨j, levels', hj⟩
      · exact .inl hd
      · refine .inr ⟨j, levels', ?_⟩
        have hji : j ≠ i := by
          rintro rfl
          rw [hpc] at hj
          cases hj
        exact (moved_ne (s := s.numbered _) hji).trans hj
    · rw [List.mem_singleton.mp he]
      exact .inr ⟨i, levels, moved_self _ _ _⟩

/-- A numbered delta is broadcast. -/
theorem send (h : Numbered a s) {d : DrawnDelta} {levels : List Level}
    (hpc : s.requests i = .sending d levels) : Numbered a (s.goOn a i (.sending d levels)) where
  increasing := h.increasing
  below := h.below
  labelled := h.labelled
  sent e he := by
    rcases List.mem_append.mp he with he | he
    · exact h.sent e he
    · rw [List.mem_singleton.mp he]
      exact ⟨d, h.sending i d levels hpc, rfl⟩
  sending j e levels' hj := by
    by_cases hji : j = i
    · subst hji
      rw [show (s.goOn a j (.sending d levels)).requests j = .reading d.born levels from
        moved_self _ _ _] at hj
      cases hj
    · rw [show (s.goOn a i (.sending d levels)).requests j = s.requests j from moved_ne hji] at hj
      exact h.sending j e levels' hj
  kept e he := by
    rcases h.kept e he with hd | ⟨j, levels', hj⟩
    · exact .inl (List.mem_append_left _ hd)
    · by_cases hji : j = i
      · subst hji
        rw [hpc] at hj
        obtain ⟨rfl, -⟩ := RequestPc.sending.inj hj
        exact .inl (List.mem_append_right _ (List.mem_singleton_self _))
      · exact .inr ⟨j, levels', (moved_ne hji).trans hj⟩

theorem step [Leveled B] (h : Numbered a s) (st : FeedStep ι) : Numbered a (s.step a st) := by
  cases st with
  | call i c =>
    show Numbered a (if s.requests i = .idle then _ else s)
    split_ifs with hidle
    · have hsymbols : (c.apply s.market a).1.symbols a = s.market.symbols a :=
        congrArg (fun c => c.symbols a) (UserCall.apply_catalog c)
      exact h.frame rfl rfl hsymbols le_rfl fun j e levels =>
        sending_moved (s := s.changed a (c.apply s.market a).1) (by simp [changed, hidle])
          (by intros; nofun) j
    · exact h
  | subscribe i symbol depth =>
    show Numbered a (if s.requests i = .idle then _ else s)
    split_ifs with hidle
    · cases s.readOf symbol depth with
      | none => exact h
      | some r =>
        exact h.frame rfl rfl rfl le_rfl fun j e levels =>
          sending_moved (by simp [hidle]) (by intros; nofun) j
    · exact h
  | tick ms => exact h.frame rfl rfl rfl le_rfl fun _ _ _ => .rfl
  | go i =>
    show Numbered a (s.go a i)
    cases hpc : s.requests i with
    | idle =>
      rw [go_eq hpc]
      exact h
    | reading born levels =>
      have hold : ∀ e levels, s.requests i ≠ .sending e levels := by simp [hpc]
      rw [go_eq hpc]
      cases levels with
      | nil =>
        exact h.frame rfl rfl rfl le_rfl fun j e levels => sending_moved hold (by intros; nofun) j
      | cons level levels =>
        exact h.frame rfl rfl rfl le_rfl fun j e levels => sending_moved hold (by intros; nofun) j
    | drawing born level q levels =>
      rw [go_eq hpc]
      exact h.draw hpc
    | sending d levels =>
      rw [go_eq hpc]
      exact h.send hpc
    | numbering r =>
      rw [go_eq hpc]
      have hnext : s.nextNumber (s.market.symbols a) ≤
          (s.numbered r.symbol).nextNumber (s.market.symbols a) := by
        rw [nextNumber_numbered]
        split_ifs <;> omega
      exact h.frame rfl rfl rfl hnext fun j e levels =>
        sending_moved (s := s.numbered r.symbol) (by simp [numbered, hpc]) (by intros; nofun) j
    | replying m =>
      rw [go_eq hpc]
      exact h.frame rfl rfl rfl le_rfl fun j e levels =>
        sending_moved (by simp [hpc]) (by intros; nofun) j

omit [Upstream B] [DecidableEq ι] in
/-- Once every request has returned, the numbered deltas are the broadcast ones. -/
theorem settled (h : Numbered a s) (hs : s.Settled) (d : OrderbookDeltaEvent) :
    d ∈ s.deltas ↔ ∃ e ∈ s.drawn, e.event = d := by
  constructor
  · exact h.sent d
  · rintro ⟨e, he, rfl⟩
    rcases h.kept e he with hd | ⟨i, levels, hi⟩
    · exact hd
    · rw [hs i] at hi
      cases hi

end Numbered
end Feed
end OptionChainBackend
