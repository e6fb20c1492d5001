import OptionChainBackend.MarketMaker.Index
import OptionChainBackend.Upstream.Changes

/-!
What the engine knows about its orders on the books. Whatever executes against the engine's
orders, and however much of it was reported, every engine order that still rests is tracked
with enough quantity to cover what rests and what is not reported yet.
-/
namespace OptionChainBackend

namespace Exchange
variable {B : Type} [Upstream B] [LawfulUpstream B] {x : Exchange B} {a : OptionAddr}
  {i j : OrderId}

theorem cancelOrder_cases (x : Exchange B) (a : OptionAddr) (i : OrderId) :
    Removed x (x.cancelOrder a i).2 a i ∨ Quiet x (x.cancelOrder a i).2 := by
  cases h : x.cancelOrder a i with
  | mk res x' =>
    by_cases hres : res = .ok true
    · subst hres
      exact .inl (cancel_true h)
    · exact .inr (cancel_quiet h hres)

theorem cancelOrder_remaining_le (x : Exchange B) (a : OptionAddr) (i j : OrderId) :
    (x.cancelOrder a i).2.remaining j ≤ x.remaining j := by
  rcases x.cancelOrder_cases a i with h | h
  · exact h.shrunk.remaining_le j
  · exact (h.remaining j).le

/-- A cancel on the right book leaves nothing of the order. -/
theorem cancelOrder_remaining (hc : CancelRemoves B) (hx : x.HomedAt i) (ha : x.home i = some a) :
    (x.cancelOrder a i).2.remaining i = 0 := by
  cases ho : x.getOrder a i with
  | none =>
    have hle := x.cancelOrder_remaining_le a i i
    simp only [remaining_of_home ha, ho, Option.map_none, Option.getD_none] at hle
    exact Nat.le_zero.mp hle
  | some o =>
    have hsome : (Upstream.getOrder (x.books a) i).isSome := by
      change (x.getOrder a i).isSome
      rw [ho]
      rfl
    have hres : x.cancelOrder a i = (.ok true, (x.cancelOrder a i).2) :=
      Prod.ext (hc (x.books a) i hsome) rfl
    exact (cancel_true hres).remaining_self hx

end Exchange

namespace MarketMaker
namespace Desk
open Foundation Upstream Exchange

variable {B F : Type} [Upstream B]

structure Sound (d : Desk B F) (reported : OrderId → ℕ) : Prop where
  fresh : d.market.Fresh
  homed : ∀ i ∈ d.quoted, d.market.HomedAt i
  placed : ∀ i ∈ d.quoted, ∃ a, d.market.home i = some a
  known : ∀ {i o}, d.engine.activeOrders.lookup i = some o →
    i ∈ d.quoted ∧ d.market.home i = some o.addr ∧ d.market.hasBook o.addr = true
  bound : ∀ {i o}, d.engine.activeOrders.lookup i = some o →
    d.market.remaining i + d.market.executed i ≤ o.quantity + reported i
  tracked : ∀ i ∈ d.quoted, 0 < d.market.remaining i →
    (d.engine.activeOrders.lookup i).isSome = true
  reported_le : ∀ i, reported i ≤ d.market.executed i

namespace Sound
variable {d : Desk B F} {reported : OrderId → ℕ} {x : Exchange B} {a : OptionAddr}
  {i id : OrderId} {o : ActiveOrderInfo} {side : Side} {limit : Option ℕ} {q : ℕ}
  {r : MatchResult} {left : Option RestingOrder}

theorem issued (h : d.Sound reported) (hi : i ∈ d.quoted) : i < d.market.nextOrderId := by
  obtain ⟨a, ha⟩ := h.placed i hi
  exact h.fresh.home ha

theorem unissued (h : d.Sound reported) : d.market.nextOrderId ∉ d.quoted :=
  fun hm => lt_irrefl _ (h.issued hm)

theorem untracked (h : d.Sound reported) (hi : d.market.nextOrderId ≤ i) :
    d.engine.activeOrders.lookup i = none := by
  cases ho : d.engine.activeOrders.lookup i with
  | none => rfl
  | some o => exact absurd (h.issued (h.known ho).1) (Nat.not_lt.mpr hi)

/-- Changes of the engine that drop only orders that no longer rest. -/
theorem thin (h : d.Sound reported) {e : MarketMakerEngine F}
    (hsub : ∀ i o, e.activeOrders.lookup i = some o → d.engine.activeOrders.lookup i = some o)
    (hdrop : ∀ i, e.activeOrders.lookup i = none →
      d.engine.activeOrders.lookup i = none ∨ d.market.remaining i = 0) :
    Sound { d with engine := e } reported where
  fresh := h.fresh
  homed := h.homed
  placed := h.placed
  known ho := h.known (hsub _ _ ho)
  bound ho := h.bound (hsub _ _ ho)
  tracked i hi hr := by
    cases ho : e.activeOrders.lookup i with
    | some o => rfl
    | none =>
      have ht := h.tracked i hi hr
      rcases hdrop i ho with hn | hz
      · rw [hn] at ht
        cases ht
      · exact absurd hz (Nat.pos_iff_ne_zero.mp hr)
  reported_le := h.reported_le

theorem congr (h : d.Sound reported) {e : MarketMakerEngine F}
    (he : e.activeOrders = d.engine.activeOrders) : Sound { d with engine := e } reported := by
  apply h.thin
  · intro i o ho
    rwa [← he]
  · intro i ho
    exact .inl (by rwa [← he])

/-- The engine forgets an order that no longer rests. -/
theorem forget (h : d.Sound reported) (key : InstrumentKey) (isBuy : Bool)
    (hdone : d.market.remaining i = 0) :
    Sound { d with engine := (d.engine.untrack i).clearInstrumentSlot key isBuy } reported := by
  apply h.thin
  · intro j o ho
    rw [MarketMakerEngine.forget_lookup] at ho
    split_ifs at ho
    exact ho
  · intro j hj
    rw [MarketMakerEngine.forget_lookup] at hj
    split_ifs at hj with he
    · exact .inr (he ▸ hdone)
    · exact .inl hj

/-- Changes of the books that take from the engine's orders only what executes. -/
theorem market (h : d.Sound reported) (hfresh : x.Fresh)
    (hhomed : ∀ i ∈ d.quoted, x.HomedAt i)
    (hhome : ∀ i ∈ d.quoted, x.home i = d.market.home i) (hgrows : Grows d.market x)
    (hle : ∀ i ∈ d.quoted, x.remaining i ≤ d.market.remaining i)
    (hsum : ∀ i ∈ d.quoted, x.remaining i + x.executed i ≤
      d.market.remaining i + d.market.executed i)
    (hexec : ∀ i, d.market.executed i ≤ x.executed i) :
    Sound { d with market := x } reported where
  fresh := hfresh
  homed := hhomed
  placed i hi := by
    obtain ⟨a, ha⟩ := h.placed i hi
    exact ⟨a, (hhome i hi).trans ha⟩
  known ho := by
    obtain ⟨hq, hh, hb⟩ := h.known ho
    exact ⟨hq, (hhome _ hq).trans hh, hgrows _ hb⟩
  bound ho := (hsum _ (h.known ho).1).trans (h.bound ho)
  tracked i hi hr := h.tracked i hi (hr.trans_le (hle i hi))
  reported_le i := (h.reported_le i).trans (hexec i)

theorem quiet (h : d.Sound reported) (hq : Quiet d.market x) (hg : Grows d.market x) :
    Sound { d with market := x } reported := by
  apply h.market (h.fresh.quiet hq) fun i hi => (h.homed i hi).quiet hq
  · intro i _
    rw [hq.home]
  · exact hg
  · intro i _
    exact (hq.remaining i).le
  · intro i _
    rw [hq.remaining, hq.executed]
  · intro i
    exact (hq.executed i).ge

theorem shrunk (h : d.Sound reported) (hs : Shrunk d.market x) (hg : Grows d.market x) :
    Sound { d with market := x } reported := by
  apply h.market (h.fresh.shrunk hs) fun i hi => (h.homed i hi).shrunk hs
  · intro i _
    rw [hs.home]
  · exact hg
  · intro i _
    exact hs.remaining_le i
  · intro i _
    rw [hs.executed]
    exact Nat.add_le_add_right (hs.remaining_le i) _
  · intro i
    exact (hs.executed i).ge

/-- A submission by someone else. -/
theorem filled (h : d.Sound reported) (hid : id < d.market.nextOrderId) (hnew : id ∉ d.quoted)
    (habs : ∀ c, d.market.getOrder c id = none) (hf : Filled d.market x a id side limit q r left)
    (hg : Grows d.market x) : Sound { d with market := x } reported := by
  have hne : ∀ i ∈ d.quoted, i ≠ id := fun i hi he => hnew (he ▸ hi)
  apply h.market (h.fresh.filled hid hf) fun i hi => (h.homed i hi).filled habs hf
  · intro i hi
    rw [hf.home, Function.update_of_ne (hne i hi)]
  · exact hg
  · intro i hi
    have hr := hf.remaining_ne (h.homed i hi) (hne i hi)
    omega
  · intro i hi
    have hr := hf.remaining_ne (h.homed i hi) (hne i hi)
    rw [hf.executed_ne (hne i hi)]
    omega
  · intro i
    by_cases hi : i = id
    · rw [hi, hf.executed_self]
      exact Nat.le_add_right _ _
    · rw [hf.executed_ne hi]
      exact Nat.le_add_right _ _

/-- The engine's own submission, tracked with its full size. -/
theorem place (h : d.Sound reported) (hid : id < d.market.nextOrderId) (hnew : id ∉ d.quoted)
    (habs : ∀ c, d.market.getOrder c id = none) (hzero : d.market.executed id = 0)
    (hf : Filled d.market x o.addr id side limit o.quantity r left)
    (hg : Grows d.market x) (hb : d.market.hasBook o.addr = true) :
    Sound ⟨x, d.engine.track id o, id :: d.quoted⟩ reported := by
  have hs := h.filled hid hnew habs hf hg
  have hlookup : ∀ j, (d.engine.track id o).activeOrders.lookup j =
      if j = id then some o else d.engine.activeOrders.lookup j := fun j => by
    simp [MarketMakerEngine.track]
  have hcons := hf.matched.conserves
  have hleft := hf.left_le
  refine ⟨hs.fresh, ?_, ?_, ?_, ?_, ?_, hs.reported_le⟩
  · intro i hi
    rcases List.mem_cons.mp hi with rfl | hi
    · apply HomedAt.filled _ habs hf
      intro c o ho
      rw [habs c] at ho
      cases ho
    · exact hs.homed i hi
  · intro i hi
    rcases List.mem_cons.mp hi with rfl | hi
    · exact ⟨o.addr, by simp [hf.home]⟩
    · exact hs.placed i hi
  · intro i o' ho
    rw [hlookup] at ho
    split_ifs at ho with hi
    · obtain rfl := Option.some.inj ho
      refine ⟨hi ▸ List.mem_cons_self, ?_, hg _ hb⟩
      simp [hf.home, hi]
    · obtain ⟨hq, hr⟩ := hs.known ho
      exact ⟨List.mem_cons_of_mem _ hq, hr⟩
  · intro i o' ho
    rw [hlookup] at ho
    split_ifs at ho with hi
    · obtain rfl := Option.some.inj ho
      subst hi
      have he := hf.executed_self
      have hr := hf.remaining_self
      dsimp only
      omega
    · exact hs.bound ho
  · intro i hi hr
    change ((d.engine.track id o).activeOrders.lookup i).isSome = true
    rw [hlookup]
    split_ifs with he
    · rfl
    · rcases List.mem_cons.mp hi with rfl | hi
      · exact absurd rfl he
      · exact hs.tracked i hi hr

variable [LawfulUpstream B]

theorem cancelOnBook (h : d.Sound reported) (a : OptionAddr) (i : OrderId) :
    (d.cancelOnBook a i).Sound reported := by
  have hg : Grows d.market (d.market.cancelOrder a i).2 := .of_eq rfl
  rcases d.market.cancelOrder_cases a i with hr | hq
  · exact h.shrunk hr.shrunk hg
  · exact h.quiet hq hg

theorem cancelOrder (h : d.Sound reported) (hc : CancelRemoves B) (i : OrderId) :
    (d.cancelOrder i).Sound reported := by
  unfold Desk.cancelOrder
  cases hi : d.engine.activeOrders.lookup i with
  | none => exact h
  | some o =>
    obtain ⟨hq, hh, hb⟩ := h.known hi
    simp only [hb, if_true]
    apply (h.cancelOnBook o.addr i).forget
    exact cancelOrder_remaining hc (h.homed i hq) hh

omit [LawfulUpstream B] in
/-- A report of executions that happened and were not reported before. -/
theorem onOrderFilled (h : d.Sound reported) (price : ℕ)
    (hq : reported i + q ≤ d.market.executed i) :
    (d.onOrderFilled i price q).Sound (Function.update reported i (reported i + q)) := by
  have hrep : ∀ j, Function.update reported i (reported i + q) j =
      if j = i then reported i + q else reported j := fun j => Function.update_apply _ _ _ _
  have hle : ∀ j, Function.update reported i (reported i + q) j ≤ d.market.executed j := by
    intro j
    rw [hrep]
    split_ifs with hj
    · exact hj ▸ hq
    · exact h.reported_le j
  have hmono : ∀ j, reported j ≤ Function.update reported i (reported i + q) j := by
    intro j
    rw [hrep]
    split_ifs with hj
    · exact hj ▸ Nat.le_add_right _ _
    · exact le_rfl
  have hsame : d.Sound (Function.update reported i (reported i + q)) :=
    { h with
      bound := fun {j o} ho => (h.bound ho).trans (Nat.add_le_add_left (hmono j) _)
      reported_le := hle }
  unfold Desk.onOrderFilled
  rcases d.engine.onOrderFilled_cases (showOrderId B) i price q with
    ⟨-, he⟩ | ⟨o, events, -, ho, he⟩
  · rw [he]
    exact hsame
  · rw [he]
    have hb := h.bound ho
    have hkept : Sound { d with engine := d.engine.takeFill i o q }
        (Function.update reported i (reported i + q)) := by
      unfold MarketMakerEngine.takeFill
      split_ifs with hfull
      · exact hsame.forget _ _ (by omega)
      · have hlookup : ∀ j, (d.engine.track i { o with quantity := o.quantity - q
            }).activeOrders.lookup j =
            if j = i then some { o with quantity := o.quantity - q }
            else d.engine.activeOrders.lookup j := fun j => by
          simp [MarketMakerEngine.track]
        refine ⟨h.fresh, h.homed, h.placed, ?_, ?_, ?_, hle⟩
        · intro j o' hj
          rw [hlookup] at hj
          split_ifs at hj with he
          · have hk := h.known ho
            rw [← Option.some.inj hj, he]
            exact hk
          · exact h.known hj
        · intro j o' hj
          rw [hlookup] at hj
          split_ifs at hj with he
          · rw [← Option.some.inj hj, he, hrep, if_pos rfl]
            dsimp only
            omega
          · exact hsame.bound hj
        · intro j hj hr
          change ((d.engine.track i _).activeOrders.lookup j).isSome = true
          rw [hlookup]
          split_ifs
          · rfl
          · exact h.tracked j hj hr
    exact hkept.congr rfl

omit [LawfulUpstream B] in
theorem newOrderId (h : d.Sound reported) :
    Sound { d with market := d.market.newOrderId.2 } reported :=
  h.quiet (newOrderId_quiet _) (.of_eq rfl)

end Sound

/-- An order of the engine is refused and nothing changes, or it is placed and its remainder
rests. -/
theorem placeOnBook_answer [LawfulUpstream B] (d : Desk B F) (a : OptionAddr) (isBuy : Bool)
    (price q : ℕ) (habs : d.market.getOrder a d.market.nextOrderId = none) :
    let side : Side := if isBuy then .buy else .sell
    (∃ x, d.placeOnBook a isBuy price q = (none, { d with market := x }) ∧ Quiet d.market x ∧
      x.toCatalog = d.market.toCatalog ∧ x.now = d.market.now) ∨
    ∃ x r, d.placeOnBook a isBuy price q = (some d.market.nextOrderId,
        ⟨x, d.engine, d.market.nextOrderId :: d.quoted⟩) ∧
      Filled d.market.newOrderId.2 x a d.market.nextOrderId side (some price) q r
        (rested d.market.nextOrderId side price .gtc r) ∧
      x.toCatalog = d.market.toCatalog ∧ x.now = d.market.now := by
  intro side
  unfold placeOnBook addLimitOrder addLimitOrderFull
  cases h : d.market.newOrderId.2.addLimitOrderWithTif a d.market.nextOrderId side price q .gtc with
  | mk res x =>
    have hc : x.toCatalog = d.market.toCatalog := (congrArg (·.2.toCatalog) h).symm
    have hn : x.now = d.market.now := (congrArg (·.2.now) h).symm
    cases res with
    | error m =>
      left
      refine ⟨x, ?_, (newOrderId_quiet _).trans (addLimit_error h), hc, hn⟩
      simp only [newOrderId, side] at h ⊢
      simp [h, Except.map]
    | ok r =>
      right
      refine ⟨x, r, ?_, (addLimit_ok h habs).1, hc, hn⟩
      simp only [newOrderId, side] at h ⊢
      simp [h, Except.map]

/-- An order of the engine is refused and nothing changes, or it is placed. -/
theorem placeOnBook_cases [LawfulUpstream B] (d : Desk B F) (a : OptionAddr) (isBuy : Bool)
    (price q : ℕ) (habs : d.market.getOrder a d.market.nextOrderId = none) :
    (∃ x, d.placeOnBook a isBuy price q = (none, { d with market := x }) ∧ Quiet d.market x ∧
      x.toCatalog = d.market.toCatalog ∧ x.now = d.market.now) ∨
    ∃ x side r left, d.placeOnBook a isBuy price q = (some d.market.nextOrderId,
        ⟨x, d.engine, d.market.nextOrderId :: d.quoted⟩) ∧
      Filled d.market.newOrderId.2 x a d.market.nextOrderId side (some price) q r left ∧
      x.toCatalog = d.market.toCatalog ∧ x.now = d.market.now := by
  rcases d.placeOnBook_answer a isBuy price q habs with hno | ⟨x, r, he, hf, hc, hn⟩
  · exact .inl hno
  · exact .inr ⟨x, _, r, _, he, hf, hc, hn⟩

/-- A leg is refused and nothing changes, or it is placed and tracked, and its remainder rests. -/
theorem placeLeg_answer [LawfulUpstream B] (d : Desk B F) (price : ℕ) (o : ActiveOrderInfo)
    (habs : d.market.getOrder o.addr d.market.nextOrderId = none) :
    let side : Side := if o.isBuy then .buy else .sell
    (∃ x, d.placeLeg o.addr price o = (none, { d with market := x }) ∧ Quiet d.market x ∧
      x.toCatalog = d.market.toCatalog ∧ x.now = d.market.now) ∨
    ∃ x r, d.placeLeg o.addr price o = (some d.market.nextOrderId,
        ⟨x, d.engine.track d.market.nextOrderId o, d.market.nextOrderId :: d.quoted⟩) ∧
      Filled d.market.newOrderId.2 x o.addr d.market.nextOrderId side (some price) o.quantity r
        (rested d.market.nextOrderId side price .gtc r) ∧
      x.toCatalog = d.market.toCatalog ∧ x.now = d.market.now := by
  intro side
  unfold placeLeg
  rcases d.placeOnBook_answer o.addr o.isBuy price o.quantity habs with ⟨x, he, hx⟩ | ⟨x, r, he, hx⟩
  · exact .inl ⟨x, by rw [he], hx⟩
  · exact .inr ⟨x, r, by rw [he], hx⟩

/-- A leg is refused and nothing changes, or it is placed and tracked. -/
theorem placeLeg_cases [LawfulUpstream B] (d : Desk B F) (price : ℕ) (o : ActiveOrderInfo)
    (habs : d.market.getOrder o.addr d.market.nextOrderId = none) :
    (∃ x, d.placeLeg o.addr price o = (none, { d with market := x }) ∧ Quiet d.market x ∧
      x.toCatalog = d.market.toCatalog ∧ x.now = d.market.now) ∨
    ∃ x side r left, d.placeLeg o.addr price o = (some d.market.nextOrderId,
        ⟨x, d.engine.track d.market.nextOrderId o, d.market.nextOrderId :: d.quoted⟩) ∧
      Filled d.market.newOrderId.2 x o.addr d.market.nextOrderId side (some price) o.quantity r
        left ∧ x.toCatalog = d.market.toCatalog ∧ x.now = d.market.now := by
  rcases d.placeLeg_answer price o habs with hno | ⟨x, r, he, hf, hc, hn⟩
  · exact .inl hno
  · exact .inr ⟨x, _, r, _, he, hf, hc, hn⟩

/-- `Sound`, and the two maps of the engine in step. -/
structure Tidy (d : Desk B F) (reported : OrderId → ℕ) : Prop extends Sound d reported where
  indexed : d.engine.Indexed

namespace Tidy
variable [LawfulUpstream B] {d : Desk B F} {reported : OrderId → ℕ} {a : OptionAddr}

theorem cancelOrder (h : d.Tidy reported) (hc : CancelRemoves B) (i : OrderId) :
    (d.cancelOrder i).Tidy reported where
  toSound := h.toSound.cancelOrder hc i
  indexed := by
    unfold Desk.cancelOrder
    cases hi : d.engine.activeOrders.lookup i with
    | none => exact h.indexed
    | some o =>
      have hf := h.indexed.forget hi
      dsimp only
      split_ifs
      · exact hf
      · exact hf

omit [LawfulUpstream B] in
theorem onOrderFilled (h : d.Tidy reported) (i : OrderId) (price q : ℕ)
    (hq : reported i + q ≤ d.market.executed i) :
    (d.onOrderFilled i price q).Tidy (Function.update reported i (reported i + q)) where
  toSound := h.toSound.onOrderFilled price hq
  indexed := h.indexed.onOrderFilled _ i price q

omit [LawfulUpstream B] in
theorem congr (h : d.Tidy reported) {e : MarketMakerEngine F}
    (ha : e.activeOrders = d.engine.activeOrders)
    (hi : e.instrumentOrders = d.engine.instrumentOrders) :
    Tidy { d with engine := e } reported where
  toSound := h.toSound.congr ha
  indexed := h.indexed.congr ha hi

end Tidy

/-- A row of cancels on one book, as the stale quotes of an instrument get. -/
theorem foldl_cancelOnBook [LawfulUpstream B] {d : Desk B F} {reported : OrderId → ℕ}
    (h : d.Sound reported) (hc : CancelRemoves B) (a : OptionAddr) (ids : List OrderId) :
    let d' := ids.foldl (fun d id => d.cancelOnBook a id) d
    d'.Sound reported ∧ d'.engine = d.engine ∧ d'.quoted = d.quoted ∧
      d'.market.toCatalog = d.market.toCatalog ∧
      (∀ i, d'.market.remaining i ≤ d.market.remaining i) ∧
      ∀ i ∈ ids, i ∈ d.quoted → d.market.home i = some a → d'.market.remaining i = 0 := by
  induction ids generalizing d with
  | nil => exact ⟨h, rfl, rfl, rfl, fun _ => le_rfl, by simp⟩
  | cons id ids ih =>
    obtain ⟨hs, he, hq, hcat, hle, hz⟩ := ih (h.cancelOnBook a id)
    have hhome : (d.cancelOnBook a id).market.home = d.market.home := rfl
    have hstep : ∀ i, (d.cancelOnBook a id).market.remaining i ≤ d.market.remaining i := fun i =>
      d.market.cancelOrder_remaining_le a id i
    refine ⟨hs, he, hq, hcat, fun i => (hle i).trans (hstep i), ?_⟩
    intro i hi hqi ha
    rcases List.mem_cons.mp hi with rfl | hi
    · have h0 : (d.cancelOnBook a i).market.remaining i = 0 :=
        cancelOrder_remaining hc (h.homed i hqi) ha
      exact Nat.le_zero.mp (h0 ▸ hle i)
    · exact hz i hi hqi (hhome ▸ ha)

end Desk
end MarketMaker
end OptionChainBackend
