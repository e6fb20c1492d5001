import OptionChainBackend.MarketMaker.Race
import OptionChainBackend.Upstream.Ages

/-!
Any number of concurrent calls of the engine of every kind: requotes, fills, cancels and
shutdowns. The two maps are locked one after the other, so between the two sections of one call
another call may have recorded a new quote where the first one is about to write.
-/
namespace OptionChainBackend
namespace MarketMaker
open Foundation Upstream Exchange MarketMakerEngine

/-- Where a call of `on_order_filled` stands. -/
inductive FillPc where
  | gate (id : OrderId) (price quantity : ℕ)
  | take (id : OrderId) (price quantity : ℕ)
  | unslot (id : OrderId) (order : ActiveOrderInfo) (price reported : ℕ)
  | announce (id : OrderId) (order : ActiveOrderInfo) (price reported : ℕ)
  | done

/-- A call of the engine. -/
inductive CallPc (F : Type) where
  | update (pc : UpdatePc F)
  | fill (pc : FillPc)
  | cancel (pc : CancelPc)
  | shutdown (pc : SwitchPc)

namespace Desk
variable {B F : Type} [Upstream B] [F64 F]

def fillStep (d : Desk B F) : FillPc → Desk B F × FillPc
  | .gate i p q =>
    (d, if q = 0 then .done
      else if (d.engine.activeOrders.lookup i).isSome then .take i p q else .done)
  | .take i p q =>
    match d.engine.activeOrders.lookup i with
    | none => (d, .done)
    | some o =>
      if o.quantity ≤ q then
        ({ d with engine := d.engine.untrack i }, .unslot i o p (min q o.quantity))
      else
        ({ d with engine := d.engine.track i { o with quantity := o.quantity - q } },
          .announce i o p (min q o.quantity))
  | .unslot i o p reported =>
    ({ d with engine := d.engine.clearInstrumentSlot (.fromOrder o) o.isBuy },
      .announce i o p reported)
  | .announce i o p reported =>
    ({ d with engine :=
        if p < 2 ^ 64 then
          d.engine.send (.orderFilled (showOrderId B i) o.symbol o.instrument
            (if o.isBuy then "buy" else "sell") reported p (calculateEdge p o.theoCents o.isBuy))
        else d.engine }, .done)
  | .done => (d, .done)

def callStep (d : Desk B F) : CallPc F → Desk B F × CallPc F
  | .update pc => ((d.updateStep pc).1, .update (d.updateStep pc).2)
  | .fill pc => ((d.fillStep pc).1, .fill (d.fillStep pc).2)
  | .cancel pc => ((d.cancelStep pc).1, .cancel (d.cancelStep pc).2)
  | .shutdown pc => ((d.switchStep pc).1, .shutdown (d.switchStep pc).2)

omit [F64 F] in
/-- `on_order_filled` run alone, step by step, ends where the sequential operation ends. -/
theorem leads_onOrderFilled (d : Desk B F) (i : OrderId) (p q : ℕ) :
    Relation.ReflTransGen (fun c c' : Desk B F × FillPc => c.1.fillStep c.2 = c')
      (d, .gate i p q) (d.onOrderFilled i p q, .done) := by
  unfold onOrderFilled MarketMakerEngine.onOrderFilled
  by_cases hq : q = 0
  · apply Relation.ReflTransGen.single
    simp [fillStep, hq]
  rw [if_neg hq]
  cases hi : d.engine.activeOrders.lookup i with
  | none =>
    apply Relation.ReflTransGen.single
    simp [fillStep, hi]
  | some o =>
    have hgate : d.fillStep (.gate i p q) = (d, .take i p q) := by simp [fillStep, hq, hi]
    refine .head hgate ?_
    dsimp only
    unfold takeFill
    by_cases hfull : o.quantity ≤ q
    · have htake : d.fillStep (.take i p q) =
          ({ d with engine := d.engine.untrack i }, .unslot i o p (min q o.quantity)) := by
        simp [fillStep, hi, hfull]
      rw [if_pos hfull]
      exact .head htake (.head rfl (.single rfl))
    · have htake : d.fillStep (.take i p q) =
          ({ d with engine := d.engine.track i { o with quantity := o.quantity - q } },
            .announce i o p (min q o.quantity)) := by
        simp [fillStep, hi, hfull]
      rw [if_neg hfull]
      exact .head htake (.single rfl)

end Desk

variable {ι B F : Type}

structure Traffic (ι B F : Type) where
  desk : Desk B F
  calls : ι → CallPc F

/-- One step of a call of the engine, or a call of the books by somebody else. -/
inductive TrafficMove (ι : Type) where
  | call (t : ι)
  | books (c : BookCall)

namespace Traffic

def step [Upstream B] [F64 F] [DecidableEq ι] (s : Traffic ι B F) :
    TrafficMove ι → Traffic ι B F
  | .call t =>
    let out := s.desk.callStep (s.calls t)
    ⟨out.1, Function.update s.calls t out.2⟩
  | .books c => { s with desk := { s.desk with market := c.apply s.desk.market } }

/-- The call has tracked the order and will record it at position `p`. -/
def Carries (i : OrderId) (p : InstrumentKey × Fin 2) : CallPc F → Prop
  | .update (.placeAsk job bid) => bid = some i ∧ p = (.new job.addr, legSlot true)
  | .update (.trackAsk job bid _) => bid = some i ∧ p = (.new job.addr, legSlot true)
  | .update (.record job placed) => p.1 = .new job.addr ∧ placed p.2 = some i
  | _ => False

/-- The orders in the hands of a call rest, if at all, on the book it quotes. -/
def PlacedBy (x : Exchange B) : CallPc F → Prop
  | .update (.trackBid job id) => x.home id = some job.addr
  | .update (.placeAsk job bid) => ∀ i, bid = some i → x.home i = some job.addr
  | .update (.trackAsk job bid id) => x.home id = some job.addr ∧
      ∀ i, bid = some i → x.home i = some job.addr
  | .update (.record job placed) => ∀ leg i, placed leg = some i → x.home i = some job.addr
  | _ => True

theorem PlacedBy.mono {x x' : Exchange B} {pc : CallPc F} (h : PlacedBy x pc)
    (hhome : ∀ {i a}, x.home i = some a → x'.home i = some a) : PlacedBy x' pc := by
  unfold PlacedBy at h ⊢
  split
  · exact hhome h
  · exact fun i hi => hhome (h i hi)
  · exact ⟨hhome h.1, fun i hi => hhome (h.2 i hi)⟩
  · exact fun leg i hi => hhome (h leg i hi)
  · exact trivial

variable [Upstream B] {s : Traffic ι B F} {d : Desk B F} {t : ι} {pc : CallPc F}

/-- The order is tracked and rests. -/
def Live (s : Traffic ι B F) (i : OrderId) : Prop :=
  (s.desk.engine.activeOrders.lookup i).isSome = true ∧ 0 < s.desk.market.remaining i

/-- The next step of call `t` takes `i` out of the index. -/
def Drops (s : Traffic ι B F) (t : ι) (i : OrderId) : Prop :=
  match s.calls t with
  | .update (.unindex job) => ∃ leg, s.desk.engine.slotAt (.new job.addr, leg) = some i
  | .update (.record job placed) => placed.isEmpty = false ∧
      ∃ leg, s.desk.engine.slotAt (.new job.addr, leg) = some i ∧ placed leg ≠ some i
  | .fill (.unslot _ o _ _) => s.desk.engine.slotAt (position o) = some i
  | .cancel (.unslot _ o) => s.desk.engine.slotAt (position o) = some i
  | .shutdown (.cancelling (.unslot _ o) _) => s.desk.engine.slotAt (position o) = some i
  | .shutdown (.cancelling .done []) => ∃ key ∈ s.desk.engine.instrumentOrders.keys,
      ∃ leg, s.desk.engine.slotAt (key, leg) = some i
  | _ => False

instance (s : Traffic ι B F) (t : ι) : DecidablePred (s.Drops t) := fun i => by
  unfold Drops
  split <;> infer_instance

/-- What a step takes out of the index no longer rests or is no longer tracked. -/
def Benign (s : Traffic ι B F) : TrafficMove ι → Prop
  | .call t => ∀ i, s.Drops t i → ¬ s.Live i
  | .books _ => True

theorem benign_call_iff : s.Benign (.call t) ↔ ∀ i ∈ s.desk.engine.activeOrders.keys,
    s.Drops t i → s.desk.market.remaining i = 0 := by
  constructor
  · intro h i hi hdrops
    have hactive := Option.isSome_iff_exists.mpr ((Table.mem_keys_iff _ _).mp hi)
    have hdead : ¬ 0 < s.desk.market.remaining i := fun hpos => h i hdrops ⟨hactive, hpos⟩
    omega
  · rintro h i hdrops ⟨hactive, hpos⟩
    have hmem := (Table.mem_keys_iff _ _).mpr (Option.isSome_iff_exists.mp hactive)
    have hzero := h i hmem hdrops
    omega

instance (s : Traffic ι B F) : DecidablePred s.Benign
  | .call _ => decidable_of_iff' _ benign_call_iff
  | .books _ => .isTrue trivial

structure Safe (s : Traffic ι B F) : Prop where
  fresh : s.desk.market.Fresh
  homed : s.desk.market.Homed
  known : ∀ {i o}, s.desk.engine.activeOrders.lookup i = some o →
    s.desk.market.home i = some o.addr
  recorded : ∀ {p i}, s.desk.engine.slotAt p = some i →
    ∃ a, s.desk.market.home i = some a ∧ InstrumentKey.new a = p.1
  calls : ∀ t, PlacedBy s.desk.market (s.calls t)

/-- Every order that is tracked and rests is in its slot, or a call is about to record it. -/
def Found (s : Traffic ι B F) : Prop :=
  ∀ i o, s.desk.engine.activeOrders.lookup i = some o → 0 < s.desk.market.remaining i →
    s.desk.engine.slotAt (position o) = some i ∨ ∃ t, Carries i (position o) (s.calls t)

/-- What one step of call `t` can do. -/
structure Stepped (s : Traffic ι B F) (t : ι) (d : Desk B F) (pc : CallPc F) : Prop where
  wanes : Wanes s.desk.market d.market
  known : ∀ i o, d.engine.activeOrders.lookup i = some o →
    (∃ o', s.desk.engine.activeOrders.lookup i = some o' ∧ position o' = position o) ∨
      d.market.home i = some o.addr ∧ Carries i (position o) pc
  recorded : ∀ p i, d.engine.slotAt p = some i → s.desk.engine.slotAt p = some i ∨
    ∃ a, d.market.home i = some a ∧ InstrumentKey.new a = p.1
  placed : PlacedBy d.market pc
  kept : ∀ p i, s.desk.engine.slotAt p = some i → d.engine.slotAt p = some i ∨ s.Drops t i
  carried : ∀ i p, Carries i p (s.calls t) → Carries i p pc ∨ d.engine.slotAt p = some i

theorem addr_of_position {o o' : ActiveOrderInfo} (h : position o' = position o) :
    o'.addr = o.addr := InstrumentKey.new_injective (congrArg Prod.fst h)

namespace Stepped

variable [DecidableEq ι]

theorem safe (h : Stepped s t d pc) (hs : s.Safe) :
    Safe ⟨d, Function.update s.calls t pc⟩ where
  fresh := h.wanes.fresh
  homed := h.wanes.homed hs.homed
  known {i o} ho := by
    rcases h.known i o ho with ⟨o', ho', hp⟩ | ⟨hhome, -⟩
    · rw [← addr_of_position hp]
      exact h.wanes.home (hs.known ho')
    · exact hhome
  recorded {p i} hi := by
    rcases h.recorded p i hi with hold | hnew
    · obtain ⟨a, hhome, hkey⟩ := hs.recorded hold
      exact ⟨a, h.wanes.home hhome, hkey⟩
    · exact hnew
  calls u := by
    show PlacedBy d.market (Function.update s.calls t pc u)
    by_cases hu : u = t
    · subst hu
      rw [Function.update_self]
      exact h.placed
    · rw [Function.update_of_ne hu]
      exact (hs.calls u).mono h.wanes.home

theorem found (h : Stepped s t d pc) (hs : s.Safe) (hf : s.Found)
    (hok : ∀ i, s.Drops t i → ¬ s.Live i) : Found ⟨d, Function.update s.calls t pc⟩ := by
  intro i o ho hpos
  show d.engine.slotAt (position o) = some i ∨
    ∃ u, Carries i (position o) (Function.update s.calls t pc u)
  rcases h.known i o ho with ⟨o', ho', hp⟩ | ⟨-, hcarry⟩
  · have hold : 0 < s.desk.market.remaining i :=
      lt_of_lt_of_le hpos (h.wanes.remaining (hs.known ho'))
    have hlive : s.Live i := ⟨by rw [ho']; rfl, hold⟩
    rw [← hp]
    rcases hf i o' ho' hold with hslot | ⟨u, hu⟩
    · rcases h.kept _ i hslot with hkept | hdrops
      · exact .inl hkept
      · exact absurd hlive (hok i hdrops)
    · by_cases hut : u = t
      · subst hut
        rcases h.carried i _ hu with hcarry | hslot
        · exact .inr ⟨u, by rwa [Function.update_self]⟩
        · exact .inl hslot
      · exact .inr ⟨u, by rwa [Function.update_of_ne hut]⟩
  · exact .inr ⟨t, by rwa [Function.update_self]⟩

omit [DecidableEq ι] in
/-- A book call of the call, or a step that writes nothing the two maps hold. -/
theorem onBook (hw : Wanes s.desk.market d.market)
    (ha : d.engine.activeOrders = s.desk.engine.activeOrders)
    (hi : d.engine.instrumentOrders = s.desk.engine.instrumentOrders)
    (hplaced : PlacedBy d.market pc)
    (hcarried : ∀ i p, Carries i p (s.calls t) → Carries i p pc) : Stepped s t d pc := by
  have hslots : d.engine.slotAt = s.desk.engine.slotAt := by
    funext p
    simp only [slotAt, slots, hi]
  refine ⟨hw, fun i o ho => ?_, fun p i hp => ?_, hplaced, fun p i hp => ?_, fun i p hc => ?_⟩
  · exact .inl ⟨o, by rwa [← ha], rfl⟩
  · exact .inl (by rwa [← hslots])
  · exact .inl (by rwa [hslots])
  · exact .inl (hcarried i p hc)

omit [DecidableEq ι] in
/-- A step that only takes orders out of tracking, or reduces them. -/
theorem thin (hs : s.Safe) {e : MarketMakerEngine F}
    (hactive : ∀ i o, e.activeOrders.lookup i = some o →
      ∃ o', s.desk.engine.activeOrders.lookup i = some o' ∧ position o' = position o)
    (hi : e.instrumentOrders = s.desk.engine.instrumentOrders)
    (hplaced : PlacedBy s.desk.market pc)
    (hcarried : ∀ i p, Carries i p (s.calls t) → Carries i p pc) :
    Stepped s t { s.desk with engine := e } pc := by
  have hslots : e.slotAt = s.desk.engine.slotAt := by
    funext p
    simp only [slotAt, slots, hi]
  refine ⟨.refl hs.fresh, fun i o ho => .inl (hactive i o ho), fun p i hp => ?_, hplaced,
    fun p i hp => ?_, fun i p hc => .inl (hcarried i p hc)⟩
  · refine .inl ?_
    rw [← hslots]
    exact hp
  · refine .inl ?_
    show e.slotAt p = some i
    rwa [hslots]

omit [DecidableEq ι] in
/-- A step that takes ids out of the index. -/
theorem drop (hs : s.Safe) {e : MarketMakerEngine F}
    (ha : e.activeOrders = s.desk.engine.activeOrders)
    (hrec : ∀ p i, e.slotAt p = some i → s.desk.engine.slotAt p = some i)
    (hplaced : PlacedBy s.desk.market pc)
    (hkept : ∀ p i, s.desk.engine.slotAt p = some i → e.slotAt p = some i ∨ s.Drops t i)
    (hcarried : ∀ i p, ¬ Carries i p (s.calls t)) :
    Stepped s t { s.desk with engine := e } pc where
  wanes := .refl hs.fresh
  known i o ho := .inl ⟨o, by rw [← ha]; exact ho, rfl⟩
  recorded p i hp := .inl (hrec p i hp)
  placed := hplaced
  kept := hkept
  carried i p hc := absurd hc (hcarried i p)

omit [DecidableEq ι] in
/-- A leg goes from the call to the table of tracked orders. -/
theorem track (hs : s.Safe) {id : OrderId} {o : ActiveOrderInfo}
    (hhome : s.desk.market.home id = some o.addr) (hplaced : PlacedBy s.desk.market pc)
    (hnew : Carries id (position o) pc)
    (hcarried : ∀ i p, Carries i p (s.calls t) → Carries i p pc) :
    Stepped s t { s.desk with engine := s.desk.engine.track id o } pc where
  wanes := .refl hs.fresh
  known i o' ho := by
    have hlook : (s.desk.engine.track id o).activeOrders.lookup i = some o' := ho
    simp only [MarketMakerEngine.track, Table.lookup_insert_eq] at hlook
    split_ifs at hlook with hid
    · rw [hid, ← Option.some.inj hlook]
      exact .inr ⟨hhome, hnew⟩
    · exact .inl ⟨o', hlook, rfl⟩
  recorded p i hp := .inl hp
  placed := hplaced
  kept p i hp := .inl hp
  carried i p hc := .inl (hcarried i p hc)

variable [LawfulUpstream B]

omit [DecidableEq ι] in
/-- A leg goes to the book: refused, or in the hands of the call. -/
theorem place (hs : s.Safe) (t : ι) (a : OptionAddr) (isBuy : Bool) (price q : ℕ)
    (pc : CallPc F) (pc' : OrderId → CallPc F)
    (hnone : ∀ x, Wanes s.desk.market x → PlacedBy x pc)
    (hsome : ∀ x i, Wanes s.desk.market x → x.home i = some a → PlacedBy x (pc' i))
    (hcarried : ∀ i p, Carries i p (s.calls t) → Carries i p pc ∧ ∀ j, Carries i p (pc' j)) :
    Stepped s t (s.desk.placeOnBook a isBuy price q).2
      (match (s.desk.placeOnBook a isBuy price q).1 with
        | some i => pc' i
        | none => pc) := by
  have hfresh : s.desk.market.newOrderId.2.Fresh := hs.fresh.quiet (newOrderId_quiet _)
  rcases s.desk.placeOnBook_cases a isBuy price q (hs.fresh.absent le_rfl) with
    ⟨x, he, hq, -, -⟩ | ⟨x, side, r, left, he, hfill, -, -⟩
  · rw [he]
    have hw : Wanes s.desk.market x := hq.wanes hs.fresh
    exact onBook hw rfl rfl (hnone x hw) fun i p hc => (hcarried i p hc).1
  · rw [he]
    have hw : Wanes s.desk.market x := ((newOrderId_quiet _).wanes hs.fresh).trans
      (hfill.wanes hfresh (Nat.lt_succ_self _) (hs.fresh.home_eq_none le_rfl))
    have hhome : x.home s.desk.market.nextOrderId = some a := by simp [hfill.home]
    exact onBook hw rfl rfl (hsome x _ hw hhome) fun i p hc => (hcarried i p hc).2 _

omit [DecidableEq ι] [LawfulUpstream B] in
theorem record (hs : s.Safe) {job : Job F} {placed : Slots}
    (hpc : s.calls t = .update (.record job placed)) {event : MarketMakerEvent F} :
    Stepped s t { s.desk with
      engine := (s.desk.engine.recordLegs (.new job.addr) placed).send event }
      (.update (.quoting job.rest)) := by
  have hplaced : PlacedBy s.desk.market (s.calls t) := hs.calls t
  rw [hpc] at hplaced
  have hactive : (s.desk.engine.recordLegs (.new job.addr) placed).activeOrders =
      s.desk.engine.activeOrders := by
    unfold recordLegs
    split_ifs <;> rfl
  have hslot : ∀ p, (s.desk.engine.recordLegs (.new job.addr) placed).slotAt p =
      if placed.isEmpty = false ∧ p.1 = .new job.addr then placed p.2
      else s.desk.engine.slotAt p := by
    rintro ⟨key, leg⟩
    unfold recordLegs
    by_cases hempty : placed.isEmpty = true
    · simp [hempty]
    · by_cases hkey : key = .new job.addr
      · simp [slotAt, slots, hempty, hkey]
      · simp [slotAt, slots, hempty, hkey]
  refine ⟨.refl hs.fresh, fun i o ho => ?_, fun p i hp => ?_, trivial, fun p i hp => ?_,
    fun i p hc => ?_⟩
  · exact .inl ⟨o, by rw [← hactive]; exact ho, rfl⟩
  · have hrec : (s.desk.engine.recordLegs (.new job.addr) placed).slotAt p = some i := hp
    rw [hslot] at hrec
    split_ifs at hrec with hkey
    · exact .inr ⟨job.addr, hplaced p.2 i hrec, hkey.2.symm⟩
    · exact .inl hrec
  · show (s.desk.engine.recordLegs (.new job.addr) placed).slotAt p = some i ∨ s.Drops t i
    rw [hslot]
    split_ifs with hkey
    · by_cases hsame : placed p.2 = some i
      · exact .inl hsame
      · refine .inr ?_
        unfold Drops
        rw [hpc]
        exact ⟨hkey.1, p.2, hkey.2 ▸ hp, hsame⟩
    · exact .inl hp
  · rw [hpc] at hc
    refine .inr ?_
    show (s.desk.engine.recordLegs (.new job.addr) placed).slotAt p = some i
    have hfull : placed.isEmpty = false := by
      refine Bool.eq_false_iff.mpr fun he => ?_
      have hsome := hc.2
      rw [(Slots.isEmpty_iff placed).mp he] at hsome
      cases hsome
    rw [hslot, if_pos ⟨hfull, hc.1⟩]
    exact hc.2

omit [DecidableEq ι] in
theorem update [F64 F] (hs : s.Safe) {pc : UpdatePc F} (hpc : s.calls t = .update pc) :
    Stepped s t (s.desk.updateStep pc).1 (.update (s.desk.updateStep pc).2) := by
  have hplaced : PlacedBy s.desk.market (s.calls t) := hs.calls t
  rw [hpc] at hplaced
  have hread : ∀ {e : MarketMakerEngine F} {pc' : UpdatePc F},
      e.activeOrders = s.desk.engine.activeOrders →
      e.instrumentOrders = s.desk.engine.instrumentOrders →
      PlacedBy s.desk.market (.update pc') →
      (∀ i p, Carries i p (.update pc) → Carries i p (.update pc')) →
      Stepped s t { s.desk with engine := e } (.update pc') := fun ha hi hp hc =>
    onBook (d := { s.desk with engine := _ }) (.refl hs.fresh) ha hi hp (by rw [hpc]; exact hc)
  cases pc with
  | write symbol p => exact hread rfl rfl trivial fun _ _ => id
  | readSwitch symbol =>
    simp only [Desk.updateStep]
    split_ifs <;> exact hread rfl rfl trivial fun _ _ => id
  | readSymbol symbol =>
    simp only [Desk.updateStep]
    split_ifs <;> exact hread rfl rfl trivial fun _ _ => id
  | readPrice symbol =>
    simp only [Desk.updateStep]
    cases s.desk.engine.getPrice symbol <;> exact hread rfl rfl trivial fun _ _ => id
  | readConfig symbol spot => exact hread rfl rfl trivial fun _ _ => id
  | done => exact hread rfl rfl trivial fun _ _ => id
  | quoting work =>
    cases work with
    | nil => exact hread rfl rfl trivial fun _ _ => id
    | cons i rest =>
      simp only [Desk.updateStep]
      cases hq : s.desk.quoteOf i with
      | none => exact hread rfl rfl trivial fun _ _ => id
      | some q =>
        dsimp only
        split_ifs <;> exact hread rfl rfl trivial fun _ _ => id
  | cancelStale job stale left =>
    cases left with
    | cons i left =>
      exact onBook (cancelOrder_wanes hs.fresh _ _) rfl rfl trivial (by rw [hpc]; exact fun _ _ => id)
    | nil =>
      apply thin hs
      · intro i o ho
        rw [foldl_untrack_lookup] at ho
        split_ifs at ho
        exact ⟨o, ho, rfl⟩
      · exact foldl_untrack_instrumentOrders _ _
      · trivial
      · rw [hpc]
        exact fun _ _ => id
  | unindex job =>
    apply drop hs (e := s.desk.engine.removeEntry (.new job.addr)) rfl
    · exact fun p i hp => Race.removeEntry_slots _ _ hp
    · trivial
    · rintro ⟨key, leg⟩ i hp
      by_cases hkey : key = .new job.addr
      · refine .inr ?_
        unfold Drops
        rw [hpc]
        exact ⟨leg, hkey ▸ hp⟩
      · refine .inl ?_
        simpa [slotAt, slots, removeEntry, hkey] using hp
    · intro i p hc
      rw [hpc] at hc
      exact hc
  | placeBid job =>
    have hplace := place hs t job.addr true job.quote.bidPrice job.quote.bidSize
      (.update (.placeAsk job none)) (fun i => .update (.trackBid job i))
      (fun x _ i hi => by cases hi) (fun x i _ hhome => hhome) (by rw [hpc]; exact fun _ _ => False.elim)
    simp only [Desk.updateStep]
    rcases hout : s.desk.placeOnBook job.addr true job.quote.bidPrice job.quote.bidSize with
      ⟨_ | id, d⟩
    · rwa [hout] at hplace
    · rwa [hout] at hplace
  | trackBid job id =>
    apply track hs (o := job.leg true) hplaced
    · intro i hi
      rw [← Option.some.inj hi]
      exact hplaced
    · exact ⟨rfl, rfl⟩
    · rw [hpc]
      exact fun _ _ => False.elim
  | placeAsk job bid =>
    have hplace := place hs t job.addr false job.quote.askPrice job.quote.askSize
      (.update (.record job (Slots.pair bid none))) (fun i => .update (.trackAsk job bid i))
      (fun x hw leg i hi => by
        unfold Slots.pair at hi
        split_ifs at hi
        exact hw.home (hplaced i hi))
      (fun x i hw hhome => ⟨hhome, fun j hj => hw.home (hplaced j hj)⟩)
      (by
        rw [hpc]
        rintro i p ⟨hbid, rfl⟩
        exact ⟨⟨rfl, hbid⟩, fun j => ⟨hbid, rfl⟩⟩)
    simp only [Desk.updateStep]
    rcases hout : s.desk.placeOnBook job.addr false job.quote.askPrice job.quote.askSize with
      ⟨_ | id, d⟩
    · rwa [hout] at hplace
    · rwa [hout] at hplace
  | trackAsk job bid id =>
    apply track hs (o := job.leg false) hplaced.1
    · intro leg i hi
      unfold Slots.pair at hi
      split_ifs at hi
      · exact hplaced.2 i hi
      · rw [← Option.some.inj hi]
        exact hplaced.1
    · exact ⟨rfl, rfl⟩
    · rw [hpc]
      rintro i p ⟨hbid, rfl⟩
      exact ⟨rfl, hbid⟩
  | record job placed => exact record hs hpc

omit [DecidableEq ι] [LawfulUpstream B] in
/-- A slot is cleared, whatever it holds. -/
theorem clear (hs : s.Safe) (o : ActiveOrderInfo)
    (hdrops : ∀ i, s.desk.engine.slotAt (position o) = some i → s.Drops t i)
    (hplaced : PlacedBy s.desk.market pc) (hcarried : ∀ i p, ¬ Carries i p (s.calls t)) :
    Stepped s t { s.desk with
      engine := s.desk.engine.clearInstrumentSlot (.fromOrder o) o.isBuy } pc := by
  have hslot : ∀ p, (s.desk.engine.clearInstrumentSlot (.fromOrder o) o.isBuy).slotAt p =
      if p = position o then none else s.desk.engine.slotAt p := fun p => by
    rw [clearInstrumentSlot_slotAt, Function.update_apply]
  apply drop hs (clearInstrumentSlot_activeOrders _ _) _ hplaced _ hcarried
  · intro p i hp
    rw [hslot] at hp
    split_ifs at hp
    exact hp
  · intro p i hp
    rw [hslot]
    split_ifs with heq
    · exact .inr (hdrops i (heq ▸ hp))
    · exact .inl hp

omit [DecidableEq ι] [LawfulUpstream B] in
/-- An order leaves the table of tracked orders. -/
theorem untrack (hs : s.Safe) (i : OrderId) (hplaced : PlacedBy s.desk.market pc)
    (hcarried : ∀ j p, ¬ Carries j p (s.calls t)) :
    Stepped s t { s.desk with engine := s.desk.engine.untrack i } pc := by
  apply thin hs
  · intro j o ho
    simp only [MarketMakerEngine.untrack, Table.lookup_erase_eq] at ho
    split_ifs at ho
    exact ⟨o, ho, rfl⟩
  · rfl
  · exact hplaced
  · exact fun j p hc => absurd hc (hcarried j p)

omit [DecidableEq ι] [LawfulUpstream B] in
/-- A step that reads, or writes only settings. -/
theorem read (hs : s.Safe) {e : MarketMakerEngine F}
    (ha : e.activeOrders = s.desk.engine.activeOrders)
    (hi : e.instrumentOrders = s.desk.engine.instrumentOrders)
    (hplaced : PlacedBy s.desk.market pc) (hcarried : ∀ j p, ¬ Carries j p (s.calls t)) :
    Stepped s t { s.desk with engine := e } pc :=
  onBook (d := { s.desk with engine := e }) (.refl hs.fresh) ha hi hplaced
    fun j p hc => absurd hc (hcarried j p)

omit [DecidableEq ι] [LawfulUpstream B] in
theorem fill (hs : s.Safe) {pc : FillPc} (hpc : s.calls t = .fill pc) :
    Stepped s t (s.desk.fillStep pc).1 (.fill (s.desk.fillStep pc).2) := by
  have hnone : ∀ j p, ¬ Carries j p (s.calls t) := by
    rw [hpc]
    exact fun _ _ => id
  cases pc with
  | gate i p q => exact read hs rfl rfl trivial hnone
  | take i p q =>
    simp only [Desk.fillStep]
    cases hi : s.desk.engine.activeOrders.lookup i with
    | none => exact read hs rfl rfl trivial hnone
    | some o =>
      dsimp only
      split_ifs
      · exact untrack hs i trivial hnone
      · apply thin hs
        · intro j o' ho
          simp only [MarketMakerEngine.track, Table.lookup_insert_eq] at ho
          split_ifs at ho with hj
          · rw [hj, ← Option.some.inj ho]
            exact ⟨o, hi, rfl⟩
          · exact ⟨o', ho, rfl⟩
        · rfl
        · trivial
        · exact fun j p hc => absurd hc (hnone j p)
  | unslot i o p reported =>
    have hdrops : ∀ j, s.desk.engine.slotAt (position o) = some j → s.Drops t j := by
      intro j hj
      unfold Drops
      rwa [hpc]
    exact clear hs o hdrops trivial hnone
  | announce i o p reported =>
    simp only [Desk.fillStep]
    split_ifs <;> exact read hs rfl rfl trivial hnone
  | done => exact read hs rfl rfl trivial hnone

omit [DecidableEq ι] in
/-- A step of `cancel_order`, in a call of its own or in a shutdown. -/
theorem cancel (hs : s.Safe) {c : CancelPc} (pc : CancelPc → CallPc F)
    (hplaced : ∀ c, PlacedBy s.desk.market (pc c)) (hnone : ∀ j p, ¬ Carries j p (s.calls t))
    (hdrops : ∀ i o, c = .unslot i o → ∀ j,
      s.desk.engine.slotAt (position o) = some j → s.Drops t j) :
    Stepped s t (s.desk.cancelStep c).1 (pc (s.desk.cancelStep c).2) := by
  cases c with
  | remove i =>
    simp only [Desk.cancelStep]
    cases s.desk.engine.activeOrders.lookup i with
    | none => exact read hs rfl rfl (hplaced _) hnone
    | some o => exact untrack hs i (hplaced _) hnone
  | unslot i o => exact clear hs o (hdrops i o rfl) (hplaced _) hnone
  | onBook i o =>
    simp only [Desk.cancelStep]
    split_ifs
    · have hw := cancelOrder_wanes hs.fresh o.addr i
      exact onBook hw rfl rfl ((hplaced .done).mono hw.home) fun j p hc => absurd hc (hnone j p)
    · exact read hs rfl rfl (hplaced _) hnone
  | done => exact read hs rfl rfl (hplaced _) hnone

omit [DecidableEq ι] in
theorem shutdown (hs : s.Safe) {pc : SwitchPc} (hpc : s.calls t = .shutdown pc) :
    Stepped s t (s.desk.switchStep pc).1 (.shutdown (s.desk.switchStep pc).2) := by
  have hnone : ∀ j p, ¬ Carries j p (s.calls t) := by
    rw [hpc]
    exact fun _ _ => id
  cases pc with
  | flag => exact read hs rfl rfl trivial hnone
  | snapshot => exact read hs rfl rfl trivial hnone
  | cancelling c todo =>
    by_cases hc : c = .done
    · subst hc
      cases todo with
      | nil =>
        have hdrops : ∀ p i, s.desk.engine.slotAt p = some i → s.Drops t i := by
          rintro ⟨key, leg⟩ i hp
          have hkey : key ∈ s.desk.engine.instrumentOrders.keys := by
            rw [Table.mem_keys_iff]
            cases hl : s.desk.engine.instrumentOrders.lookup key with
            | none => simp [slotAt, slots, hl, Slots.none] at hp
            | some v => exact ⟨v, rfl⟩
          unfold Drops
          rw [hpc]
          exact ⟨key, hkey, leg, hp⟩
        apply drop hs (e := s.desk.engine.clearIndex) rfl
        · intro p i hp
          simp [slotAt, slots, clearIndex, Slots.none] at hp
        · trivial
        · exact fun p i hp => .inr (hdrops p i hp)
        · exact hnone
      | cons i todo => exact read hs rfl rfl trivial hnone
    · rw [s.desk.switchStep_cancelling hc todo]
      apply cancel hs (fun c => .shutdown (.cancelling c todo)) (fun _ => trivial) hnone
      rintro i o rfl j hj
      unfold Drops
      rwa [hpc]
  | announce => exact read hs rfl rfl trivial hnone
  | done => exact read hs rfl rfl trivial hnone

omit [DecidableEq ι] in
theorem call [F64 F] (hs : s.Safe) (t : ι) :
    Stepped s t (s.desk.callStep (s.calls t)).1 (s.desk.callStep (s.calls t)).2 := by
  cases hpc : s.calls t with
  | update pc => exact update hs hpc
  | fill pc => exact fill hs hpc
  | cancel pc =>
    apply cancel hs .cancel (fun _ => trivial)
    · rw [hpc]
      exact fun _ _ => id
    · rintro i o rfl j hj
      unfold Drops
      rwa [hpc]
  | shutdown pc => exact shutdown hs hpc

end Stepped

section Runs
variable [DecidableEq ι] [LawfulUpstream B]

omit [DecidableEq ι] in
theorem bookCall_wanes {x : Exchange B} (hf : x.Fresh) (c : BookCall) : Wanes x (c.apply x) := by
  cases c with
  | openBook a => exact (openBook_quiet x a).wanes hf
  | limit a side p q tif =>
    rcases addLimit_cases hf a side p q tif with ⟨e, x', he, hi⟩ | ⟨r, x', he, hs, -⟩
    · simp only [BookCall.apply, newOrderId] at he ⊢
      rw [he]
      exact hi.toQuiet.wanes hf
    · simp only [BookCall.apply, newOrderId] at he ⊢
      rw [he]
      exact hs.wanes hf
  | market a side q =>
    rcases market_cases hf a side q with ⟨e, x', he, hi⟩ | ⟨r, x', he, hs⟩
    · simp only [BookCall.apply, newOrderId] at he ⊢
      rw [he]
      exact hi.toQuiet.wanes hf
    · simp only [BookCall.apply, newOrderId] at he ⊢
      rw [he]
      exact hs.wanes hf
  | cancel a i => exact cancelOrder_wanes hf a i
  | tick ms => exact (tick_shrunk x ms).wanes hf

omit [DecidableEq ι] in
theorem Safe.books (h : s.Safe) (c : BookCall) :
    Safe { s with desk := { s.desk with market := c.apply s.desk.market } } := by
  have hw := bookCall_wanes h.fresh c
  constructor
  · exact hw.fresh
  · exact hw.homed h.homed
  · exact fun ho => hw.home (h.known ho)
  · intro p i hi
    obtain ⟨a, hhome, hkey⟩ := h.recorded hi
    exact ⟨a, hw.home hhome, hkey⟩
  · exact fun t => (h.calls t).mono hw.home

omit [DecidableEq ι] in
theorem Found.books (hf : s.Found) (h : s.Safe) (c : BookCall) :
    Found { s with desk := { s.desk with market := c.apply s.desk.market } } := by
  have hw := bookCall_wanes h.fresh c
  intro i o ho hpos
  exact hf i o ho (lt_of_lt_of_le hpos (hw.remaining (h.known ho)))

/-- The first step of a call; `requote_all` enters the requote of a symbol at its price. -/
def AtStart : CallPc F → Bool
  | .update (.write _ _) => true
  | .update (.readPrice _) => true
  | .fill (.gate _ _ _) => true
  | .cancel (.remove _) => true
  | .shutdown .flag => true
  | _ => false

def Returned : CallPc F → Bool
  | .update .done => true
  | .fill .done => true
  | .cancel .done => true
  | .shutdown .done => true
  | _ => false

/-- Calls about to begin on a desk that is in order. -/
structure Ready (s : Traffic ι B F) : Prop where
  tidy : ∃ reported, s.desk.Tidy reported
  homed : s.desk.market.Homed
  calls : ∀ t, AtStart (s.calls t) = true

omit [DecidableEq ι] [LawfulUpstream B] in
theorem Ready.safe (h : s.Ready) : s.Safe := by
  obtain ⟨reported, ht⟩ := h.tidy
  refine ⟨ht.fresh, h.homed, fun ho => (ht.known ho).2.1, fun {p i} hp => ?_, fun t => ?_⟩
  · obtain ⟨o, ho, rfl⟩ := (ht.indexed.agrees p i).mp hp
    exact ⟨o.addr, (ht.known ho).2.1, rfl⟩
  · have hstart := h.calls t
    unfold PlacedBy
    split <;> rename_i hpc <;> simp [hpc, AtStart] at hstart ⊢

omit [DecidableEq ι] [LawfulUpstream B] in
theorem Ready.found (h : s.Ready) : s.Found := by
  obtain ⟨reported, ht⟩ := h.tidy
  exact fun i o ho _ => .inl (ht.indexed.agrees.index_eq ho)

variable [F64 F]

theorem reaches_safe {ok : Traffic ι B F → TrafficMove ι → Prop} (h : Reaches Ready step ok s) :
    s.Safe := by
  apply h.invariant (P := Safe)
  · exact fun s hs => hs.safe
  · intro s m hs _
    cases m with
    | call t => exact (Stepped.call hs t).safe hs
    | books c => exact hs.books c

theorem reaches_found (h : Reaches Ready step Benign s) : s.Found := by
  induction h with
  | start h => exact h.found
  | @next s m h hok ih =>
    have hs := reaches_safe h
    cases m with
    | call t => exact (Stepped.call hs t).found hs ih hok
    | books c => exact ih.books hs c

/-- No recorded id belongs to another instrument; and in every run whose steps take only dead or
untracked quotes out of the index, every tracked order that rests is in its slot once all calls
have returned. -/
theorem quotes_recorded :
    (∀ s : Traffic ι B F, Reaches Ready step (fun _ _ => True) s →
      ∀ key leg i, s.desk.engine.slots key leg = some i →
        (∃ a, s.desk.market.home i = some a ∧ InstrumentKey.new a = key) ∧
        ∀ o, s.desk.engine.activeOrders.lookup i = some o → InstrumentKey.fromOrder o = key) ∧
    ∀ s : Traffic ι B F, Reaches Ready step Benign s → (∀ t, Returned (s.calls t) = true) →
      ∀ a i o, s.desk.engine.activeOrders.lookup i = some o →
        (s.desk.market.getOrder a i).isSome = true →
        s.desk.engine.slots (.fromOrder o) (legSlot o.isBuy) = some i := by
  constructor
  · intro s h key leg i hi
    have hs := reaches_safe h
    obtain ⟨a, hhome, hkey⟩ := hs.recorded (p := (key, leg)) hi
    refine ⟨⟨a, hhome, hkey⟩, fun o ho => ?_⟩
    have haddr : some o.addr = some a := (hs.known ho).symm.trans hhome
    rw [InstrumentKey.fromOrder_eq, Option.some.inj haddr]
    exact hkey
  · intro s h hret a i o ho hrest
    have hs := reaches_safe h
    have hpos : 0 < s.desk.market.remaining i := by
      obtain ⟨r, hr⟩ := Option.isSome_iff_exists.mp hrest
      rw [(hs.homed _).remaining_eq hr]
      exact LawfulUpstream.getOrder_pos _ _ _ hr
    rcases reaches_found h i o ho hpos with hslot | ⟨t, ht⟩
    · exact hslot
    · have hdone := hret t
      unfold Carries at ht
      split at ht <;> rename_i hpc
      · simp [hpc, Returned] at hdone
      · simp [hpc, Returned] at hdone
      · simp [hpc, Returned] at hdone
      · exact absurd ht id

end Runs

section Reference

/-- A requote, the report of a fill of its bid, and another requote, each about to begin. -/
def reference : Traffic (Fin 3) ReferenceBook ℚ where
  desk := (Session.reference.step (.books (.openBook btcCall))).desk
  calls
    | 0 => .update (.write "BTC" 10000)
    | 1 => .fill (.gate 0 498 10)
    | 2 => .update (.write "BTC" 10000)

theorem reference_ready : reference.Ready where
  tidy := by
    have hrun : Reaches Session.Start Session.step Session.Honest
        (Session.reference.step (.books (.openBook btcCall))) :=
      (Reaches.start Session.reference_start).next trivial
    exact ⟨_, Session.reaches_tidy ReferenceBook.cancelRemoves hrun⟩
  homed := init_homed.quiet (openBook_quiet _ btcCall)
  calls := by decide

/-- The quotes go up, and a user sells into the bid. -/
def bidTaken : List (TrafficMove (Fin 3)) :=
  List.replicate 18 (.call 0) ++ [.books (.market btcCall .sell 10)]

/-- The report of the fill runs before the next requote. -/
def reportFirst : List (TrafficMove (Fin 3)) :=
  bidTaken ++ List.replicate 4 (.call 1) ++ List.replicate 28 (.call 2)

/-- The report takes the bid out of tracking, the next requote runs, and then the report clears
the slot of the bid. -/
def reportOvertaken : List (TrafficMove (Fin 3)) :=
  bidTaken ++ List.replicate 2 (.call 1) ++ List.replicate 28 (.call 2) ++
    List.replicate 2 (.call 1)

theorem quotes_recorded_reportFirst :
    let s := reportFirst.foldl step reference
    s.desk.engine.activeOrders.keys = [8, 7, 6, 5] ∧
      ∀ a i o, s.desk.engine.activeOrders.lookup i = some o →
        (s.desk.market.getOrder a i).isSome = true →
        s.desk.engine.slots (.fromOrder o) (legSlot o.isBuy) = some i :=
  ⟨by decide +kernel, quotes_recorded.2 (reportFirst.foldl step reference)
    ((Reaches.start reference_ready).run (by decide +kernel)) (by decide +kernel)⟩

theorem live_quote_orphaned : ∃ s : Traffic (Fin 3) ReferenceBook ℚ,
    Reaches Ready step (fun _ _ => True) s ∧ (∀ t, Returned (s.calls t) = true) ∧
    ∃ o, s.desk.engine.activeOrders.lookup 5 = some o ∧
      (s.desk.market.getOrder o.addr 5).isSome = true ∧
      s.desk.engine.slots (.fromOrder o) (legSlot o.isBuy) = none := by
  have hallowed : ∀ (ms : List (TrafficMove (Fin 3))) (s : Traffic (Fin 3) ReferenceBook ℚ),
      Allowed step (fun _ _ => True) s ms := by
    intro ms
    induction ms with
    | nil => exact fun _ => trivial
    | cons m ms ih => exact fun s => ⟨trivial, ih _⟩
  have htracked : ∃ o ∈ (reportOvertaken.foldl step reference).desk.engine.activeOrders.lookup 5,
      ((reportOvertaken.foldl step reference).desk.market.getOrder o.addr 5).isSome = true ∧
      (reportOvertaken.foldl step reference).desk.engine.slots (.fromOrder o)
        (legSlot o.isBuy) = none := by decide +kernel
  exact ⟨reportOvertaken.foldl step reference,
    (Reaches.start reference_ready).run (hallowed _ _), by decide +kernel, htracked⟩

end Reference

end Traffic
end MarketMaker
end OptionChainBackend
