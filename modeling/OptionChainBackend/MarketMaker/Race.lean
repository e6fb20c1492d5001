import OptionChainBackend.MarketMaker.Interleaving

/-!
Any number of `update_price` calls in flight beside one `set_enabled(false)` and other users of
the books. In every state every engine order that rests is tracked, or in the hands of a call.
-/
namespace OptionChainBackend

namespace Exchange
variable {B : Type} [Upstream B] {x x' : Exchange B} {a : OptionAddr} {i id : OrderId}
  {side : Side} {limit : Option ℕ} {q : ℕ} {r : MatchResult} {left : Option RestingOrder}

/-- What any order call leaves true of the orders placed before it. -/
structure Later (x x' : Exchange B) : Prop where
  home : ∀ {i a}, x.home i = some a → x'.home i = some a
  catalog : x'.toCatalog = x.toCatalog
  now : x'.now = x.now
  remaining : ∀ {i a}, x.home i = some a → x'.remaining i ≤ x.remaining i

theorem Later.refl (x : Exchange B) : Later x x := ⟨id, rfl, rfl, fun _ => le_rfl⟩

theorem Quiet.later (h : Quiet x x') (hc : x'.toCatalog = x.toCatalog) (hn : x'.now = x.now) :
    Later x x' where
  home hi := by rwa [h.home]
  catalog := hc
  now := hn
  remaining _ := (h.remaining _).le

theorem Shrunk.later (h : Shrunk x x') (hc : x'.toCatalog = x.toCatalog) (hn : x'.now = x.now) :
    Later x x' where
  home hi := by rwa [h.home]
  catalog := hc
  now := hn
  remaining _ := h.remaining_le _

theorem Filled.later (h : Filled x x' a id side limit q r left)
    (hid : x.home id = none) (hc : x'.toCatalog = x.toCatalog) (hn : x'.now = x.now) :
    Later x x' := by
  have hne : ∀ {i c}, x.home i = some c → i ≠ id := by
    rintro i c hi rfl
    rw [hid] at hi
    cases hi
  refine ⟨fun hi => ?_, hc, hn, fun hi => ?_⟩
  · rw [h.home, Function.update_of_ne (hne hi)]
    exact hi
  · exact h.remaining_le (hne hi)

end Exchange

namespace MarketMaker
open Foundation Upstream Exchange MarketMakerEngine

variable {ι B F : Type}

/-- Any number of `update_price` calls beside one `set_enabled(false)`. -/
structure Race (ι B F : Type) where
  desk : Desk B F
  calls : ι → UpdatePc F
  switch : SwitchPc

inductive Move (ι : Type) where
  | call (t : ι)
  | switch
  | books (c : BookCall)

namespace Race

/-- The call has an order on the book that it has not tracked yet. -/
def Holds (i : OrderId) : UpdatePc F → Prop
  | .trackBid _ id => id = i
  | .trackAsk _ _ id => id = i
  | _ => False

/-- The shutdown has untracked an order that it has not cancelled yet. -/
def Untracked (i : OrderId) : SwitchPc → Prop
  | .cancelling (.unslot id _) _ => id = i
  | .cancelling (.onBook id _) _ => id = i
  | _ => False

variable [Upstream B]

/-- What a call knows at each of its points. -/
def CallSafe (x : Exchange B) : UpdatePc F → Prop
  | .cancelStale job stale left => x.hasBook job.addr = true ∧
      ∀ i ∈ stale.ids, x.home i = some job.addr ∧ (i ∈ left ∨ x.remaining i = 0)
  | .unindex job => x.hasBook job.addr = true
  | .placeBid job => x.hasBook job.addr = true
  | .trackBid job id => x.hasBook job.addr = true ∧ x.home id = some job.addr
  | .placeAsk job bid => x.hasBook job.addr = true ∧ ∀ i, bid = some i → x.home i = some job.addr
  | .trackAsk job bid id => x.hasBook job.addr = true ∧ x.home id = some job.addr ∧
      ∀ i, bid = some i → x.home i = some job.addr
  | .record job placed => ∀ leg i, placed leg = some i → x.home i = some job.addr
  | _ => True

def SwitchSafe (x : Exchange B) : SwitchPc → Prop
  | .cancelling (.unslot i o) _ => x.home i = some o.addr ∧ x.hasBook o.addr = true
  | .cancelling (.onBook i o) _ => x.home i = some o.addr ∧ x.hasBook o.addr = true
  | _ => True

theorem CallSafe.later {x x' : Exchange B} {pc : UpdatePc F} (hl : Later x x')
    (h : CallSafe x pc) : CallSafe x' pc := by
  have hb : ∀ a, x'.hasBook a = x.hasBook a := fun a => by rw [hl.catalog]
  cases pc with
  | cancelStale job stale left =>
    refine ⟨(hb _).trans h.1, fun i hi => ?_⟩
    obtain ⟨hh, hz⟩ := h.2 i hi
    refine ⟨hl.home hh, hz.imp_right fun h0 => ?_⟩
    exact Nat.le_zero.mp (h0 ▸ hl.remaining hh)
  | unindex job => exact (hb _).trans h
  | placeBid job => exact (hb _).trans h
  | trackBid job id => exact ⟨(hb _).trans h.1, hl.home h.2⟩
  | placeAsk job bid => exact ⟨(hb _).trans h.1, fun i hi => hl.home (h.2 i hi)⟩
  | trackAsk job bid id =>
    exact ⟨(hb _).trans h.1, hl.home h.2.1, fun i hi => hl.home (h.2.2 i hi)⟩
  | record job placed => exact fun leg i hi => hl.home (h leg i hi)
  | _ => exact trivial

theorem SwitchSafe.later {x x' : Exchange B} {pc : SwitchPc} (hl : Later x x')
    (h : SwitchSafe x pc) : SwitchSafe x' pc := by
  have hb : ∀ a, x'.hasBook a = x.hasBook a := fun a => by rw [hl.catalog]
  unfold SwitchSafe at h ⊢
  split at h
  · exact ⟨hl.home h.1, (hb _).trans h.2⟩
  · exact ⟨hl.home h.1, (hb _).trans h.2⟩
  · exact trivial

/-- Every engine order that rests is tracked, or in the hands of a call. -/
structure Safe (s : Race ι B F) : Prop where
  fresh : s.desk.market.Fresh
  homed : s.desk.market.Homed
  placed : ∀ i ∈ s.desk.quoted, ∃ a, s.desk.market.home i = some a
  known : ∀ {i o}, s.desk.engine.activeOrders.lookup i = some o →
    s.desk.market.home i = some o.addr ∧ s.desk.market.hasBook o.addr = true
  recorded : ∀ {key leg i}, s.desk.engine.slots key leg = some i →
    ∃ a, s.desk.market.home i = some a ∧ InstrumentKey.new a = key
  calls : ∀ t, CallSafe s.desk.market (s.calls t)
  switch : SwitchSafe s.desk.market s.switch
  covered : ∀ i ∈ s.desk.quoted, 0 < s.desk.market.remaining i →
    (s.desk.engine.activeOrders.lookup i).isSome = true ∨ (∃ t, Holds i (s.calls t)) ∨
      Untracked i s.switch

variable [DecidableEq ι] {s : Race ι B F} {d : Desk B F} {t : ι} {pc : UpdatePc F}
  {sw : SwitchPc}

/-- A step of one call. -/
theorem Safe.call (h : s.Safe) (hl : Later s.desk.market d.market) (hf : d.market.Fresh)
    (hh : d.market.Homed)
    (hq : ∀ i ∈ d.quoted, i ∈ s.desk.quoted ∨ Holds i pc ∧ ∃ a, d.market.home i = some a)
    (ha : ∀ i o, d.engine.activeOrders.lookup i = some o →
      s.desk.engine.activeOrders.lookup i = some o ∨
      d.market.home i = some o.addr ∧ d.market.hasBook o.addr = true)
    (hr : ∀ key leg i, d.engine.slots key leg = some i → s.desk.engine.slots key leg = some i ∨
      ∃ a, d.market.home i = some a ∧ InstrumentKey.new a = key)
    (hs : CallSafe d.market pc)
    (hkeep : ∀ i, (s.desk.engine.activeOrders.lookup i).isSome = true →
      0 < d.market.remaining i → (d.engine.activeOrders.lookup i).isSome = true)
    (hhold : ∀ i, Holds i (s.calls t) →
      (d.engine.activeOrders.lookup i).isSome = true ∨ Holds i pc) :
    Safe ⟨d, Function.update s.calls t pc, s.switch⟩ where
  fresh := hf
  homed := hh
  placed i hi := by
    rcases hq i hi with hi | ⟨-, hp⟩
    · obtain ⟨a, hi⟩ := h.placed i hi
      exact ⟨a, hl.home hi⟩
    · exact hp
  known {i o} ho := by
    rcases ha i o ho with ho | hp
    · obtain ⟨h1, h2⟩ := h.known ho
      exact ⟨hl.home h1, by rw [hl.catalog]; exact h2⟩
    · exact hp
  recorded {key leg i} hi := by
    rcases hr key leg i hi with hi | hp
    · obtain ⟨a, h1, h2⟩ := h.recorded hi
      exact ⟨a, hl.home h1, h2⟩
    · exact hp
  calls u := by
    dsimp only
    by_cases hu : u = t
    · rw [hu, Function.update_self]
      exact hs
    · rw [Function.update_of_ne hu]
      exact (h.calls u).later hl
  switch := h.switch.later hl
  covered i hi hpos := by
    have hself : Holds i pc → ∃ u, Holds i (Function.update s.calls t pc u) := fun hi =>
      ⟨t, by rwa [Function.update_self]⟩
    rcases hq i hi with hi | ⟨hp, -⟩
    · obtain ⟨a, hhome⟩ := h.placed i hi
      rcases h.covered i hi (hpos.trans_le (hl.remaining hhome)) with hact | ⟨u, hu⟩ | hun
      · exact .inl (hkeep i hact hpos)
      · by_cases hut : u = t
        · subst hut
          exact (hhold i hu).imp_right fun hp => .inl (hself hp)
        · refine .inr (.inl ⟨u, ?_⟩)
          dsimp only
          rwa [Function.update_of_ne hut]
      · exact .inr (.inr hun)
    · exact .inr (.inl (hself hp))

omit [DecidableEq ι] in
/-- A step of the shutdown. -/
theorem Safe.switching (h : s.Safe) (hl : Later s.desk.market d.market) (hf : d.market.Fresh)
    (hh : d.market.Homed) (hq : d.quoted = s.desk.quoted)
    (ha : ∀ i o, d.engine.activeOrders.lookup i = some o →
      s.desk.engine.activeOrders.lookup i = some o)
    (hr : ∀ key leg i, d.engine.slots key leg = some i → s.desk.engine.slots key leg = some i)
    (hs : SwitchSafe d.market sw)
    (hkeep : ∀ i, (s.desk.engine.activeOrders.lookup i).isSome = true →
      (d.engine.activeOrders.lookup i).isSome = true ∨ Untracked i sw)
    (hhold : ∀ i, Untracked i s.switch → d.market.remaining i = 0 ∨ Untracked i sw) :
    Safe ⟨d, s.calls, sw⟩ where
  fresh := hf
  homed := hh
  placed i hi := by
    obtain ⟨a, hi⟩ := h.placed i (hq ▸ hi)
    exact ⟨a, hl.home hi⟩
  known {i o} ho := by
    obtain ⟨h1, h2⟩ := h.known (ha i o ho)
    exact ⟨hl.home h1, by rw [hl.catalog]; exact h2⟩
  recorded {key leg i} hi := by
    obtain ⟨a, h1, h2⟩ := h.recorded (hr key leg i hi)
    exact ⟨a, hl.home h1, h2⟩
  calls u := (h.calls u).later hl
  switch := hs
  covered i hi hpos := by
    have hi : i ∈ s.desk.quoted := hq ▸ hi
    obtain ⟨a, hhome⟩ := h.placed i hi
    rcases h.covered i hi (hpos.trans_le (hl.remaining hhome)) with hact | hu | hun
    · exact (hkeep i hact).imp_right .inr
    · exact .inr (.inl hu)
    · rcases hhold i hun with h0 | hun
      · exact absurd h0 (Nat.pos_iff_ne_zero.mp hpos)
      · exact .inr (.inr hun)

section
variable [F64 F]

def step (s : Race ι B F) : Move ι → Race ι B F
  | .call t =>
    let out := s.desk.updateStep (s.calls t)
    { s with desk := out.1, calls := Function.update s.calls t out.2 }
  | .switch =>
    let out := s.desk.switchStep s.switch
    { s with desk := out.1, switch := out.2 }
  | .books c => { s with desk := { s.desk with market := c.apply s.desk.market } }

end

/-- A step that reads, or writes only settings. -/
theorem Safe.read (h : s.Safe) {e : MarketMakerEngine F}
    (ha : e.activeOrders = s.desk.engine.activeOrders)
    (hi : e.instrumentOrders = s.desk.engine.instrumentOrders) (hs : CallSafe s.desk.market pc)
    (hhold : ∀ i, ¬ Holds i (s.calls t)) :
    Safe ⟨{ s.desk with engine := e }, Function.update s.calls t pc, s.switch⟩ := by
  apply h.call (d := { s.desk with engine := e }) (.refl _) h.fresh h.homed
  · exact fun i hi => .inl hi
  · intro i o ho
    exact .inl (by rwa [← ha])
  · intro key leg i hk
    refine .inl ?_
    unfold slots at hk ⊢
    rwa [← hi]
  · exact hs
  · intro i hact _
    dsimp only
    rwa [ha]
  · intro i hh
    exact absurd hh (hhold i)

/-- A book call of a requote. -/
theorem Safe.onBook (h : s.Safe) {x : Exchange B} (hl : Later s.desk.market x) (hf : x.Fresh)
    (hh : x.Homed) (hs : CallSafe x pc) (hhold : ∀ i, ¬ Holds i (s.calls t)) :
    Safe ⟨{ s.desk with market := x }, Function.update s.calls t pc, s.switch⟩ := by
  apply h.call hl hf hh
  · exact fun i hi => .inl hi
  · exact fun i o ho => .inl ho
  · exact fun key leg i hi => .inl hi
  · exact hs
  · exact fun i hact _ => hact
  · intro i hh
    exact absurd hh (hhold i)

theorem recordLegs_slots (e : MarketMakerEngine F) (key : InstrumentKey) (placed : Slots)
    {k : InstrumentKey} {leg : Fin 2} {i : OrderId}
    (hi : (e.recordLegs key placed).slots k leg = some i) :
    e.slots k leg = some i ∨ k = key ∧ placed leg = some i := by
  unfold recordLegs at hi
  split_ifs at hi
  · exact .inl hi
  · simp only [slots, Table.lookup_insert_eq] at hi
    split_ifs at hi with hk
    · exact .inr ⟨hk, hi⟩
    · exact .inl hi

theorem removeEntry_slots (e : MarketMakerEngine F) (key : InstrumentKey) {k : InstrumentKey}
    {leg : Fin 2} {i : OrderId} (hi : (e.removeEntry key).slots k leg = some i) :
    e.slots k leg = some i := by
  simp only [slots, removeEntry, Table.lookup_erase_eq] at hi
  split_ifs at hi
  · cases hi
  · exact hi

/-- The steps that only change what the engine tracks. -/
theorem Safe.onEngine (h : s.Safe) {e : MarketMakerEngine F}
    (ha : ∀ i o, e.activeOrders.lookup i = some o →
      s.desk.engine.activeOrders.lookup i = some o ∨
      s.desk.market.home i = some o.addr ∧ s.desk.market.hasBook o.addr = true)
    (hr : ∀ key leg i, e.slots key leg = some i → s.desk.engine.slots key leg = some i ∨
      ∃ a, s.desk.market.home i = some a ∧ InstrumentKey.new a = key)
    (hs : CallSafe s.desk.market pc)
    (hkeep : ∀ i, (s.desk.engine.activeOrders.lookup i).isSome = true →
      0 < s.desk.market.remaining i → (e.activeOrders.lookup i).isSome = true)
    (hhold : ∀ i, Holds i (s.calls t) → (e.activeOrders.lookup i).isSome = true) :
    Safe ⟨{ s.desk with engine := e }, Function.update s.calls t pc, s.switch⟩ := by
  apply h.call (d := { s.desk with engine := e }) (.refl _) h.fresh h.homed
  · exact fun i hi => .inl hi
  · exact ha
  · exact hr
  · exact hs
  · exact hkeep
  · exact fun i hi => .inl (hhold i hi)

/-- A leg is tracked. -/
theorem Safe.track (h : s.Safe) {id : OrderId} {o : ActiveOrderInfo}
    (hhome : s.desk.market.home id = some o.addr) (hb : s.desk.market.hasBook o.addr = true)
    (hs : CallSafe s.desk.market pc) (hhold : ∀ i, Holds i (s.calls t) → i = id) :
    Safe ⟨{ s.desk with engine := s.desk.engine.track id o }, Function.update s.calls t pc,
      s.switch⟩ := by
  have hlook : ∀ i, (s.desk.engine.track id o).activeOrders.lookup i =
      if i = id then some o else s.desk.engine.activeOrders.lookup i := fun i => by
    simp [MarketMakerEngine.track]
  apply h.onEngine
  · intro i o' hi
    rw [hlook] at hi
    split_ifs at hi with he
    · rw [he, ← Option.some.inj hi]
      exact .inr ⟨hhome, hb⟩
    · exact .inl hi
  · exact fun key leg i hi => .inl hi
  · exact hs
  · intro i hact _
    rw [hlook]
    split_ifs
    · rfl
    · exact hact
  · intro i hi
    rw [hlook, if_pos (hhold i hi)]
    rfl

variable [LawfulUpstream B]

theorem cancelOrder_later (x : Exchange B) (a : OptionAddr) (i : OrderId) :
    Later x (x.cancelOrder a i).2 := by
  rcases x.cancelOrder_cases a i with hr | hq
  · exact hr.shrunk.later rfl rfl
  · exact hq.later rfl rfl

theorem cancelOrder_fresh {x : Exchange B} (h : x.Fresh) (a : OptionAddr) (i : OrderId) :
    (x.cancelOrder a i).2.Fresh := by
  rcases x.cancelOrder_cases a i with hr | hq
  · exact h.shrunk hr.shrunk
  · exact h.quiet hq

theorem cancelOrder_homed {x : Exchange B} (h : x.Homed) (a : OptionAddr) (i : OrderId) :
    (x.cancelOrder a i).2.Homed := by
  rcases x.cancelOrder_cases a i with hr | hq
  · exact h.shrunk hr.shrunk
  · exact h.quiet hq

/-- A leg goes to the book: refused, or in the hands of the call. -/
theorem Safe.place (h : s.Safe) (t : ι) (a : OptionAddr) (isBuy : Bool) (price q : ℕ)
    (pc : UpdatePc F) (pc' : OrderId → UpdatePc F) (hhold : ∀ i, ¬ Holds i (s.calls t))
    (hnone : ∀ x, Later s.desk.market x → CallSafe x pc) (hpc : ∀ i, Holds i (pc' i))
    (hsome : ∀ x i, Later s.desk.market x → x.home i = some a → CallSafe x (pc' i)) :
    Safe ⟨(s.desk.placeOnBook a isBuy price q).2, Function.update s.calls t
      (match (s.desk.placeOnBook a isBuy price q).1 with
        | some i => pc' i
        | none => pc), s.switch⟩ := by
  have hfresh : s.desk.market.newOrderId.2.Fresh := h.fresh.quiet (newOrderId_quiet _)
  have hhomed : s.desk.market.newOrderId.2.Homed := h.homed.quiet (newOrderId_quiet _)
  have hstart : Later s.desk.market s.desk.market.newOrderId.2 :=
    (newOrderId_quiet _).later rfl rfl
  have habs : ∀ c, s.desk.market.newOrderId.2.getOrder c s.desk.market.nextOrderId = none :=
    fun c => h.fresh.absent le_rfl
  rcases s.desk.placeOnBook_cases a isBuy price q (habs a) with
    ⟨x, he, hq, hc, hn⟩ | ⟨x, side, r, left, he, hfill, hc, hn⟩
  · rw [he]
    have hl := hq.later hc hn
    exact h.onBook hl (h.fresh.quiet hq) (h.homed.quiet hq) (hnone x hl) hhold
  · rw [he]
    have hl : Later s.desk.market x := by
      have hl2 := hfill.later (h.fresh.home_eq_none le_rfl) hc hn
      exact ⟨fun hi => hl2.home (hstart.home hi), hc, hn, fun hi =>
        (hl2.remaining (hstart.home hi)).trans (hstart.remaining hi)⟩
    have hhome : x.home s.desk.market.nextOrderId = some a := by simp [hfill.home]
    apply h.call hl (hfresh.filled (Nat.lt_succ_self _) hfill) (hhomed.filled habs hfill)
    · intro i hi
      rcases List.mem_cons.mp hi with rfl | hi
      · exact .inr ⟨hpc _, a, hhome⟩
      · exact .inl hi
    · exact fun i o ho => .inl ho
    · exact fun key leg i hi => .inl hi
    · exact hsome x _ hl hhome
    · exact fun i hact _ => hact
    · intro i hi
      exact absurd hi (hhold i)

theorem Safe.cancelStale (h : s.Safe) (hc : CancelRemoves B) {job : Job F} {stale : Slots}
    {i : OrderId} {left : List OrderId} (hpc : s.calls t = .cancelStale job stale (i :: left)) :
    Safe ⟨s.desk.cancelOnBook job.addr i, Function.update s.calls t (.cancelStale job stale left),
      s.switch⟩ := by
  have hs : CallSafe s.desk.market (s.calls t) := h.calls t
  have hl := cancelOrder_later s.desk.market job.addr i
  have hhold : ∀ j, ¬ Holds j (s.calls t) := fun j => by simp [hpc, Holds]
  rw [hpc] at hs
  apply h.onBook hl (cancelOrder_fresh h.fresh _ _) (cancelOrder_homed h.homed _ _) _ hhold
  refine ⟨hs.1, fun j hj => ?_⟩
  obtain ⟨hh, hor⟩ := hs.2 j hj
  refine ⟨hl.home hh, ?_⟩
  rcases hor with hmem | hz
  · rcases List.mem_cons.mp hmem with rfl | hmem
    · exact .inr (cancelOrder_remaining hc (h.homed _) hh)
    · exact .inl hmem
  · exact .inr (Nat.le_zero.mp (hz ▸ hl.remaining hh))

omit [LawfulUpstream B] in
theorem Safe.prune (h : s.Safe) {job : Job F} {stale : Slots}
    (hpc : s.calls t = .cancelStale job stale []) :
    Safe ⟨{ s.desk with engine := stale.ids.foldl untrack s.desk.engine },
      Function.update s.calls t (.unindex job), s.switch⟩ := by
  have hs : CallSafe s.desk.market (s.calls t) := h.calls t
  rw [hpc] at hs
  apply h.onEngine
  · intro i o hi
    rw [foldl_untrack_lookup] at hi
    split_ifs at hi
    exact .inl hi
  · intro key leg i hi
    unfold slots at hi ⊢
    rw [foldl_untrack_instrumentOrders] at hi
    exact .inl hi
  · exact hs.1
  · intro i hact hpos
    rw [foldl_untrack_lookup]
    split_ifs with hmem
    · rcases (hs.2 i hmem).2 with hleft | hz
      · cases hleft
      · exact absurd hz (Nat.pos_iff_ne_zero.mp hpos)
    · exact hact
  · intro i hi
    simp [hpc, Holds] at hi

section
variable [F64 F]

omit [LawfulUpstream B] in
theorem Safe.pick (h : s.Safe) {i : Instrument F} {rest : List (Instrument F)}
    (hpc : s.calls t = .quoting (i :: rest)) : (s.step (.call t)).Safe := by
  have hhold : ∀ j, ¬ Holds j (s.calls t) := fun j => by simp [hpc, Holds]
  have hread : ∀ {pc}, CallSafe s.desk.market pc →
      Safe ⟨s.desk, Function.update s.calls t pc, s.switch⟩ := fun hs => h.read rfl rfl hs hhold
  simp only [step, hpc, Desk.updateStep]
  cases hq : s.desk.quoteOf i with
  | none => exact hread trivial
  | some q =>
    dsimp only
    split_ifs with hb he
    · exact hread hb
    · apply hread
      refine ⟨hb, fun j hj => ?_⟩
      obtain ⟨b, hslot⟩ := (Slots.mem_ids _ j).mp hj
      obtain ⟨a, hh, hk⟩ := h.recorded hslot
      obtain rfl : a = i.addr := InstrumentKey.new_injective hk
      exact ⟨hh, .inl hj⟩
    · exact hread trivial

theorem Safe.callStep (h : s.Safe) (hc : CancelRemoves B) (t : ι) :
    (s.step (.call t)).Safe := by
  have hs : CallSafe s.desk.market (s.calls t) := h.calls t
  cases hpc : s.calls t with
  | quoting work =>
    cases work with
    | cons i rest => exact h.pick hpc
    | nil =>
      simp only [step, hpc, Desk.updateStep]
      exact h.read rfl rfl trivial (fun i => by simp [hpc, Holds])
  | cancelStale job stale left =>
    cases left with
    | cons i left =>
      simp only [step, hpc, Desk.updateStep]
      exact h.cancelStale hc hpc
    | nil =>
      simp only [step, hpc, Desk.updateStep]
      exact h.prune hpc
  | unindex job =>
    rw [hpc] at hs
    simp only [step, hpc, Desk.updateStep]
    apply h.onEngine
    · exact fun i o hi => .inl hi
    · exact fun key leg i hi => .inl (removeEntry_slots _ _ hi)
    · exact hs
    · exact fun i hact _ => hact
    · intro i hi
      simp [hpc, Holds] at hi
  | placeBid job =>
    rw [hpc] at hs
    have hplace := h.place t job.addr true job.quote.bidPrice job.quote.bidSize
      (.placeAsk job none) (fun i => .trackBid job i) (fun i => by simp [hpc, Holds])
      (fun x hl => ⟨hl.catalog ▸ hs, by simp⟩) (fun i => rfl)
      (fun x i hl hh => ⟨hl.catalog ▸ hs, hh⟩)
    simp only [step, hpc, Desk.updateStep]
    rcases hout : s.desk.placeOnBook job.addr true job.quote.bidPrice job.quote.bidSize with
      ⟨_ | id, d⟩
    · rwa [hout] at hplace
    · rwa [hout] at hplace
  | trackBid job id =>
    rw [hpc] at hs
    simp only [step, hpc, Desk.updateStep]
    apply h.track (o := job.leg true) hs.2 hs.1
    · refine ⟨hs.1, fun i hi => ?_⟩
      rw [← Option.some.inj hi]
      exact hs.2
    · intro i hi
      rw [hpc] at hi
      exact hi.symm
  | placeAsk job bid =>
    rw [hpc] at hs
    have hplace := h.place t job.addr false job.quote.askPrice job.quote.askSize
      (.record job (Slots.pair bid none)) (fun i => .trackAsk job bid i)
      (fun i => by simp [hpc, Holds])
      (fun x hl leg i hi => by
        unfold Slots.pair at hi
        split_ifs at hi
        exact hl.home (hs.2 i hi))
      (fun i => rfl)
      (fun x i hl hh => ⟨hl.catalog ▸ hs.1, hh, fun j hj => hl.home (hs.2 j hj)⟩)
    simp only [step, hpc, Desk.updateStep]
    rcases hout : s.desk.placeOnBook job.addr false job.quote.askPrice job.quote.askSize with
      ⟨_ | id, d⟩
    · rwa [hout] at hplace
    · rwa [hout] at hplace
  | trackAsk job bid id =>
    rw [hpc] at hs
    simp only [step, hpc, Desk.updateStep]
    apply h.track (o := job.leg false) hs.2.1 hs.1
    · intro leg i hi
      unfold Slots.pair at hi
      split_ifs at hi
      · exact hs.2.2 i hi
      · rw [← Option.some.inj hi]
        exact hs.2.1
    · intro i hi
      rw [hpc] at hi
      exact hi.symm
  | record job placed =>
    rw [hpc] at hs
    simp only [step, hpc, Desk.updateStep]
    have ha : (s.desk.engine.recordLegs (.new job.addr) placed).activeOrders =
        s.desk.engine.activeOrders := by
      unfold recordLegs
      split_ifs <;> rfl
    apply h.onEngine
    · intro i o hi
      refine .inl ?_
      rw [← ha]
      exact hi
    · intro key leg i hi
      rcases recordLegs_slots _ _ _ hi with hold | ⟨hk, hp⟩
      · exact .inl hold
      · exact .inr ⟨job.addr, hs leg i hp, hk.symm⟩
    · exact trivial
    · intro i hact _
      change ((s.desk.engine.recordLegs _ placed).activeOrders.lookup i).isSome = true
      rwa [ha]
    · intro i hi
      simp [hpc, Holds] at hi
  | write symbol p =>
    simp only [step, hpc, Desk.updateStep]
    exact h.read rfl rfl trivial (fun i => by simp [hpc, Holds])
  | readSwitch symbol =>
    simp only [step, hpc, Desk.updateStep]
    refine h.read rfl rfl ?_ (fun i => by simp [hpc, Holds])
    split_ifs <;> exact trivial
  | readSymbol symbol =>
    simp only [step, hpc, Desk.updateStep]
    refine h.read rfl rfl ?_ (fun i => by simp [hpc, Holds])
    split_ifs <;> exact trivial
  | readPrice symbol =>
    simp only [step, hpc, Desk.updateStep]
    cases s.desk.engine.getPrice symbol with
    | none => exact h.read rfl rfl trivial (fun i => by simp [hpc, Holds])
    | some spot => exact h.read rfl rfl trivial (fun i => by simp [hpc, Holds])
  | readConfig symbol spot =>
    simp only [step, hpc, Desk.updateStep]
    exact h.read rfl rfl trivial (fun i => by simp [hpc, Holds])
  | done =>
    simp only [step, hpc, Desk.updateStep]
    exact h.read rfl rfl trivial (fun i => by simp [hpc, Holds])

end

section Switch

omit [DecidableEq ι] in
theorem Safe.cancelStep (h : s.Safe) (hc : CancelRemoves B) {c : CancelPc} {todo : List OrderId}
    (hsw : s.switch = .cancelling c todo) (hne : c ≠ .done) :
    Safe ⟨(s.desk.cancelStep c).1, s.calls, .cancelling (s.desk.cancelStep c).2 todo⟩ := by
  have hs : SwitchSafe s.desk.market s.switch := h.switch
  rw [hsw] at hs
  cases c with
  | done => exact absurd rfl hne
  | remove i =>
    have hun : ∀ j, ¬ Untracked j s.switch := fun j => by simp [hsw, Untracked]
    cases hi : s.desk.engine.activeOrders.lookup i with
    | none =>
      have hstep : s.desk.cancelStep (.remove i) = (s.desk, .done) := by
        simp [Desk.cancelStep, hi]
      rw [hstep]
      exact h.switching (.refl _) h.fresh h.homed rfl (fun _ _ ho => ho) (fun _ _ _ hk => hk)
        trivial (fun j hj => .inl hj) (fun j hj => absurd hj (hun j))
    | some o =>
      have hstep : s.desk.cancelStep (.remove i) =
          ({ s.desk with engine := s.desk.engine.untrack i }, .unslot i o) := by
        simp [Desk.cancelStep, hi]
      rw [hstep]
      have hlook : ∀ j, (s.desk.engine.untrack i).activeOrders.lookup j =
          if j = i then none else s.desk.engine.activeOrders.lookup j := fun j => by simp [untrack]
      apply h.switching (d := { s.desk with engine := s.desk.engine.untrack i }) (.refl _) h.fresh
        h.homed rfl
      · intro j o' hj
        rw [hlook] at hj
        split_ifs at hj
        exact hj
      · exact fun _ _ _ hk => hk
      · exact h.known hi
      · intro j hj
        rw [hlook]
        split_ifs with he
        · exact .inr he.symm
        · exact .inl hj
      · exact fun j hj => absurd hj (hun j)
  | unslot i o =>
    apply h.switching (d := { s.desk with
      engine := s.desk.engine.clearInstrumentSlot (.fromOrder o) o.isBuy }) (.refl _) h.fresh
      h.homed rfl
    · intro j o' hj
      rwa [clearInstrumentSlot_activeOrders] at hj
    · intro key leg j hk
      rw [clearInstrumentSlot_slots] at hk
      split_ifs at hk with hkey
      · rw [Function.update_apply] at hk
        split_ifs at hk
        rwa [hkey]
      · exact hk
    · exact hs
    · intro j hj
      rw [clearInstrumentSlot_activeOrders]
      exact .inl hj
    · intro j hj
      rw [hsw] at hj
      exact .inr hj
  | onBook i o =>
    simp only [Desk.cancelStep, hs.2, if_true]
    apply h.switching (d := s.desk.cancelOnBook o.addr i) (cancelOrder_later _ _ _)
      (cancelOrder_fresh h.fresh _ _) (cancelOrder_homed h.homed _ _) rfl
    · exact fun _ _ ho => ho
    · exact fun _ _ _ hk => hk
    · exact trivial
    · exact fun j hj => .inl hj
    · intro j hj
      rw [hsw] at hj
      have hji : i = j := hj
      rw [← hji]
      exact .inl (cancelOrder_remaining hc (h.homed _) hs.1)

theorem Safe.switchStep [F64 F] (h : s.Safe) (hc : CancelRemoves B) : (s.step .switch).Safe := by
  have hsame : ∀ {e : MarketMakerEngine F} {sw : SwitchPc},
      e.activeOrders = s.desk.engine.activeOrders →
      (∀ key leg i, e.slots key leg = some i → s.desk.engine.slots key leg = some i) →
      SwitchSafe s.desk.market sw → (∀ i, ¬ Untracked i s.switch) →
      Safe ⟨{ s.desk with engine := e }, s.calls, sw⟩ := by
    intro e sw ha hr hs hun
    apply h.switching (d := { s.desk with engine := e }) (.refl _) h.fresh h.homed rfl
    · intro i o hi
      rwa [← ha]
    · exact hr
    · exact hs
    · intro i hi
      rw [ha]
      exact .inl hi
    · exact fun i hi => absurd hi (hun i)
  cases hsw : s.switch with
  | cancelling c todo =>
    by_cases hcd : c = .done
    · subst hcd
      cases todo with
      | nil =>
        simp only [step, hsw, Desk.switchStep]
        have hclear : ∀ key leg i, s.desk.engine.clearIndex.slots key leg = some i →
            s.desk.engine.slots key leg = some i := by
          intro key leg i hi
          simp [slots, clearIndex, Slots.none] at hi
        exact hsame (e := s.desk.engine.clearIndex) rfl hclear trivial
          (fun i => by simp [hsw, Untracked])
      | cons i todo =>
        simp only [step, hsw, Desk.switchStep]
        exact hsame rfl (fun _ _ _ hk => hk) trivial (fun i => by simp [hsw, Untracked])
    · have hstep := s.desk.switchStep_cancelling hcd todo
      simp only [step, hsw, hstep]
      exact h.cancelStep hc hsw hcd
  | flag =>
    simp only [step, hsw, Desk.switchStep]
    exact hsame rfl (fun _ _ _ hk => hk) trivial (fun i => by simp [hsw, Untracked])
  | snapshot =>
    simp only [step, hsw, Desk.switchStep]
    exact hsame rfl (fun _ _ _ hk => hk) trivial (fun i => by simp [hsw, Untracked])
  | announce =>
    simp only [step, hsw, Desk.switchStep]
    exact hsame rfl (fun _ _ _ hk => hk) trivial (fun i => by simp [hsw, Untracked])
  | done =>
    simp only [step, hsw, Desk.switchStep]
    exact hsame rfl (fun _ _ _ hk => hk) trivial (fun i => by simp [hsw, Untracked])

end Switch

section Books

/-- Calls that submit or cancel an order. -/
def OrderCall : BookCall → Prop
  | .openBook _ => False
  | .tick _ => False
  | _ => True

theorem bookCall_later {x : Exchange B} (hf : x.Fresh) (hh : x.Homed) {c : BookCall}
    (hc : OrderCall c) : Later x (c.apply x) ∧ (c.apply x).Fresh ∧ (c.apply x).Homed := by
  have hf' : x.newOrderId.2.Fresh := hf.quiet (newOrderId_quiet _)
  have hh' : x.newOrderId.2.Homed := hh.quiet (newOrderId_quiet _)
  have habs : ∀ c, x.newOrderId.2.getOrder c x.newOrderId.1 = none := fun c => hf.absent le_rfl
  have hnone : x.newOrderId.2.home x.newOrderId.1 = none := hf.home_eq_none le_rfl
  have hquiet : ∀ x', Quiet x x' → x'.toCatalog = x.toCatalog → x'.now = x.now →
      Later x x' ∧ x'.Fresh ∧ x'.Homed := fun x' hq hcat hn =>
    ⟨hq.later hcat hn, hf.quiet hq, hh.quiet hq⟩
  have hfilled : ∀ {x' a side limit q r left},
      Filled x.newOrderId.2 x' a x.newOrderId.1 side limit q r left →
      x'.toCatalog = x.toCatalog → x'.now = x.now → Later x x' ∧ x'.Fresh ∧ x'.Homed := by
    intro x' a side limit q r left hfill hcat hn
    have hl := hfill.later hnone hcat hn
    exact ⟨⟨hl.home, hcat, hn, hl.remaining⟩, hf'.filled (Nat.lt_succ_self _) hfill,
      hh'.filled habs hfill⟩
  cases c with
  | openBook a => exact absurd hc id
  | tick ms => exact absurd hc id
  | cancel a i => exact ⟨cancelOrder_later x a i, cancelOrder_fresh hf a i, cancelOrder_homed hh a i⟩
  | limit a side p q tif =>
    cases hadd : x.newOrderId.2.addLimitOrderWithTif a x.newOrderId.1 side p q tif with
    | mk res x' =>
      have hcat : x'.toCatalog = x.toCatalog := (congrArg (·.2.toCatalog) hadd).symm
      have hn : x'.now = x.now := (congrArg (·.2.now) hadd).symm
      simp only [BookCall.apply, hadd]
      cases res with
      | error e => exact hquiet x' ((newOrderId_quiet _).trans (addLimit_error hadd)) hcat hn
      | ok r => exact hfilled (addLimit_ok hadd (habs a)).1 hcat hn
  | market a side q =>
    cases hadd : x.newOrderId.2.submitMarketOrder a x.newOrderId.1 q side with
    | mk res x' =>
      have hcat : x'.toCatalog = x.toCatalog := (congrArg (·.2.toCatalog) hadd).symm
      have hn : x'.now = x.now := (congrArg (·.2.now) hadd).symm
      simp only [BookCall.apply, hadd]
      cases res with
      | error e => exact hquiet x' ((newOrderId_quiet _).trans (market_error hadd)) hcat hn
      | ok r => exact hfilled (market_ok hadd (habs a)) hcat hn

omit [DecidableEq ι] in
theorem Safe.books (h : s.Safe) {c : BookCall} (hc : OrderCall c) :
    Safe ⟨{ s.desk with market := c.apply s.desk.market }, s.calls, s.switch⟩ := by
  obtain ⟨hl, hf, hh⟩ := bookCall_later h.fresh h.homed hc
  apply h.switching (d := { s.desk with market := c.apply s.desk.market }) hl hf hh rfl
  · exact fun _ _ ho => ho
  · exact fun _ _ _ hk => hk
  · exact h.switch.later hl
  · exact fun i hi => .inl hi
  · exact fun i hi => .inr hi

end Books

omit [DecidableEq ι] [LawfulUpstream B] in
/-- A tidy desk with all calls about to begin is safe. -/
theorem safe_of_tidy {reported : OrderId → ℕ} (h : s.desk.Tidy reported)
    (hhomed : s.desk.market.Homed) (hcalls : ∀ t, ∃ symbol p, s.calls t = .write symbol p)
    (hsw : s.switch = .flag) : s.Safe where
  fresh := h.fresh
  homed := hhomed
  placed := h.placed
  known ho := (h.known ho).2
  recorded {key leg i} hi := by
    obtain ⟨o, ho, hp⟩ := (h.indexed.agrees (key, leg) i).mp hi
    exact ⟨o.addr, (h.known ho).2.1, congrArg Prod.fst hp⟩
  calls t := by
    obtain ⟨symbol, p, ht⟩ := hcalls t
    rw [ht]
    exact trivial
  switch := by
    rw [hsw]
    exact trivial
  covered i hi hpos := .inl (h.tracked i hi hpos)

end Race
end MarketMaker
end OptionChainBackend
