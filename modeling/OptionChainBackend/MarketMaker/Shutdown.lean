import OptionChainBackend.MarketMaker.Race

/-!
`set_enabled(false)` against calls of `update_price` in flight. The shutdown cancels the orders
it finds tracked when it takes its snapshot; a call that read the switch before and still has
an instrument to quote places orders behind its back.
-/
namespace OptionChainBackend
namespace MarketMaker
open Foundation Upstream Exchange MarketMakerEngine

variable {ι B F : Type} [Upstream B] [F64 F]

namespace Desk

/-- The next requote of `i` would quote it. -/
def Quotable (d : Desk B F) (i : Instrument F) : Prop :=
  (d.quoteOf i).isSome = true ∧ d.market.hasBook i.addr = true

/-- A requote of `symbol` quotes something, at some price. -/
def CouldQuote (d : Desk B F) (symbol : String) : Prop :=
  ∃ spot, ∃ i ∈ d.worklist symbol spot, d.Quotable i

/-- A call that has read the switch as on and still has an instrument to quote. -/
def Owes (d : Desk B F) : UpdatePc F → Prop
  | .write _ _ => False
  | .readSwitch _ => False
  | .readSymbol symbol => d.engine.isSymbolEnabled symbol = true ∧ d.CouldQuote symbol
  | .readPrice symbol => d.CouldQuote symbol
  | .readConfig symbol spot => ∃ i ∈ d.worklist symbol spot, d.Quotable i
  | .quoting work => ∃ i ∈ work, d.Quotable i
  | .record job _ => ∃ i ∈ job.rest, d.Quotable i
  | .done => False
  | _ => True

/-- Nothing that decides what is quotable changed. -/
structure SameRules (d d' : Desk B F) : Prop where
  quoter : d'.engine.quoter = d.engine.quoter
  config : d'.engine.config = d.engine.config
  catalog : d'.market.toCatalog = d.market.toCatalog
  now : d'.market.now = d.market.now

variable {d d' : Desk B F}

omit [F64 F] in
theorem SameRules.worklist_eq (h : SameRules d d') (symbol : String) (spot : ℕ) :
    d'.worklist symbol spot = d.worklist symbol spot := by
  simp only [worklist, instruments, requoteContext, h.catalog, h.now, h.config]

omit [Upstream B] in
theorem SameRules.quotable_iff (h : SameRules d d') (i : Instrument F) :
    d'.Quotable i ↔ d.Quotable i := by
  simp only [Quotable, quoteOf, h.quoter, h.now, h.catalog]

theorem SameRules.owes_iff (h : SameRules d d') (pc : UpdatePc F) : d'.Owes pc ↔ d.Owes pc := by
  cases pc <;> simp only [Owes, CouldQuote, isSymbolEnabled, h.worklist_eq, h.quotable_iff,
    h.config]

/-- A requote does not write the configuration. -/
theorem updateStep_config (d : Desk B F) (pc : UpdatePc F) :
    (d.updateStep pc).1.engine.config = d.engine.config := by
  cases pc with
  | quoting work =>
    cases work with
    | nil => rfl
    | cons i rest =>
      simp only [updateStep]
      split
      · rfl
      · split_ifs <;> rfl
  | cancelStale job stale left =>
    cases left with
    | nil => exact congrArg (·.2.1) (foldl_untrack_settings stale.ids d.engine)
    | cons i left => rfl
  | placeBid job =>
    have he := d.placeOnBook_engine job.addr true job.quote.bidPrice job.quote.bidSize
    simp only [updateStep]
    split
    · rename_i hout
      rw [hout] at he
      exact congrArg (·.config) he
    · rename_i hout
      rw [hout] at he
      exact congrArg (·.config) he
  | placeAsk job bid =>
    have he := d.placeOnBook_engine job.addr false job.quote.askPrice job.quote.askSize
    simp only [updateStep]
    split
    · rename_i hout
      rw [hout] at he
      exact congrArg (·.config) he
    · rename_i hout
      rw [hout] at he
      exact congrArg (·.config) he
  | readPrice symbol =>
    simp only [updateStep]
    split <;> rfl
  | record job placed =>
    have hset : (d.engine.recordLegs (.new job.addr) placed).settings = d.engine.settings :=
      recordLegs_settings placed
    exact congrArg (·.2.1) hset
  | _ => rfl

/-- A call that owes nothing tracks nothing and owes nothing afterwards, once the switch is off. -/
theorem updateStep_settled (hoff : d.engine.config.enabled = false) {pc : UpdatePc F}
    (h : ¬ d.Owes pc) : SameRules d (d.updateStep pc).1 ∧
      (d.updateStep pc).1.engine.activeOrders = d.engine.activeOrders ∧
      ¬ (d.updateStep pc).1.Owes (d.updateStep pc).2 := by
  have hrefl : SameRules d d := ⟨rfl, rfl, rfl, rfl⟩
  cases pc with
  | write symbol p => exact ⟨⟨rfl, rfl, rfl, rfl⟩, rfl, id⟩
  | readSwitch symbol =>
    have hen : d.engine.isEnabled = false := hoff
    refine ⟨hrefl, rfl, ?_⟩
    simp [updateStep, hen, Owes]
  | readSymbol symbol =>
    refine ⟨hrefl, rfl, ?_⟩
    simp only [updateStep]
    split_ifs with hs
    · exact fun hq => h ⟨hs, hq⟩
    · exact id
  | readPrice symbol =>
    simp only [updateStep]
    cases d.engine.getPrice symbol with
    | none => exact ⟨hrefl, rfl, id⟩
    | some spot => exact ⟨hrefl, rfl, fun hq => h ⟨spot, hq⟩⟩
  | readConfig symbol spot => exact ⟨hrefl, rfl, h⟩
  | quoting work =>
    cases work with
    | nil => exact ⟨hrefl, rfl, id⟩
    | cons i rest =>
      have hrest : ¬ d.Owes (.quoting rest) := by
        rintro ⟨j, hj, hq⟩
        exact h ⟨j, List.mem_cons_of_mem _ hj, hq⟩
      have hi : ¬ d.Quotable i := fun hq => h ⟨i, List.mem_cons_self, hq⟩
      cases hq : d.quoteOf i with
      | none =>
        have hstep : d.updateStep (.quoting (i :: rest)) = (d, .quoting rest) := by
          simp [updateStep, hq]
        rw [hstep]
        exact ⟨hrefl, rfl, hrest⟩
      | some q =>
        have hb : d.market.hasBook i.addr = false := by
          rw [Bool.eq_false_iff]
          exact fun hb => hi ⟨Option.isSome_iff_exists.mpr ⟨q, hq⟩, hb⟩
        have hstep : d.updateStep (.quoting (i :: rest)) = (d, .quoting rest) := by
          simp [updateStep, hq, hb]
        rw [hstep]
        exact ⟨hrefl, rfl, hrest⟩
  | record job placed =>
    have hset : (d.engine.recordLegs (.new job.addr) placed).settings = d.engine.settings :=
      recordLegs_settings placed
    have hact : (d.engine.recordLegs (.new job.addr) placed).activeOrders =
        d.engine.activeOrders := by
      unfold recordLegs
      split_ifs <;> rfl
    have hsame : SameRules d (d.updateStep (.record job placed)).1 :=
      ⟨congrArg (·.1) hset, congrArg (·.2.1) hset, rfl, rfl⟩
    exact ⟨hsame, hact, fun hq => h ((hsame.owes_iff (.quoting job.rest)).mp hq)⟩
  | done => exact ⟨hrefl, rfl, id⟩
  | cancelStale job stale left => exact absurd trivial h
  | unindex job => exact absurd trivial h
  | placeBid job => exact absurd trivial h
  | trackBid job id => exact absurd trivial h
  | placeAsk job bid => exact absurd trivial h
  | trackAsk job bid id => exact absurd trivial h

end Desk

namespace Race
variable {s : Race ι B F}

/-- The ids the shutdown still has to look at. -/
def pending : SwitchPc → List OrderId
  | .cancelling (.remove i) todo => i :: todo
  | .cancelling _ todo => todo
  | _ => []

/-- The snapshot of tracked ids has been taken. -/
def Snapshotted : SwitchPc → Prop
  | .flag => False
  | .snapshot => False
  | _ => True

/-- From the flag on the switch is off; from the snapshot on nothing new is quoted and what is
tracked is on the list. -/
structure Closing (s : Race ι B F) : Prop where
  off : s.switch ≠ .flag → s.desk.engine.config.enabled = false
  settled : Snapshotted s.switch → ∀ t, ¬ s.desk.Owes (s.calls t)
  listed : Snapshotted s.switch → ∀ {i o}, s.desk.engine.activeOrders.lookup i = some o →
    i ∈ pending s.switch

/-- No call has an instrument left to quote when the shutdown takes its snapshot. -/
def Quiescent (s : Race ι B F) : Move ι → Prop
  | .switch => s.switch = .snapshot → ∀ t, ¬ s.desk.Owes (s.calls t)
  | _ => True

/-- The steps of the race: others submit and cancel, but create no books. -/
def Racing (_ : Race ι B F) : Move ι → Prop
  | .books c => OrderCall c
  | _ => True

/-- Calls about to begin on a desk that is in order. -/
structure Ready (s : Race ι B F) : Prop where
  tidy : ∃ reported, s.desk.Tidy reported
  homed : s.desk.market.Homed
  calls : ∀ t, ∃ symbol p, s.calls t = .write symbol p
  switch : s.switch = .flag

section
variable [DecidableEq ι]

theorem Closing.callStep (h : s.Closing) (t : ι) : (s.step (.call t)).Closing := by
  have hoff : Snapshotted s.switch → s.desk.engine.config.enabled = false := by
    intro hsnap
    apply h.off
    intro hf
    rw [hf] at hsnap
    exact hsnap
  constructor
  · intro hsw
    have hc := s.desk.updateStep_config (s.calls t)
    exact (congrArg (·.enabled) hc).trans (h.off hsw)
  · intro hsw u
    obtain ⟨hsame, -, howes⟩ := Desk.updateStep_settled (hoff hsw) (h.settled hsw t)
    simp only [step]
    by_cases hu : u = t
    · rw [hu, Function.update_self]
      exact howes
    · rw [Function.update_of_ne hu, hsame.owes_iff]
      exact h.settled hsw u
  · intro hsw i o ho
    obtain ⟨-, hact, -⟩ := Desk.updateStep_settled (hoff hsw) (h.settled hsw t)
    simp only [step] at ho ⊢
    rw [hact] at ho
    exact h.listed hsw ho

omit [F64 F] in
theorem cancelStep_rules (d : Desk B F) (c : CancelPc) : Desk.SameRules d (d.cancelStep c).1 := by
  have hclear : ∀ (e : MarketMakerEngine F) key b,
      (e.clearInstrumentSlot key b).settings = e.settings := fun e key b =>
    clearInstrumentSlot_settings b
  cases c with
  | remove i =>
    unfold Desk.cancelStep
    dsimp only
    split <;> exact ⟨rfl, rfl, rfl, rfl⟩
  | unslot i o =>
    have hset := hclear d.engine (.fromOrder o) o.isBuy
    exact ⟨congrArg (·.1) hset, congrArg (·.2.1) hset, rfl, rfl⟩
  | onBook i o =>
    unfold Desk.cancelStep
    dsimp only
    split_ifs <;> exact ⟨rfl, rfl, rfl, rfl⟩
  | done => exact ⟨rfl, rfl, rfl, rfl⟩

omit [F64 F] in
/-- What one step of a cancel leaves tracked is still on the list. -/
theorem cancelStep_listed (d : Desk B F) (c : CancelPc) (todo : List OrderId)
    (h : ∀ {i o}, d.engine.activeOrders.lookup i = some o → i ∈ pending (.cancelling c todo))
    {i : OrderId} {o : ActiveOrderInfo}
    (ho : (d.cancelStep c).1.engine.activeOrders.lookup i = some o) :
    i ∈ pending (.cancelling (d.cancelStep c).2 todo) := by
  cases c with
  | remove j =>
    cases hj : d.engine.activeOrders.lookup j with
    | none =>
      have hstep : d.cancelStep (.remove j) = (d, .done) := by simp [Desk.cancelStep, hj]
      rw [hstep] at ho ⊢
      rcases List.mem_cons.mp (h ho) with rfl | hmem
      · rw [hj] at ho
        cases ho
      · exact hmem
    | some o' =>
      have hstep : d.cancelStep (.remove j) =
          ({ d with engine := d.engine.untrack j }, .unslot j o') := by
        simp [Desk.cancelStep, hj]
      rw [hstep] at ho ⊢
      simp only [untrack, Table.lookup_erase_eq] at ho
      split_ifs at ho with hij
      rcases List.mem_cons.mp (h ho) with rfl | hmem
      · exact absurd rfl hij
      · exact hmem
  | unslot j o' =>
    simp only [Desk.cancelStep] at ho ⊢
    rw [clearInstrumentSlot_activeOrders] at ho
    exact h ho
  | onBook j o' =>
    have hact : (d.cancelStep (.onBook j o')).1.engine = d.engine := by
      unfold Desk.cancelStep
      dsimp only
      split_ifs <;> rfl
    rw [hact] at ho
    exact h ho
  | done => exact h ho

theorem Closing.switchStep (h : s.Closing) (hok : s.Quiescent .switch) :
    (s.step .switch).Closing := by
  cases hsw : s.switch with
  | flag =>
    simp only [step, hsw, Desk.switchStep]
    exact ⟨fun _ => rfl, fun hs => absurd hs id, fun hs => absurd hs id⟩
  | snapshot =>
    simp only [step, hsw, Desk.switchStep]
    refine ⟨fun _ => h.off (by simp [hsw]), fun _ => hok hsw, fun _ {i o} ho => ?_⟩
    exact (Table.mem_keys_iff _ i).mpr ⟨o, ho⟩
  | announce =>
    have hold := h.settled (by simp [hsw, Snapshotted])
    have hlist := fun {i o} => h.listed (by simp [hsw, Snapshotted]) (i := i) (o := o)
    rw [hsw] at hlist
    simp only [step, hsw, Desk.switchStep]
    have hsame : Desk.SameRules s.desk
        { s.desk with engine := s.desk.engine.broadcastConfigChange } := ⟨rfl, rfl, rfl, rfl⟩
    exact ⟨fun _ => h.off (by simp [hsw]), fun _ t => (hsame.owes_iff _).not.mpr (hold t),
      fun _ {i o} ho => hlist ho⟩
  | done =>
    have hold := h.settled (by simp [hsw, Snapshotted])
    have hlist := fun {i o} => h.listed (by simp [hsw, Snapshotted]) (i := i) (o := o)
    rw [hsw] at hlist
    simp only [step, hsw, Desk.switchStep]
    exact ⟨fun _ => h.off (by simp [hsw]), fun _ => hold, fun _ {i o} ho => hlist ho⟩
  | cancelling c todo =>
    have hoff := h.off (by simp [hsw])
    have hold := h.settled (by simp [hsw, Snapshotted])
    have hlist := fun {i o} => h.listed (by simp [hsw, Snapshotted]) (i := i) (o := o)
    rw [hsw] at hlist
    by_cases hcd : c = .done
    · subst hcd
      cases todo with
      | nil =>
        simp only [step, hsw, Desk.switchStep]
        have hsame : Desk.SameRules s.desk
            { s.desk with engine := s.desk.engine.clearIndex } := ⟨rfl, rfl, rfl, rfl⟩
        exact ⟨fun _ => hoff, fun _ t => (hsame.owes_iff _).not.mpr (hold t),
          fun _ {i o} ho => hlist ho⟩
      | cons i todo =>
        simp only [step, hsw, Desk.switchStep]
        exact ⟨fun _ => hoff, fun _ => hold, fun _ {i o} ho => hlist ho⟩
    · have hstep := s.desk.switchStep_cancelling hcd todo
      have hsame := cancelStep_rules s.desk c
      simp only [step, hsw, hstep]
      exact ⟨fun _ => (congrArg (·.enabled) hsame.config).trans hoff,
        fun _ t => (hsame.owes_iff _).not.mpr (hold t),
        fun _ {i o} ho => cancelStep_listed s.desk c todo hlist ho⟩

end

theorem Closing.books [LawfulUpstream B] (h : s.Closing) (hs : s.Safe) {c : BookCall}
    (hc : OrderCall c) : Closing { s with
      desk := { s.desk with market := c.apply s.desk.market } } := by
  have hl := (bookCall_later hs.fresh hs.homed hc).1
  have hsame : Desk.SameRules s.desk { s.desk with market := c.apply s.desk.market } :=
    ⟨rfl, rfl, hl.catalog, hl.now⟩
  exact ⟨h.off, fun hsw t => (hsame.owes_iff _).not.mpr (h.settled hsw t), h.listed⟩

theorem Ready.closing (h : s.Ready) : s.Closing where
  off hsw := absurd h.switch hsw
  settled hsw := by
    rw [h.switch] at hsw
    exact absurd hsw id
  listed hsw := by
    rw [h.switch] at hsw
    exact absurd hsw id

/-- The call has returned. -/
def Returned : UpdatePc F → Bool
  | .done => true
  | _ => false

/-- In every run in which no call has an instrument left to quote when the shutdown takes its
snapshot, nothing of the engine rests and nothing is tracked once `set_enabled(false)` returned. -/
theorem shutdown_holds [DecidableEq ι] [LawfulUpstream B] (hc : CancelRemoves B)
    (h : Reaches Ready step (fun s m => s.Racing m ∧ s.Quiescent m) s) (hsw : s.switch = .done) :
    (∀ i, s.desk.engine.activeOrders.lookup i = none) ∧
      ∀ a i, i ∈ s.desk.quoted → s.desk.market.getOrder a i = none := by
  have hinv : s.Safe ∧ s.Closing := by
    apply Reaches.invariant (P := fun s : Race ι B F => s.Safe ∧ s.Closing) _ _ h
    · rintro s hs
      obtain ⟨reported, ht⟩ := hs.tidy
      exact ⟨safe_of_tidy ht hs.homed hs.calls hs.switch, hs.closing⟩
    · rintro s m ⟨hs, hcl⟩ ⟨hracing, hquiet⟩
      cases m with
      | call t => exact ⟨hs.callStep hc t, hcl.callStep t⟩
      | switch => exact ⟨hs.switchStep hc, hcl.switchStep hquiet⟩
      | books c => exact ⟨hs.books hracing, hcl.books hs hracing⟩
  obtain ⟨hs, hcl⟩ := hinv
  have hsnap : Snapshotted s.switch := by
    rw [hsw]
    exact trivial
  have hnone : ∀ i, s.desk.engine.activeOrders.lookup i = none := by
    intro i
    cases ho : s.desk.engine.activeOrders.lookup i with
    | none => rfl
    | some o =>
      have hmem := hcl.listed hsnap ho
      rw [hsw] at hmem
      cases hmem
  refine ⟨hnone, fun a i hi => ?_⟩
  cases ho : s.desk.market.getOrder a i with
  | none => rfl
  | some o =>
    have hpos : 0 < s.desk.market.remaining i := by
      rw [(hs.homed _).remaining_eq ho]
      exact LawfulUpstream.getOrder_pos _ _ _ ho
    rcases hs.covered i hi hpos with hact | ⟨t, ht⟩ | hun
    · rw [hnone i] at hact
      cases hact
    · have howes := hcl.settled hsnap t
      cases hpc : s.calls t <;> simp [hpc, Holds, Desk.Owes] at ht howes
    · rw [hsw] at hun
      exact absurd hun id

section Reference

/-- One call of `update_price` about to begin on a book that exists. -/
def reference : Race Unit ReferenceBook ℚ :=
  ⟨(Session.reference.step (.books (.openBook btcCall))).desk, fun _ => .write "BTC" 10000, .flag⟩

theorem reference_ready : reference.Ready where
  tidy := by
    have hrun : Reaches Session.Start Session.step Session.Honest
        (Session.reference.step (.books (.openBook btcCall))) :=
      (Reaches.start Session.reference_start).next trivial
    exact ⟨_, Session.reaches_tidy ReferenceBook.cancelRemoves hrun⟩
  homed := init_homed.quiet (openBook_quiet _ btcCall)
  calls _ := ⟨_, _, rfl⟩
  switch := rfl

/-- The call reads the switch as on, the whole shutdown runs, and then the call goes on. -/
def overtaken : List (Move Unit) :=
  List.replicate 2 (.call ()) ++ List.replicate 4 .switch ++ List.replicate 20 (.call ())

theorem shutdown_violated : ¬ ∀ s : Race Unit ReferenceBook ℚ, Reaches Ready step Racing s →
    s.switch = .done → (∀ t, Returned (s.calls t) = true) →
    (∀ i, s.desk.engine.activeOrders.lookup i = none) ∧
      ∀ a i, i ∈ s.desk.quoted → s.desk.market.getOrder a i = none := by
  intro h
  have hallowed : ∀ (ms : List (Move Unit)) (s : Race Unit ReferenceBook ℚ),
      (∀ m ∈ ms, ∀ c, m ≠ .books c) → Allowed step Racing s ms := by
    intro ms
    induction ms with
    | nil => exact fun _ _ => trivial
    | cons m ms ih =>
      intro s hms
      refine ⟨?_, ih _ fun m' hm' => hms m' (List.mem_cons_of_mem _ hm')⟩
      cases m with
      | books c => exact absurd rfl (hms _ List.mem_cons_self c)
      | call t => exact trivial
      | switch => exact trivial
  have hrun := (Reaches.start reference_ready).run
    (hallowed overtaken reference (by simp [overtaken]))
  have hreturned : Returned ((overtaken.foldl step reference).calls ()) = true := by
    decide +kernel
  have hrest := (h _ hrun rfl fun _ => hreturned).2 btcCall 0 (by decide +kernel)
  exact absurd hrest (by decide +kernel)

theorem shutdown_holds_before_read :
    let s := ([.call (), .switch, .switch, .switch, .switch] : List (Move Unit)).foldl step reference
    (∀ i, s.desk.engine.activeOrders.lookup i = none) ∧
      ∀ a i, i ∈ s.desk.quoted → s.desk.market.getOrder a i = none := by
  have hrun : Reaches Ready step (fun s m => s.Racing m ∧ s.Quiescent m)
      (([.call (), .switch, .switch, .switch, .switch] : List (Move Unit)).foldl step
        reference) := by
    apply (Reaches.start reference_ready).run
    refine ⟨⟨trivial, trivial⟩, ⟨trivial, fun hs => ?_⟩, ⟨trivial, fun _ _ ho => ho⟩,
      ⟨trivial, fun hs => ?_⟩, ⟨trivial, fun hs => ?_⟩, trivial⟩
    · cases hs
    · cases hs
    · cases hs
  exact shutdown_holds ReferenceBook.cancelRemoves hrun rfl

end Reference

end Race
end MarketMaker
end OptionChainBackend
