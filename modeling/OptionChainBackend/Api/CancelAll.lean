import OptionChainBackend.Api.Grounded

/-!
`cancel_all_orders`. The sweep over the selected orders removes exactly those whose stored strings
lead to the book they rest on; whether that is every order the filter means depends on the cached
status and the stored expiration.
-/
namespace OptionChainBackend
open Foundation Upstream MarketMaker Exchange

namespace AppState
variable {B F : Type} [Upstream B] {s s' : AppState B F} {f : CancelFilter} {i : OrderId}
  {l : List (String × OrderInfo)}

section Sweep

/-- A cancel through the stored strings of `o` finds order `i` resting. -/
def Hits (x : Exchange B) (i : OrderId) (o : OrderInfo) : Prop :=
  ∃ a, trackedTarget x (showOrderId B i) o = some (a, i) ∧ (x.getOrder a i).isSome = true

/-- Order `i` is no longer tracked and rests nowhere. -/
def Gone (s' : AppState B F) (i : OrderId) : Prop :=
  s'.orders.lookup (showOrderId B i) = none ∧ ∀ c, s'.market.getOrder c i = none

/-- Order `i` is tracked and rests as before. -/
def Spared (s s' : AppState B F) (i : OrderId) : Prop :=
  s'.orders.lookup (showOrderId B i) = s.orders.lookup (showOrderId B i) ∧
    ∀ c, s'.market.getOrder c i = s.market.getOrder c i

/-- What cancelling the tracked orders `l` one after the other does. -/
structure Swept (s s' : AppState B F) (l : List (String × OrderInfo)) : Prop where
  catalog : s'.market.toCatalog = s.market.toCatalog
  now : s'.market.now = s.market.now
  hit : ∀ i o, (showOrderId B i, o) ∈ l → Hits s.market i o → Gone s' i
  missed : ∀ i, (∀ o, (showOrderId B i, o) ∈ l → ¬ Hits s.market i o) → Spared s s' i

theorem trackedTarget_congr {x x' : Exchange B} (hc : x'.toCatalog = x.toCatalog)
    (hn : x'.now = x.now) (key : String) (o : OrderInfo) :
    trackedTarget x' key o = trackedTarget x key o := by
  unfold trackedTarget
  split
  · rw [locate_congr hc hn]
  · rfl

variable [LawfulUpstream B]

theorem trackedTarget_id {x : Exchange B} {a : OptionAddr} {i j : OrderId} {o : OrderInfo}
    (h : trackedTarget x (showOrderId B i) o = some (a, j)) : j = i := by
  unfold trackedTarget at h
  rw [LawfulUpstream.parse_show] at h
  split at h
  · rename_i id style hid hstyle
    obtain rfl := Option.some.inj hid
    split at h
    · exact (congrArg Prod.snd (Option.some.inj h)).symm
    · cases h
  · cases h

omit [LawfulUpstream B] in
theorem trackedTarget_hasBook {x : Exchange B} {key : String} {o : OrderInfo} {a : OptionAddr}
    {id : OrderId} (h : trackedTarget x key o = some (a, id)) : x.hasBook a = true := by
  unfold trackedTarget at h
  split at h
  · split at h
    · rename_i hl
      obtain ⟨rfl, -⟩ := Prod.mk.inj (Option.some.inj h)
      exact (locate_ok hl).2.2.2.2
    · cases h
  · cases h

/-- One cancel of the sweep. -/
theorem cancelTracked_swept (hcr : CancelRemoves B) (hh : s.market.Homed) (i : OrderId)
    (o : OrderInfo) : Swept s (s.cancelTracked (showOrderId B i) o).2 [(showOrderId B i, o)] := by
  have hself : ∀ {j o'}, (showOrderId B j, o') ∈ [(showOrderId B i, o)] → j = i ∧ o' = o := by
    intro j o' hmem
    obtain ⟨hk, ho⟩ := Prod.mk.inj (List.mem_singleton.mp hmem)
    exact ⟨showOrderId_injective hk, ho⟩
  rcases cancelTracked_cases (s := s) (showOrderId B i) o with
    ⟨e, x, he, hidle, hcat, hne⟩ | ⟨a, j, x, he, ht, hc⟩
  · rw [he]
    refine ⟨hcat, hidle.now, fun j o' hmem hhit => ?_, fun j _ => ⟨rfl, fun c => ?_⟩⟩
    · obtain ⟨rfl, rfl⟩ := hself hmem
      obtain ⟨a, hta, hrest⟩ := hhit
      exact absurd (hcr _ _ hrest) (hne a j hta)
    · exact hidle.getOrder c j
  · obtain rfl := trackedTarget_id ht
    rw [he]
    refine ⟨hc.catalog, hc.now, fun j' o' hmem _ => ?_, fun j' hmiss => ?_⟩
    · obtain ⟨rfl, rfl⟩ := hself hmem
      constructor
      · exact AList.lookup_erase _ _
      · intro c
        change x.getOrder c j' = none
        rw [hc.getOrder]
        split_ifs with hca
        · rfl
        · cases hr : s.market.getOrder c j' with
          | none => rfl
          | some r =>
            obtain ⟨r', hr'⟩ := Option.isSome_iff_exists.mp hc.present
            have hca' : c = a := Option.some.inj ((hh j' hr).symm.trans (hh j' hr'))
            exact absurd ⟨hca', rfl⟩ hca
    · have hj : j' ≠ j := by
        rintro rfl
        exact hmiss o (List.mem_singleton_self _) ⟨a, ht, hc.present⟩
      constructor
      · exact AList.lookup_erase_ne fun hk => hj (showOrderId_injective hk)
      · intro c
        change x.getOrder c j' = _
        rw [hc.getOrder, if_neg fun hcj => hj hcj.2]

theorem Swept.next {s'' : AppState B F} {o : OrderInfo} (h : Swept s s' l)
    (h' : Swept s' s'' [(showOrderId B i, o)]) (hnew : ∀ o', (showOrderId B i, o') ∉ l) :
    Swept s s'' (l ++ [(showOrderId B i, o)]) := by
  have hspared : Spared s s' i := h.missed i fun o' hmem => absurd hmem (hnew o')
  have hiff : ∀ o', Hits s'.market i o' ↔ Hits s.market i o' := by
    intro o'
    unfold Hits
    simp only [trackedTarget_congr h.catalog h.now, hspared.2]
  have hother : ∀ {j}, j ≠ i → Spared s' s'' j := by
    intro j hj
    refine h'.missed j fun o' hmem => ?_
    obtain ⟨hk, -⟩ := Prod.mk.inj (List.mem_singleton.mp hmem)
    exact absurd (showOrderId_injective hk) hj
  refine ⟨h'.catalog.trans h.catalog, h'.now.trans h.now, fun j o' hmem hhit => ?_,
    fun j hmiss => ?_⟩
  · by_cases hj : j = i
    · subst hj
      rcases List.mem_append.mp hmem with hmem | hmem
      · exact absurd hmem (hnew o')
      · exact h'.hit j o' hmem ((hiff o').mpr hhit)
    · have hold : (showOrderId B j, o') ∈ l := by
        rcases List.mem_append.mp hmem with hmem | hmem
        · exact hmem
        · obtain ⟨hk, -⟩ := Prod.mk.inj (List.mem_singleton.mp hmem)
          exact absurd (showOrderId_injective hk) hj
      have hgone := h.hit j o' hold hhit
      exact ⟨(hother hj).1.trans hgone.1, fun c => ((hother hj).2 c).trans (hgone.2 c)⟩
  · have hfirst : Spared s s' j := h.missed j fun o' hmem => hmiss o' (List.mem_append_left _ hmem)
    have hlast : Spared s' s'' j := by
      by_cases hj : j = i
      · subst hj
        refine h'.missed j fun o' hmem hhit => ?_
        exact hmiss o' (List.mem_append_right _ hmem) ((hiff o').mp hhit)
      · exact hother hj
    exact ⟨hlast.1.trans hfirst.1, fun c => (hlast.2 c).trans (hfirst.2 c)⟩

omit [LawfulUpstream B] in
theorem cancelNext_count (acc : CancelAllResponse × AppState B F) (e : String × OrderInfo) :
    (cancelNext acc e).1.canceledCount + (cancelNext acc e).1.failedCount =
      acc.1.canceledCount + acc.1.failedCount + 1 := by
  unfold cancelNext
  split <;> dsimp only <;> omega

/-- The whole sweep over tracked orders with different keys. -/
theorem foldl_cancelNext_swept (hcr : CancelRemoves B) (hg : s.Grounded) (hh : s.market.Homed)
    (resp : CancelAllResponse) (hkeys : ∀ e ∈ l, ∃ i, e.1 = showOrderId B i)
    (hnodup : (l.map Prod.fst).Nodup) :
    Swept s (l.foldl cancelNext (resp, s)).2 l ∧
      (l.foldl cancelNext (resp, s)).1.canceledCount +
        (l.foldl cancelNext (resp, s)).1.failedCount =
          resp.canceledCount + resp.failedCount + l.length := by
  induction l using List.reverseRecOn with
  | nil => exact ⟨⟨rfl, rfl, nofun, fun _ _ => ⟨rfl, fun _ => rfl⟩⟩, rfl⟩
  | append_singleton l e ih =>
    have hn := hnodup
    rw [List.map_append, List.nodup_append] at hn
    obtain ⟨hswept, hcount⟩ := ih (fun e he => hkeys e (List.mem_append_left _ he)) hn.1
    rw [List.foldl_append, List.foldl_cons, List.foldl_nil, cancelNext_snd, cancelNext_count,
      hcount, List.length_append, List.length_singleton]
    refine ⟨?_, by omega⟩
    obtain ⟨i, hi⟩ := hkeys e (by simp)
    obtain ⟨key, o⟩ := e
    obtain rfl : key = showOrderId B i := hi
    have hadv := advances_foldl (fun acc : CancelAllResponse × AppState B F => acc.2) cancelNext
      cancelNext_advances l (resp, s) hg
    apply hswept.next (cancelTracked_swept hcr (hadv.wanes.homed hh) i o)
    intro o' hmem
    exact hn.2.2 _ (List.mem_map_of_mem hmem) _ (by simp) rfl

end Sweep

section Filter

/-- The filter means the book `a` and the side of `o`. -/
structure CancelFilter.Covers (f : CancelFilter) (x : Exchange B) (a : OptionAddr)
    (o : OrderInfo) : Prop where
  underlying : ∀ u, f.underlying = some u → a.underlying = u
  expiration : ∀ e, f.expiration = some e →
    x.findExpirationByStr a.underlying e = some a.expiration
  side : ∀ d, f.side = some d → o.side = d
  style : ∀ style, f.style = some style → a.style = style

/-- No tracked order the filter covers rests. -/
def CancelComplete (s' : AppState B F) (f : CancelFilter) : Prop :=
  ∀ i o a r, s'.orders.lookup (showOrderId B i) = some o → s'.market.getOrder a i = some r →
    ¬ f.Covers s'.market a o

/-- Every tracked order that rests and is covered by the filter has the status `Active`, the
expiration the filter spells, and strings that lead to its book. -/
def CancelCovered (s : AppState B F) (f : CancelFilter) : Prop :=
  ∀ i o a r, s.orders.lookup (showOrderId B i) = some o → s.market.getOrder a i = some r →
    f.Covers s.market a o → o.status = .active ∧
      (∀ e, f.expiration = some e → o.expiration = e) ∧
      s.market.locate o.underlying o.expiration o.strike a.style = .ok a

theorem CancelFilter.Covers.congr {x x' : Exchange B} {a : OptionAddr} {o : OrderInfo}
    (h : f.Covers x a o) (hc : x'.toCatalog = x.toCatalog) (hn : x'.now = x.now) :
    f.Covers x' a o := by
  refine ⟨h.underlying, fun e he => ?_, h.side, h.style⟩
  have hsame : x'.findExpirationByStr a.underlying e = x.findExpirationByStr a.underlying e := by
    simp only [findExpirationByStr, hc, hn]
  rw [hsame]
  exact h.expiration e he

omit [Upstream B] in
/-- What the code selects, field by field. -/
theorem CancelFilter.selects_iff (f : CancelFilter) (o : OrderInfo) : f.selects o = true ↔
    (∀ u, f.underlying = some u → o.underlying = u) ∧
    (∀ e, f.expiration = some e → o.expiration = e) ∧ (∀ d, f.side = some d → o.side = d) ∧
    (∀ style, f.style = some style → styleOfName o.style = some style) ∧ o.status = .active := by
  obtain ⟨u, e, d, style⟩ := f
  cases u <;> cases e <;> cases d <;> cases style <;>
    simp [CancelFilter.selects, and_assoc]

variable [LawfulUpstream B]

/-- The strings of a tracked order that rests lead to its book, or to none it rests on. -/
theorem hits_iff (hg : s.Grounded) (hh : s.market.Homed) {o : OrderInfo} {a : OptionAddr}
    {r : RestingOrder} (ho : s.orders.lookup (showOrderId B i) = some o)
    (hr : s.market.getOrder a i = some r) : Hits s.market i o ↔
      s.market.locate o.underlying o.expiration o.strike a.style = .ok a := by
  obtain ⟨j, c, hk, -, hhome, hnames⟩ := hg.tracked _ o ho
  obtain rfl := showOrderId_injective hk
  obtain rfl : c = a := Option.some.inj (hhome.symm.trans (hh i hr))
  have htarget : ∀ b, trackedTarget s.market (showOrderId B i) o = some (b, i) ↔
      s.market.locate o.underlying o.expiration o.strike c.style = .ok b := by
    intro b
    unfold trackedTarget
    rw [LawfulUpstream.parse_show, hnames.style, styleOfName_styleName]
    dsimp only
    cases s.market.locate o.underlying o.expiration o.strike c.style with
    | ok a' => simp
    | error m => simp
  constructor
  · rintro ⟨b, hb, hrest⟩
    obtain ⟨r', hr'⟩ := Option.isSome_iff_exists.mp hrest
    obtain rfl : b = c := Option.some.inj ((hh i hr').symm.trans (hh i hr))
    exact (htarget b).mp hb
  · intro hl
    exact ⟨c, (htarget c).mpr hl, Option.isSome_iff_exists.mpr ⟨r, hr⟩⟩

omit [LawfulUpstream B] in
theorem select_canonical (hg : s.Grounded) (f : CancelFilter) :
    ∀ e ∈ (s.orders.select fun _ o => f.selects o), ∃ i, e.1 = showOrderId B i := by
  intro e he
  obtain ⟨i, a, hk, -⟩ := hg.tracked e.1 e.2 ((Table.mem_select _ _ _ _).mp he).1
  exact ⟨i, hk⟩

theorem cancelSelected_swept (hcr : CancelRemoves B) (hg : s.Grounded) (hh : s.market.Homed)
    (f : CancelFilter) :
    Swept s (s.cancelSelected f).2 (s.orders.select fun _ o => f.selects o) ∧
      (s.cancelSelected f).1.canceledCount + (s.cancelSelected f).1.failedCount =
        (s.orders.select fun _ o => f.selects o).length := by
  obtain ⟨hswept, hcount⟩ := foldl_cancelNext_swept hcr hg hh ⟨0, 0⟩ (select_canonical hg f)
    (Table.select_keys_nodup _ _)
  exact ⟨hswept, hcount.trans (Nat.zero_add _)⟩

/-- The sweep is complete exactly when the code's selection misses nothing that rests. -/
theorem cancelSelected_complete_iff (hcr : CancelRemoves B) (hg : s.Grounded)
    (hh : s.market.Homed) (f : CancelFilter) :
    (s.cancelSelected f).2.CancelComplete f ↔ s.CancelCovered f := by
  obtain ⟨hswept, -⟩ := cancelSelected_swept hcr hg hh f
  constructor
  · intro hcomplete i o a r ho hr hcov
    by_cases hhit : ∃ o', (showOrderId B i, o') ∈ (s.orders.select fun _ o => f.selects o) ∧
        Hits s.market i o'
    · obtain ⟨o', hmem, hhit⟩ := hhit
      obtain ⟨ho', hsel⟩ := (Table.mem_select _ _ _ _).mp hmem
      obtain rfl : o' = o := Option.some.inj (ho'.symm.trans ho)
      obtain ⟨-, hexp, -, -, hactive⟩ := (f.selects_iff o').mp hsel
      exact ⟨hactive, hexp, (hits_iff hg hh ho hr).mp hhit⟩
    · have hspared := hswept.missed i fun o' hmem hh' => hhit ⟨o', hmem, hh'⟩
      refine absurd (hcov.congr hswept.catalog hswept.now) (hcomplete i o a r ?_ ?_)
      · exact hspared.1.trans ho
      · exact (hspared.2 a).trans hr
  · intro hcovered i o a r ho hr hcov
    by_cases hhit : ∃ o', (showOrderId B i, o') ∈ (s.orders.select fun _ o => f.selects o) ∧
        Hits s.market i o'
    · obtain ⟨o', hmem, hhit⟩ := hhit
      have hgone := hswept.hit i o' hmem hhit
      rw [hgone.1] at ho
      cases ho
    · have hspared := hswept.missed i fun o' hmem hh' => hhit ⟨o', hmem, hh'⟩
      have ho' := hspared.1.symm.trans ho
      have hr' := (hspared.2 a).symm.trans hr
      have hcov' : f.Covers s.market a o := hcov.congr hswept.catalog.symm hswept.now.symm
      obtain ⟨hactive, hexp, hl⟩ := hcovered i o a r ho' hr' hcov'
      refine hhit ⟨o, (Table.mem_select _ _ _ _).mpr ⟨ho', ?_⟩, (hits_iff hg hh ho' hr').mpr hl⟩
      obtain ⟨-, hu, -, -, -⟩ := locate_ok hl
      obtain ⟨j, c, hk, -, hhome, hnames⟩ := hg.tracked _ o ho'
      obtain rfl := showOrderId_injective hk
      obtain rfl : c = a := Option.some.inj (hhome.symm.trans (hh i hr'))
      refine (f.selects_iff o).mpr ⟨fun u hfu => ?_, hexp, hcov'.side, fun style hfs => ?_, hactive⟩
      · exact hnames.underlying.trans (hcov'.underlying u hfu)
      · rw [hnames.style, styleOfName_styleName, hcov'.style style hfs]

variable [F64 F]

theorem Start.homed (h : s.Start) : s.market.Homed := by
  obtain ⟨quoter, rfl⟩ := h
  exact init_homed

theorem reaches_homed (h : Reaches Start step (fun _ i => Ordinary i = true) s) :
    s.market.Homed := by
  have hinv : s.Grounded ∧ s.market.Homed := by
    apply Reaches.invariant (P := fun s => s.Grounded ∧ s.market.Homed) _ _ h
    · exact fun s hs => ⟨hs.grounded, hs.homed⟩
    · exact fun s i hs hok => ⟨hs.1.step i, (step_advances hs.1 hok).wanes.homed hs.2⟩
  exact hinv.2

/-- After any run that restores no snapshot, cancel-all answers for every order it selects, and it
is complete exactly when the orders the filter covers are also those the code selects and finds. -/
theorem cancel_all_complete_iff (hcr : CancelRemoves B)
    (h : Reaches Start step (fun _ i => Ordinary i = true) s) {q : CancelAllQuery}
    (hq : parseCancelFilter q = .ok f) :
    ∃ resp s', s.cancelAllOrders q = (.ok resp, s') ∧
      resp.canceledCount + resp.failedCount = (s.orders.select fun _ o => f.selects o).length ∧
      (s'.CancelComplete f ↔ s.CancelCovered f) := by
  have hg := reaches_grounded h
  have hh := reaches_homed h
  have hout : s.cancelAllOrders q = (.ok (s.cancelSelected f).1, (s.cancelSelected f).2) := by
    unfold cancelAllOrders
    rw [hq]
  exact ⟨_, _, hout, (cancelSelected_swept hcr hg hh f).2,
    cancelSelected_complete_iff hcr hg hh f⟩

end Filter

section Reference

/-- A sell, then a larger buy that crosses it: the rest of the buy is tracked as `Partial`. -/
def partlyFilled : List (Request ℚ) :=
  [.createStrike "BTC" "30" 10000,
    .addOrder ⟨"BTC", "30", 10000, "call"⟩ ⟨.sell, 100, 3, none, none⟩,
    .addOrder ⟨"BTC", "30", 10000, "call"⟩ ⟨.buy, 100, 5, none, none⟩]

theorem cancel_all_incomplete : ¬ ∀ s : AppState ReferenceBook ℚ,
    Reaches Start step (fun _ i => Ordinary i = true) s → ∀ q f, parseCancelFilter q = .ok f →
      ∀ resp s', s.cancelAllOrders q = (.ok resp, s') → s'.CancelComplete f := by
  intro h
  have hrun : Reaches Start step (fun _ i => Ordinary i = true)
      (partlyFilled.foldl step reference) :=
    (Reaches.start reference_start).run (by decide)
  have hcomplete := h _ hrun ⟨none, none, none, none⟩ ⟨none, none, none, none⟩ rfl _ _ rfl
  have htracked : (((partlyFilled.foldl step reference).cancelAllOrders
      ⟨none, none, none, none⟩).2.orders.lookup (showOrderId ReferenceBook 1)).isSome = true := by
    decide +kernel
  have hrests : (((partlyFilled.foldl step reference).cancelAllOrders
      ⟨none, none, none, none⟩).2.market.getOrder btcCall 1).isSome = true := by decide +kernel
  obtain ⟨o, ho⟩ := Option.isSome_iff_exists.mp htracked
  obtain ⟨r, hr⟩ := Option.isSome_iff_exists.mp hrests
  exact hcomplete 1 o btcCall r ho hr ⟨nofun, nofun, nofun, nofun⟩

/-- Before the buy, the one tracked order is `Active` and cancel-all clears it. -/
theorem cancel_all_complete_active : ∃ resp s',
    ((partlyFilled.take 2).foldl step reference).cancelAllOrders ⟨none, none, none, none⟩ =
      (.ok resp, s') ∧ s'.CancelComplete ⟨none, none, none, none⟩ := by
  have hrun : Reaches Start step (fun _ i => Ordinary i = true)
      ((partlyFilled.take 2).foldl step reference) :=
    (Reaches.start reference_start).run (by decide)
  have hparse : parseCancelFilter ⟨none, none, none, none⟩ = .ok ⟨none, none, none, none⟩ := rfl
  obtain ⟨resp, s', hs, -, hiff⟩ :=
    cancel_all_complete_iff ReferenceBook.cancelRemoves hrun hparse
  refine ⟨resp, s', hs, hiff.mpr fun i o a r ho hr _ => ?_⟩
  have hall : ∀ e ∈ ((partlyFilled.take 2).foldl step reference).orders.select fun _ _ => true,
      e.1 = showOrderId ReferenceBook 0 ∧ e.2.status = .active ∧
        ((partlyFilled.take 2).foldl step reference).market.locate e.2.underlying
          e.2.expiration e.2.strike .call = .ok btcCall := by decide +kernel
  obtain ⟨hkey, hactive, hloc⟩ := hall _ ((Table.mem_select _ _ _ _).mpr ⟨ho, rfl⟩)
  obtain rfl := showOrderId_injective hkey
  have hhome : ((partlyFilled.take 2).foldl step reference).market.home 0 = some btcCall := by
    decide +kernel
  obtain rfl : a = btcCall := Option.some.inj ((reaches_homed hrun 0 hr).symm.trans hhome)
  exact ⟨hactive, nofun, hloc⟩

end Reference
end AppState
end OptionChainBackend
