import OptionChainBackend.Api.PathAgreement

/-!
Taking a snapshot and restoring it. A book is stored under its formatted date, and the restore
writes it to the book that date is parsed to; books that were empty are not stored.
-/
namespace OptionChainBackend
open Foundation Upstream MarketMaker Exchange

namespace AppState
variable {B F : Type} [Upstream B]

section Save
variable {x : Exchange B} {a c : OptionAddr}

/-- A snapshot stores the book on `a`. -/
def stocked (x : Exchange B) (a : OptionAddr) : Bool :=
  decide (0 < (Upstream.createSnapshot (x.books a)).orders.length)

/-- What `create_snapshot` stores of the book on `a`. -/
def savedInfo (x : Exchange B) (snapshotId : String) (a : OptionAddr) :
    Option OrderbookSnapshotInfo :=
  let snapshot := Upstream.createSnapshot (x.books a)
  if stocked x a then
    match serializeSnapshot B snapshot with
    | .ok data => some (snapshotInfo x snapshotId a snapshot data)
    | .error _ => none
  else none

theorem saveBook_infos (snapshotId : String) (t : SaveTally) (a : OptionAddr) :
    (saveBook x snapshotId t a).infos = t.infos ++ (savedInfo x snapshotId a).toList ∧
      ((saveBook x snapshotId t a).orderbooksFailed = 0 → t.orderbooksFailed = 0 ∧
        (stocked x a = true → (savedInfo x snapshotId a).isSome)) := by
  unfold saveBook savedInfo stocked
  dsimp only
  by_cases hs : 0 < (Upstream.createSnapshot (x.books a)).orders.length
  · rw [if_pos hs, if_pos (decide_eq_true hs)]
    cases serializeSnapshot B (Upstream.createSnapshot (x.books a)) with
    | ok data => exact ⟨rfl, fun h => ⟨h, fun _ => rfl⟩⟩
    | error m => exact ⟨(List.append_nil _).symm, fun h => absurd h (Nat.succ_ne_zero _)⟩
  · rw [if_neg hs, if_neg (by simpa using hs)]
    exact ⟨(List.append_nil _).symm, fun h => ⟨h, fun ht => absurd (of_decide_eq_true ht) hs⟩⟩

theorem saveBooks_infos (x : Exchange B) (snapshotId : String) :
    (saveBooks x snapshotId).infos = (allBooks x).filterMap (savedInfo x snapshotId) ∧
      ((saveBooks x snapshotId).orderbooksFailed = 0 →
        ∀ a ∈ allBooks x, stocked x a = true → (savedInfo x snapshotId a).isSome) := by
  have hall : ∀ (l : List OptionAddr) (t : SaveTally),
      (l.foldl (saveBook x snapshotId) t).infos =
        t.infos ++ l.filterMap (savedInfo x snapshotId) ∧
      ((l.foldl (saveBook x snapshotId) t).orderbooksFailed = 0 → t.orderbooksFailed = 0 ∧
        ∀ a ∈ l, stocked x a = true → (savedInfo x snapshotId a).isSome) := by
    intro l
    induction l with
    | nil => exact fun t => ⟨(List.append_nil _).symm, fun h => ⟨h, nofun⟩⟩
    | cons b l ih =>
      intro t
      obtain ⟨hinfos, hfail⟩ := ih (saveBook x snapshotId t b)
      obtain ⟨hone, hfail1⟩ := saveBook_infos (x := x) snapshotId t b
      constructor
      · rw [List.foldl_cons, hinfos, hone, List.append_assoc]
        congr 1
        cases hb : savedInfo x snapshotId b <;> simp [hb]
      · intro h
        obtain ⟨hmid, hrest⟩ := hfail h
        obtain ⟨ht, hb⟩ := hfail1 hmid
        refine ⟨ht, fun a ha => ?_⟩
        rcases List.mem_cons.mp ha with rfl | ha
        · exact hb
        · exact hrest a ha
  obtain ⟨hinfos, hfail⟩ := hall (allBooks x) ⟨[], 0, 0, 0⟩
  exact ⟨hinfos, fun h => (hfail h).2⟩

end Save

section Restore
variable [LawfulUpstream B] {x y : Exchange B} {a c : OptionAddr}

/-- Where the stored date of the book on `c` leads. -/
def landing (x : Exchange B) (c : OptionAddr) : Option OptionAddr :=
  match parseExpiration (formatExpiration B x.now c.expiration) with
  | .ok e => some { c with expiration := e }
  | .error _ => none

/-- The last stored book that a restore writes to `a`. -/
def lastStored (x : Exchange B) (a : OptionAddr) : Option OptionAddr :=
  (allBooks x).reverse.find? fun c => stocked x c && decide (landing x c = some a)

theorem find?_snapshot (b : B) (j : OrderId) :
    (Upstream.createSnapshot b).orders.find? (·.id = j) = Upstream.getOrder b j := by
  cases hj : Upstream.getOrder b j with
  | none =>
    rw [List.find?_eq_none]
    intro o ho heq
    have hid : o.id = j := by simpa using heq
    have hget := (LawfulUpstream.mem_snapshot b o).mp ho
    rw [hid, hj] at hget
    cases hget
  | some o =>
    have hid := LawfulUpstream.getOrder_id _ _ _ hj
    have hmem : o ∈ (Upstream.createSnapshot b).orders :=
      (LawfulUpstream.mem_snapshot b o).mpr (hid ▸ hj)
    cases hf : (Upstream.createSnapshot b).orders.find? (·.id = j) with
    | none =>
      rw [List.find?_eq_none] at hf
      exact absurd hid (by simpa using hf o hmem)
    | some o' =>
      have hid' : o'.id = j := by simpa using List.find?_some hf
      have hget := (LawfulUpstream.mem_snapshot b o').mp (List.mem_of_find?_eq_some hf)
      rw [hid', hj] at hget
      exact hget.symm

theorem storedStyle_styleName (style : OptionStyle) :
    storedStyle (Desk.styleName style) = some style := by
  cases style <;> decide +kernel

/-- One stored book that is restored without a failure. -/
theorem restoreInfo_saved {snapshotId : String} {info : OrderbookSnapshotInfo}
    (hi : savedInfo x snapshotId c = some info) {acc : RestoreTally × Exchange B}
    (hok : (restoreInfo acc info).1.orderbooksFailed = 0) : acc.1.orderbooksFailed = 0 ∧
      ∃ b, landing x c = some b ∧ ∀ a j, (restoreInfo acc info).2.getOrder a j =
        if a = b then x.getOrder c j else acc.2.getOrder a j := by
  unfold savedInfo at hi
  dsimp only at hi
  split_ifs at hi
  split at hi
  · rename_i data hdata
    obtain rfl := Option.some.inj hi
    have hparse := LawfulUpstream.parse_serialize _ _ hdata
    unfold restoreInfo at hok ⊢
    dsimp only [snapshotInfo] at hok ⊢
    rw [hparse, storedStyle_styleName] at hok ⊢
    unfold landing
    cases hp : parseExpiration (formatExpiration B x.now c.expiration) with
    | error m =>
      rw [hp] at hok
      exact absurd hok (Nat.succ_ne_zero _)
    | ok e =>
      rw [hp] at hok
      dsimp only at hok ⊢
      have hopen := openBook_idle acc.2 ⟨c.underlying, e, c.strike, c.style⟩
      rcases restore_cases (acc.2.openBook ⟨c.underlying, e, c.strike, c.style⟩)
          ⟨c.underlying, e, c.strike, c.style⟩ (Upstream.createSnapshot (x.books c)) with
        ⟨m, y, he, -⟩ | ⟨y, he, hr⟩
      · rw [he] at hok
        exact absurd hok (Nat.succ_ne_zero _)
      · rw [he] at hok ⊢
        refine ⟨hok, _, rfl, fun a j => ?_⟩
        dsimp only
        rw [hr.getOrder, find?_snapshot, hopen.getOrder]
        rfl
  · cases hi

/-- A restore of what was stored of `x` that reports success: each book holds what the last
stored book written to it held, or what it held before. -/
theorem restoreInfos_saved {snapshotId : String}
    (hsave : (saveBooks x snapshotId).orderbooksFailed = 0)
    (hok : (restoreInfos y (saveBooks x snapshotId).infos).1.orderbooksFailed = 0) :
    ∀ a, (restoreInfos y (saveBooks x snapshotId).infos).2.getOrder a =
      ((lastStored x a).map x.getOrder).getD (y.getOrder a) := by
  obtain ⟨hinfos, hall⟩ := saveBooks_infos x snapshotId
  have hstored := hall hsave
  intro a
  unfold restoreInfos at hok ⊢
  rw [hinfos, List.foldl_filterMap] at hok ⊢
  unfold lastStored
  refine (read_foldl_last (fun acc : RestoreTally × Exchange B => acc.2.getOrder a)
    (fun acc => acc.1.orderbooksFailed = 0)
    (fun c => stocked x c && decide (landing x c = some a)) (fun c => x.getOrder c) ?_ hok).2
  intro acc c hc hone
  cases hi : savedInfo x snapshotId c with
  | none =>
    have hempty : stocked x c = false := by
      cases hs : stocked x c with
      | false => rfl
      | true =>
        have := hstored c hc hs
        rw [hi] at this
        cases this
    rw [hi] at hone
    rw [hempty]
    exact ⟨hone, rfl⟩
  | some info =>
    have hs : stocked x c = true := by
      unfold savedInfo at hi
      dsimp only at hi
      split_ifs at hi with hs
      exact hs
    rw [hi] at hone
    obtain ⟨hacc, b, hb, hget⟩ := restoreInfo_saved hi hone
    refine ⟨hacc, ?_⟩
    funext j
    dsimp only
    rw [hget, hs, hb]
    by_cases hab : a = b
    · subst hab
      simp
    · have hne : ¬ b = a := fun h => hab h.symm
      simp [hab, hne]

end Restore

section Identity
variable [LawfulUpstream B] {x y : Exchange B} {a c : OptionAddr}

/-- `y` is what a restore of `x` needs: what is written to a book is what it held in `x`, and a
book nothing is written to holds it still. -/
def Recovers (x y : Exchange B) : Prop := ∀ a,
  (∀ c, lastStored x a = some c → x.getOrder c = x.getOrder a) ∧
  (lastStored x a = none → y.getOrder a = x.getOrder a)

omit [LawfulUpstream B] in
/-- A book opened under a date is written back to itself. -/
theorem landing_of_date (hd : Dated B) {expStr : String} {t : DateTime}
    (hp : parseExpiration expStr = .ok (.dateTime t)) (hc : c.expiration = .dateTime t) :
    landing x c = some c := by
  have hform : formatExpiration B x.now (.dateTime t) = expStr := by
    rw [hd.format_eq, ← (parseExpiration_dateTime hp).2.2]
    exact Calendar.formatYmd_inj.mpr rfl
  unfold landing
  rw [hc, hform, hp, ← hc]

omit [LawfulUpstream B] in
/-- When every stored book is written back to itself, only the books that were empty matter. -/
theorem Recovers.of_landing
    (hland : ∀ c ∈ allBooks x, stocked x c = true → landing x c = some c)
    (hrest : ∀ a, lastStored x a = none → y.getOrder a = x.getOrder a) : Recovers x y := by
  intro a
  refine ⟨fun c hc => ?_, hrest a⟩
  have hmem := List.mem_of_find?_eq_some hc
  have hmatch := List.find?_some hc
  rw [Bool.and_eq_true, decide_eq_true_eq] at hmatch
  rw [hland c (List.mem_reverse.mp hmem) hmatch.1, Option.some.injEq] at hmatch
  rw [hmatch.2]

theorem restoreInfos_identity_iff {snapshotId : String}
    (hsave : (saveBooks x snapshotId).orderbooksFailed = 0)
    (hok : (restoreInfos y (saveBooks x snapshotId).infos).1.orderbooksFailed = 0) :
    (∀ a i, (restoreInfos y (saveBooks x snapshotId).infos).2.getOrder a i = x.getOrder a i) ↔
      Recovers x y := by
  have hbook := restoreInfos_saved hsave hok
  constructor
  · intro h a
    have ha : (restoreInfos y (saveBooks x snapshotId).infos).2.getOrder a = x.getOrder a :=
      funext (h a)
    rw [hbook] at ha
    constructor
    · intro c hc
      rwa [hc] at ha
    · intro hnone
      rwa [hnone] at ha
  · intro h a i
    rw [hbook]
    cases hc : lastStored x a with
    | some c => exact congrFun ((h a).1 c hc) i
    | none => exact congrFun ((h a).2 hc) i

variable [F64 F] {s s' : AppState B F}

/-- Requests other than snapshots leave the stored ones alone. -/
theorem run_snapshots (hg : s.Grounded)
    (h : Reaches (fun s' => s' = s) step (fun _ i => Ordinary i = true) s') :
    s'.snapshots = s.snapshots := by
  apply And.right (a := s'.Grounded)
  apply Reaches.invariant (P := fun s' : AppState B F => s'.Grounded ∧
    s'.snapshots = s.snapshots) _ _ h
  · rintro s' rfl
    exact ⟨hg, rfl⟩
  · intro s' i hs' hi
    have hadv := step_advances hs'.1 hi
    exact ⟨hs'.1.advance hadv, hadv.snapshots.trans hs'.2⟩

omit [LawfulUpstream B] [F64 F] in
theorem createSnapshot_lookup {id : String} {stored : StoredSnapshot}
    (h : (s.createSnapshot id).2.snapshots.lookup id = some stored) :
    stored.infos = (saveBooks s.market id).infos := by
  have hs := evictOldest_iterate_lookup _ h
  rw [Table.lookup_insert_eq, if_pos rfl] at hs
  rw [← Option.some.inj hs]

/-- In every run: a snapshot that reported success and is restored with success after any
requests gives every book back exactly when `Recovers` says so. -/
theorem snapshot_identity_iff {ok : AppState B F → Request F → Prop}
    (h : Reaches Start step ok s) {id : String} (hsave : (s.createSnapshot id).1.success = true)
    (hrun : Reaches (fun s' => s' = (s.createSnapshot id).2) step
      (fun _ i => Ordinary i = true) s')
    {resp : RestoreSnapshotResponse} (hrestore : (s'.restoreSnapshot id).1 = .ok resp)
    (hok : resp.success = true) :
    (∀ a i, (s'.restoreSnapshot id).2.market.getOrder a i = s.market.getOrder a i) ↔
      Recovers s.market s'.market := by
  have hg := createSnapshot_grounded (reaches_grounded h) id
  have hstored := run_snapshots hg hrun
  unfold restoreSnapshot at hrestore ⊢
  cases hl : s'.snapshots.lookup id with
  | none =>
    rw [hl] at hrestore
    cases hrestore
  | some stored =>
    rw [hl] at hrestore
    rw [hstored] at hl
    have hinfos := createSnapshot_lookup hl
    dsimp only at hrestore ⊢
    rw [hinfos] at hrestore ⊢
    rw [← Except.ok.inj hrestore] at hok
    exact restoreInfos_identity_iff (of_decide_eq_true hsave) (of_decide_eq_true hok)

end Identity

section Reference

/-- A book with one ask on a calendar date. -/
def datedAsk : AppState ReferenceBook ℚ := (bookOpened "19700131").step
  (.addOrder ⟨"BTC", "19700131", 10000, "call"⟩ ⟨.sell, 100, 5, none, none⟩)

def datedCall : OptionAddr := (bidItem "19700131").addr (.dateTime ⟨30, 57600⟩)

/-- An order placed on a book that was empty when the snapshot was taken stays. -/
theorem snapshot_keeps_order : ¬ ∀ s : AppState ReferenceBook ℚ,
    Reaches Start step (fun _ _ => True) s → ∀ id, (s.createSnapshot id).1.success = true →
      ∀ s', Reaches (fun s' => s' = (s.createSnapshot id).2) step
        (fun _ i => Ordinary i = true) s' → ∀ resp, (s'.restoreSnapshot id).1 = .ok resp →
          resp.success = true →
            ∀ a i, (s'.restoreSnapshot id).2.market.getOrder a i = s.market.getOrder a i := by
  intro h
  have hrun : Reaches (fun s' => s' = ((bookOpened "19700131").createSnapshot "s").2) step
      (fun _ i => Ordinary i = true) (((bookOpened "19700131").createSnapshot "s").2.step
        (.addOrder ⟨"BTC", "19700131", 10000, "call"⟩ ⟨.sell, 100, 5, none, none⟩)) :=
    .next (.start rfl) rfl
  have hresp : ((((bookOpened "19700131").createSnapshot "s").2.step
      (.addOrder ⟨"BTC", "19700131", 10000, "call"⟩ ⟨.sell, 100, 5, none, none⟩)
        ).restoreSnapshot "s").1 = .ok ⟨true, "s", 0, 0, 0, 0⟩ := by decide +kernel
  have hsame := h _ (bookOpened_reaches "19700131") "s" (by decide +kernel) _ hrun _ hresp rfl
    datedCall 0
  exact absurd hsame (by decide +kernel)

/-- Five asked on a calendar date, one of them bought after the snapshot: all five are back. -/
theorem snapshot_identity_date :
    ∃ s' : AppState ReferenceBook ℚ, s'.market.getOrder datedCall 0 =
        some ⟨0, .sell, 100, 4, .gtc⟩ ∧
      ∀ a i, (s'.restoreSnapshot "s").2.market.getOrder a i = datedAsk.market.getOrder a i := by
  have hp : parseExpiration "19700131" = .ok (.dateTime ⟨30, 57600⟩) := by decide +kernel
  have hreach : Reaches Start step (fun _ _ => True) datedAsk :=
    (bookOpened_reaches "19700131").next trivial
  have hbook : datedAsk.market.hasBook ((bidItem "19700131").addr (.dateTime ⟨30, 57600⟩)) =
      true := by decide +kernel
  have hanswer : (datedAsk.market.answer datedCall (bidItem "19700131")).1 =
      .ok ⟨[⟨0, 1, 0, 100, 1, 0⟩], 0, true⟩ := by decide +kernel
  obtain ⟨s', hs'⟩ : ∃ s', s' = ((datedAsk.createSnapshot "s").2.addOrder
      (bidItem "19700131").path (bidItem "19700131").body).2 := ⟨_, rfl⟩
  have hrun : Reaches (fun s' => s' = (datedAsk.createSnapshot "s").2) step
      (fun _ i => Ordinary i = true) s' := by
    have hrun : Reaches (fun s' => s' = (datedAsk.createSnapshot "s").2) step
        (fun _ i => Ordinary i = true) ((datedAsk.createSnapshot "s").2.step
          (.addOrder (bidItem "19700131").path (bidItem "19700131").body)) :=
      .next (.start rfl) rfl
    exact hs' ▸ hrun
  have hmarket : s'.market = (datedAsk.market.answer datedCall (bidItem "19700131")).2 := by
    rw [hs', addOrder_accepted (s := (datedAsk.createSnapshot "s").2) hp hbook hanswer,
      acceptLimit_market]
    rfl
  have hresp : (s'.restoreSnapshot "s").1 = .ok ⟨true, "s", 1, 1, 0, 0⟩ := by
    rw [hs']
    decide +kernel
  refine ⟨s', ?_, (snapshot_identity_iff hreach (by decide +kernel) hrun hresp rfl).mpr
    (.of_landing (by decide +kernel) fun a ha => ?_)⟩
  · rw [hs']
    decide +kernel
  · funext j
    have hne : a ≠ datedCall := by
      rintro rfl
      revert ha
      decide +kernel
    have hs := answer_accepted (reaches_grounded hreach).fresh hanswer
    rw [hmarket, hs.filled.getOrder, if_neg hne]
    rfl

end Reference
end AppState
end OptionChainBackend
