import OptionChainBackend.Feed.Subscribed
import OptionChainBackend.Api.Grounded

/-!
The laws of a connection's subscriptions: within the cap, repeatable, unmoved by what was refused,
undone one entry at a time, and rebuilt by the list. All but the last hold in every run; the last
holds exactly while every entry lists back as itself.
-/
namespace OptionChainBackend
open Foundation Upstream MarketMaker Auth

/-- A listed subscription as the entry of a batch. -/
def ActiveSubscription.resubmitted (a : ActiveSubscription) : ChannelSubscription :=
  ⟨a.channel, a.symbol, a.underlying⟩

namespace Connection
open Websocket
variable {c c' : Connection} {ch : SubscriptionChannel} {sub : ChannelSubscription}
  {set : Finset String} {e symbol : String} {P : String → Prop}

section Rebuilding

theorem activeEntry_channel (ch : SubscriptionChannel) (depth : Option ℕ) (e : String) :
    (activeEntry ch depth e).resubmitted.channel = ch := by
  unfold activeEntry
  split_ifs <;> rfl

/-- A listed entry asks for the entry it lists back as. -/
theorem activeEntry_entry (he : IsEntry e) (ch : SubscriptionChannel) (depth : Option ℕ) :
    (activeEntry ch depth e).resubmitted.entry = some (relisted e) := by
  unfold activeEntry relisted
  split_ifs with hm
  · rfl
  · have hparts : ¬ (symbolParts e).length < 4 := by
      rcases he with hp | ⟨u, rfl⟩
      · exact hp
      · exact absurd (marker_in_wildcard u) hm
    simp [ActiveSubscription.resubmitted, ChannelSubscription.entry, hparts]

/-- Of a batch, only the entries of a channel bear on its set. -/
theorem foldl_subscription_tracked (hk : ch.kept = true) (c : Connection)
    (subs : List ChannelSubscription) :
    (subs.foldl (fun c sub => (processChannelSubscription c sub).2) c).tracked ch =
      ((subs.filter (·.channel = ch)).filterMap ChannelSubscription.entry).foldl
        (enter maxSubscriptionsPerConnection) (c.tracked ch) := by
  induction subs generalizing c with
  | nil => rfl
  | cons sub subs ih =>
    rw [List.foldl_cons, ih, processChannelSubscription, processChannel_tracked]
    by_cases hch : sub.channel = ch
    · rw [if_pos ⟨hch.symm, hch ▸ hk⟩, subscribeEntry_snd, List.filter_cons_of_pos (by simp [hch])]
      cases he : sub.entry with
      | none => rw [List.filterMap_cons_none he]
      | some e => rw [List.filterMap_cons_some he, List.foldl_cons]
    · rw [if_neg fun h => hch h.1.symm, List.filter_cons_of_neg (by simp [hch])]

/-- A list answer, in any order, submitted on a fresh connection. -/
def rebuilt (active : List ActiveSubscription) : Connection :=
  fresh.handleBatchSubscribe none (some (active.map ActiveSubscription.resubmitted))

theorem rebuilt_tracked (active : List ActiveSubscription) (ch : SubscriptionChannel) :
    (rebuilt active).tracked ch =
      ((active.map ActiveSubscription.resubmitted).foldl
        (fun c sub => (processChannelSubscription c sub).2) fresh).tracked ch := by
  dsimp only [rebuilt, handleBatchSubscribe]
  rw [send_tracked, processAll_snd]

theorem entries_of_listed {es : List String} (hes : ∀ e ∈ es, IsEntry e)
    (ch ch' : SubscriptionChannel) (depth : Option ℕ) :
    (((es.map (activeEntry ch depth)).map ActiveSubscription.resubmitted).filter
      (·.channel = ch')).filterMap ChannelSubscription.entry =
        if ch = ch' then es.map relisted else [] := by
  induction es with
  | nil => simp
  | cons e es ih =>
    have hrest := ih fun e' he' => hes e' (List.mem_cons_of_mem e he')
    have hentry := activeEntry_entry (hes e List.mem_cons_self) ch depth
    rw [List.map_cons, List.map_cons]
    by_cases hch : ch = ch'
    · have hkeep : ((activeEntry ch depth e).resubmitted.channel = ch') := by
        rw [activeEntry_channel, hch]
      rw [List.filter_cons_of_pos (by simpa using hkeep), List.filterMap_cons_some hentry, hrest]
      simp [hch]
    · have hdrop : ¬ ((activeEntry ch depth e).resubmitted.channel = ch') := by
        rwa [activeEntry_channel]
      rw [List.filter_cons_of_neg (by simpa using hdrop), hrest]
      simp [hch]

theorem listed_entries (hc : Holds IsEntry c) (hk : ch.kept = true) :
    ((c.listed.map ActiveSubscription.resubmitted).filter (·.channel = ch)).filterMap
      ChannelSubscription.entry = ((c.tracked ch).sort (· ≤ ·)).map relisted := by
  have hsort : ∀ ch', ∀ e ∈ (c.tracked ch').sort (· ≤ ·), IsEntry e :=
    fun ch' e he => (hc ch').2 e ((Finset.mem_sort _).mp he)
  have hsymbols := entries_of_listed (hsort .orderbook) .orderbook ch (some 10)
  have htrades := entries_of_listed (hsort .trades) .trades ch none
  rw [listed, List.map_append, List.filter_append, List.filterMap_append]
  dsimp only [tracked] at hsymbols htrades ⊢
  rw [hsymbols, htrades]
  cases ch <;> simp [SubscriptionChannel.kept] at hk ⊢

/-- The list, in whatever order it came, makes each entry the one it lists back as. -/
theorem rebuilt_eq (hc : Holds IsEntry c) {active : List ActiveSubscription}
    (hp : active.Perm c.listed) (ch : SubscriptionChannel) :
    (rebuilt active).tracked ch = (c.tracked ch).image relisted := by
  cases hk : ch.kept with
  | false => simp [tracked_of_not_kept hk]
  | true =>
    have hperm := ((hp.map ActiveSubscription.resubmitted).filter (·.channel = ch)).filterMap
      ChannelSubscription.entry
    rw [listed_entries hc hk] at hperm
    have hset : (((active.map ActiveSubscription.resubmitted).filter (·.channel = ch)).filterMap
        ChannelSubscription.entry).toFinset = (c.tracked ch).image relisted := by
      rw [List.toFinset_eq_of_perm _ _ hperm]
      ext e
      simp
    have hcard : ((c.tracked ch).image relisted).card ≤ maxSubscriptionsPerConnection :=
      Finset.card_image_le.trans (hc ch).1
    have hfresh : fresh.tracked ch = ∅ := by cases ch <;> rfl
    rw [rebuilt_tracked, foldl_subscription_tracked hk, foldl_enter] <;> rw [hfresh, hset]
    · simp
    · simpa using hcard

end Rebuilding

section Laws
variable {B F : Type} [Upstream B] [Leveled B] [F64 F] {display : F → String}
  {permissions : List Permission}

/-- What a client may rely on, from connection `c` on. -/
structure Laws (B : Type) {F : Type} [Upstream B] [Leveled B] [F64 F] (display : F → String)
    (permissions : List Permission) (c : Connection) : Prop where
  bounded : ∀ ch, (c.tracked ch).card ≤ maxSubscriptionsPerConnection
  again : ∀ (s : AppState B F) cmd ch symbol, cmd.action = "subscribe" →
    cmd.channel = some (SubscriptionChannel.name ch) → cmd.symbol = some symbol →
    ¬ (symbolParts symbol).length < 4 → symbol ∈ c.tracked ch →
    ∃ rest, (obey display permissions s cmd c).sent = c.sent ++ .subscribed ch.name symbol :: rest
  againInBatch : ∀ sub e, ChannelSubscription.entry sub = some e → e ∈ c.tracked sub.channel →
    (processChannelSubscription c sub).1.status = "ok"
  refused : ∀ (s : AppState B F) cmd message,
    (obey display permissions s cmd c).sent = c.sent ++ [.error message] →
    (obey display permissions s cmd c).tracked = c.tracked
  malformed : ∀ (s : AppState B F) cmd, cmd.action = "subscribe" →
    (∀ symbol, cmd.symbol = some symbol → (symbolParts symbol).length < 4) →
    (obey display permissions s cmd c).tracked = c.tracked
  malformedInBatch : ∀ sub, ChannelSubscription.entry sub = none →
    (processChannelSubscription c sub).2.tracked = c.tracked
  refusedInBatch : ∀ sub, (processChannelSubscription c sub).1.status ≠ "ok" →
    (processChannelSubscription c sub).2.tracked = c.tracked
  undone : ∀ (s : AppState B F) cmd, cmd.action = "unsubscribe" →
    ∀ ch, (obey display permissions s cmd c).tracked ch ⊆ c.tracked ch ∧
      ∀ e ∈ c.tracked ch, e ∉ (obey display permissions s cmd c).tracked ch →
        cmd.channel = some ch.name ∧ cmd.symbol = some e
  undoneInBatch : ∀ sub ch, (processChannelUnsubscription c sub).2.tracked ch ⊆ c.tracked ch ∧
    ∀ e ∈ c.tracked ch, e ∉ (processChannelUnsubscription c sub).2.tracked ch →
      sub.channel = ch ∧ sub.target = some e
  rebuilds : ∀ listed active, c.handleListSubscriptions.sent = c.sent ++ [.subscriptionList listed] →
    active.Perm listed → (rebuilt active).tracked = c.tracked

theorem canAddSubscription_of_mem (h : e ∈ set) : canAddSubscription set e = true := by
  simp [canAddSubscription, h]

theorem kept_of_mem (h : e ∈ c.tracked ch) : ch.kept = true := by
  cases hk : ch.kept with
  | true => rfl
  | false =>
    rw [tracked_of_not_kept hk] at h
    cases h

theorem obey_again (s : AppState B F) {cmd : ClientCommand F} (ha : cmd.action = "subscribe")
    (hch : cmd.channel = some ch.name) (hs : cmd.symbol = some symbol)
    (hp : ¬ (symbolParts symbol).length < 4) (hmem : symbol ∈ c.tracked ch) :
    ∃ rest, (obey display permissions s cmd c).sent =
      c.sent ++ .subscribed ch.name symbol :: rest := by
  have hsub : Subscribing c ch cmd.symbol (obey display permissions s cmd c) := by
    have heq : obey display permissions s cmd c = (runSubscribe s c cmd).2 := by
      simp [obey, handleCommand, ha]
    rw [heq]
    unfold runSubscribe
    rw [hch]
    cases ch with
    | orderbook => exact orderbookSubscribe_cases _ _ _ _ _
    | trades => exact tradesSubscribe_cases _ _
    | quotes => cases hmem
    | prices => cases hmem
    | fills => cases hmem
  generalize obey display permissions s cmd c = c' at hsub
  cases hsub with
  | @accepted _ e rest hs' _ _ _ hsent =>
    obtain rfl : symbol = e := Option.some.inj (hs.symm.trans hs')
    exact ⟨rest, hsent⟩
  | refused hno =>
    have hfull := hno symbol hs hp
    rw [canAddSubscription_of_mem hmem] at hfull
    cases hfull

theorem subscription_again (he : sub.entry = some e) (hmem : e ∈ c.tracked sub.channel) :
    (processChannelSubscription c sub).1.status = "ok" := by
  rw [processChannelSubscription, processChannel_status, if_pos (kept_of_mem hmem)]
  rcases subscribeEntry_cases (c.tracked sub.channel) sub with ⟨-, -, -, hok, -⟩ | ⟨hno, -, -⟩
  · exact hok
  · have hfull := hno e he
    rw [canAddSubscription_of_mem hmem] at hfull
    cases hfull

/-- An entry of a batch that is not taken in leaves every set as it was. -/
theorem subscription_tracked (h : (subscribeEntry (c.tracked sub.channel) sub).2 =
    c.tracked sub.channel) : (processChannelSubscription c sub).2.tracked = c.tracked := by
  funext ch
  rw [processChannelSubscription, processChannel_tracked]
  split_ifs with hch
  · rw [hch.1]
    exact h
  · rfl

theorem subscription_refused (h : (processChannelSubscription c sub).1.status ≠ "ok") :
    (processChannelSubscription c sub).2.tracked = c.tracked := by
  rw [processChannelSubscription, processChannel_status] at h
  split_ifs at h with hk
  · rcases subscribeEntry_cases (c.tracked sub.channel) sub with ⟨-, -, -, hok, -⟩ | ⟨-, -, hsame⟩
    · exact absurd hok h
    · exact subscription_tracked hsame
  · exact absurd rfl h

theorem subscription_malformed (h : sub.entry = none) :
    (processChannelSubscription c sub).2.tracked = c.tracked := by
  apply subscription_tracked
  rw [subscribeEntry_snd, h]

theorem obey_malformed (s : AppState B F) {cmd : ClientCommand F} (ha : cmd.action = "subscribe")
    (hs : ∀ symbol, cmd.symbol = some symbol → (symbolParts symbol).length < 4) :
    (obey display permissions s cmd c).tracked = c.tracked := by
  have hcases := obey_cases display permissions s cmd c
  generalize obey display permissions s cmd c = c' at hcases
  cases hcases with
  | subscribe _ _ _ h =>
    cases h with
    | accepted _ hs' hp _ _ _ => exact absurd (hs _ hs') hp
    | refused _ => exact send_tracked _ _
  | unsubscribe ha' => exact absurd (ha.symm.trans ha') (by decide)
  | batchSubscribe ha' => exact absurd (ha.symm.trans ha') (by decide)
  | batchUnsubscribe ha' => exact absurd (ha.symm.trans ha') (by decide)
  | answered m => exact send_tracked _ _
  | ignored => rfl

theorem obey_undone (s : AppState B F) {cmd : ClientCommand F} (ha : cmd.action = "unsubscribe")
    (ch : SubscriptionChannel) : (obey display permissions s cmd c).tracked ch ⊆ c.tracked ch ∧
      ∀ e ∈ c.tracked ch, e ∉ (obey display permissions s cmd c).tracked ch →
        cmd.channel = some ch.name ∧ cmd.symbol = some e := by
  have hsame : ∀ {c' : Connection}, c'.tracked = c.tracked → c'.tracked ch ⊆ c.tracked ch ∧
      ∀ e ∈ c.tracked ch, e ∉ c'.tracked ch → cmd.channel = some ch.name ∧ cmd.symbol = some e := by
    intro c' h
    rw [h]
    exact ⟨Finset.Subset.refl _, fun e he hno => absurd he hno⟩
  have hcases := obey_cases display permissions s cmd c
  generalize obey display permissions s cmd c = c' at hcases
  cases hcases with
  | subscribe ha' => exact absurd (ha.symm.trans ha') (by decide)
  | @unsubscribe ch' _ _ hch _ h =>
    cases h with
    | @confirmed _ e hs ht _ =>
      rw [ht]
      by_cases hne : ch = ch'
      · subst hne
        rw [Function.update_self]
        refine ⟨Finset.erase_subset _ _, fun e' he' hno => ⟨hch, ?_⟩⟩
        have heq : e' = e := by
          by_contra hdiff
          exact hno (Finset.mem_erase.mpr ⟨hdiff, he'⟩)
        rw [heq]
        exact hs
      · rw [Function.update_of_ne hne]
        exact ⟨Finset.Subset.refl _, fun e he hno => absurd he hno⟩
    | refused _ => exact hsame (send_tracked _ _)
  | batchSubscribe ha' => exact absurd (ha.symm.trans ha') (by decide)
  | batchUnsubscribe ha' => exact absurd (ha.symm.trans ha') (by decide)
  | answered m => exact hsame (send_tracked _ _)
  | ignored => exact hsame rfl

theorem unsubscription_undone (c : Connection) (sub : ChannelSubscription)
    (ch : SubscriptionChannel) :
    (processChannelUnsubscription c sub).2.tracked ch ⊆ c.tracked ch ∧
      ∀ e ∈ c.tracked ch, e ∉ (processChannelUnsubscription c sub).2.tracked ch →
        sub.channel = ch ∧ sub.target = some e := by
  rw [processChannelUnsubscription, processChannel_tracked]
  split_ifs with hch
  · rw [unsubscribeEntry_snd]
    cases ht : sub.target with
    | none => exact ⟨Finset.Subset.refl _, fun e he hno => absurd he hno⟩
    | some e =>
      refine ⟨Finset.erase_subset _ _, fun e' he' hno => ⟨hch.1.symm, ?_⟩⟩
      by_contra hdiff
      exact hno (Finset.mem_erase.mpr ⟨fun heq => hdiff (congrArg some heq.symm), he'⟩)
  · exact ⟨Finset.Subset.refl _, fun e he hno => absurd he hno⟩

/-- The list rebuilds the sets exactly when every entry lists back as itself. -/
theorem rebuilds_iff (hc : Holds IsEntry c) :
    (∀ listed active, c.handleListSubscriptions.sent = c.sent ++ [.subscriptionList listed] →
      active.Perm listed → (rebuilt active).tracked = c.tracked) ↔
      ∀ ch, ∀ e ∈ c.tracked ch, ListsBack e := by
  have hsent : c.handleListSubscriptions.sent = c.sent ++ [.subscriptionList c.listed] := rfl
  simp only [← relisted_eq_self_iff, ← image_eq_self_iff relisted_relisted]
  constructor
  · intro h ch
    rw [← rebuilt_eq hc (.refl _) ch, h _ _ hsent (.refl _)]
  · intro h listed active hl hp
    have heq : c.listed = listed := by
      simpa using hsent.symm.trans hl
    funext ch
    rw [rebuilt_eq hc (heq ▸ hp) ch, h ch]

theorem laws_of_holds (hc : Holds IsEntry c) :
    Laws B display permissions c ↔ ∀ ch, ∀ e ∈ c.tracked ch, ListsBack e := by
  constructor
  · exact fun h => (rebuilds_iff hc).mp h.rebuilds
  · intro h
    refine
      { bounded := fun ch => (hc ch).1
        again := fun s cmd ch symbol => obey_again s
        againInBatch := fun sub e => subscription_again
        refused := fun s cmd message => (obey_cases display permissions s cmd c).error
        malformed := fun s cmd => obey_malformed s
        malformedInBatch := fun sub => subscription_malformed
        refusedInBatch := fun sub => subscription_refused
        undone := fun s cmd => obey_undone s
        undoneInBatch := unsubscription_undone c
        rebuilds := (rebuilds_iff hc).mpr h }

/-- Along every run the laws hold exactly while every entry lists back as itself; they hold
throughout a run that asks for no other entry. -/
theorem laws_iff (display : F → String) (permissions : List Permission) :
    (∀ c, Reaches (· = fresh) (turn (B := B) display permissions) (fun _ _ => True) c →
      (Laws B display permissions c ↔ ∀ ch, ∀ e ∈ c.tracked ch, ListsBack e)) ∧
    ∀ c, Reaches (· = fresh) (turn (B := B) display permissions)
        (fun _ i => ∀ e ∈ i.requested, ListsBack e) c → Laws B display permissions c := by
  constructor
  · intro c h
    apply laws_of_holds
    apply h.invariant
    · rintro _ rfl
      exact fresh_holds _
    · exact fun c i hc _ => hc.turn fun e he => Turn.isEntry he
  · intro c h
    have hc : Holds (fun e => IsEntry e ∧ ListsBack e) c := by
      apply h.invariant
      · rintro _ rfl
        exact fresh_holds _
      · exact fun c i hc hi => hc.turn fun e he => ⟨Turn.isEntry he, hi e he⟩
    rw [laws_of_holds fun ch => ⟨(hc ch).1, fun e he => ((hc ch).2 e he).1⟩]
    exact fun ch e he => ((hc ch).2 e he).2

end Laws

section Listing
open AppState

/-- A client subscribes to order books in one batch, each by symbol or by underlying. -/
def batchOf (subs : List ChannelSubscription) : Turn ReferenceBook ℚ :=
  .command reference ⟨"batch_subscribe", none, none, none, none, none, some subs⟩

def subscribedTo (subs : List ChannelSubscription) : Connection :=
  turn (fun _ : ℚ => "") [] fresh (batchOf subs)

theorem laws_plain : Laws ReferenceBook (fun _ : ℚ => "") [] (subscribedTo
    [⟨.orderbook, some "BTC-20240628-10000-C", none⟩, ⟨.trades, none, some "BTC"⟩]) := by
  have hrequested : (batchOf [⟨.orderbook, some "BTC-20240628-10000-C", none⟩,
      ⟨.trades, none, some "BTC"⟩]).requested = ["BTC-20240628-10000-C", "BTC:*"] := by
    decide +kernel
  have hstart : Reaches (· = fresh) (turn (B := ReferenceBook) (fun _ : ℚ => "") [])
      (fun _ i => ∀ e ∈ i.requested, ListsBack e) fresh := .start rfl
  apply (laws_iff _ _).2 _ (hstart.next (i := batchOf _) _)
  intro e he
  rw [hrequested] at he
  rw [← relisted_eq_self_iff]
  revert e
  decide +kernel

/-- The wildcard of an underlying named like a wildcard is listed, and rebuilt, as another's. -/
theorem wildcard_listed_as_other : ¬ ∀ c,
    Reaches (· = fresh) (turn (B := ReferenceBook) (fun _ : ℚ => "") []) (fun _ _ => True) c →
      Laws ReferenceBook (fun _ : ℚ => "") [] c := by
  intro h
  have hstart : Reaches (· = fresh) (turn (B := ReferenceBook) (fun _ : ℚ => "") [])
      (fun _ _ => True) fresh := .start rfl
  have hreach := hstart.next (i := batchOf [⟨.orderbook, none, some "BTC:*"⟩]) trivial
  have hrebuilt := (h _ hreach).rebuilds _ _ rfl (.refl _)
  have hlost : (rebuilt (subscribedTo [⟨.orderbook, none, some "BTC:*"⟩]).listed).tracked
      .orderbook = {"BTC:*"} := by decide +kernel
  have hkept : (subscribedTo [⟨.orderbook, none, some "BTC:*"⟩]).tracked .orderbook =
      {"BTC:*:*"} := by decide +kernel
  have heq := hlost.symm.trans ((congrFun hrebuilt .orderbook).trans hkept)
  exact absurd heq (by decide +kernel)

end Listing

end Connection
end OptionChainBackend
