import OptionChainBackend.Feed.Commands
import OptionChainBackend.Foundation.Capped
import OptionChainBackend.Foundation.Runs

/-!
What a client has subscribed to, along its commands. Symbols and wildcards share one set of texts,
and a listed text is read as a wildcard by the marker in it; an entry that lists back as another
one is the only way the list fails to rebuild the sets.
-/
namespace OptionChainBackend
open Foundation Upstream MarketMaker Auth

section Marker

/-- `trim_end_matches(":*")`. -/
def trimmed (entry : String) : String :=
  String.ofList (Connection.trimWildcards entry.toList.reverse).reverse

/-- The entry has the wildcard marker nowhere, or just once at its end. -/
def ListsBack (entry : String) : Prop :=
  ":*".toList <:+: entry.toList → ∃ u, entry = Websocket.wildcard u ∧ ¬ ":*".toList <:+ u.toList

/-- The entry an entry comes back as when it is listed and subscribed to again. -/
def relisted (entry : String) : String :=
  if ":*".toList <:+: entry.toList then Websocket.wildcard (trimmed entry) else entry

theorem trimWildcards_not_prefix (cs : List Char) :
    ¬ ['*', ':'] <+: Connection.trimWildcards cs := by
  induction cs using Connection.trimWildcards.induct with
  | case1 cs ih => simpa [Connection.trimWildcards] using ih
  | case2 cs h =>
    rintro ⟨rest, hrest⟩
    rw [Connection.trimWildcards.eq_2 cs h] at hrest
    exact h rest hrest.symm

theorem trimWildcards_of_not_prefix {cs : List Char} (h : ¬ ['*', ':'] <+: cs) :
    Connection.trimWildcards cs = cs := by
  apply Connection.trimWildcards.eq_2
  rintro rest rfl
  exact h ⟨rest, rfl⟩

theorem marker_suffix_iff {s : String} :
    ":*".toList <:+ s.toList ↔ ['*', ':'] <+: s.toList.reverse := by
  have hrev : ['*', ':'] = ":*".toList.reverse := rfl
  rw [hrev, List.reverse_prefix]

theorem trimmed_not_suffix (entry : String) : ¬ ":*".toList <:+ (trimmed entry).toList := by
  rw [marker_suffix_iff]
  simpa [trimmed] using trimWildcards_not_prefix entry.toList.reverse

theorem trimmed_of_not_suffix {s : String} (h : ¬ ":*".toList <:+ s.toList) : trimmed s = s := by
  have hp : ¬ ['*', ':'] <+: s.toList.reverse := fun hp => h (marker_suffix_iff.mpr hp)
  simp [trimmed, trimWildcards_of_not_prefix hp]

theorem trimmed_wildcard (u : String) : trimmed (Websocket.wildcard u) = trimmed u := by
  simp [trimmed, Websocket.wildcard, Connection.trimWildcards]

theorem marker_in_wildcard (u : String) : ":*".toList <:+: (Websocket.wildcard u).toList := by
  refine ⟨u.toList, [], ?_⟩
  simp [Websocket.wildcard]

theorem relisted_wildcard (u : String) :
    relisted (Websocket.wildcard u) = Websocket.wildcard (trimmed u) := by
  rw [relisted, if_pos (marker_in_wildcard u), trimmed_wildcard]

theorem relisted_relisted (entry : String) : relisted (relisted entry) = relisted entry := by
  by_cases h : ":*".toList <:+: entry.toList
  · have hone : relisted entry = Websocket.wildcard (trimmed entry) := if_pos h
    rw [hone, relisted_wildcard, trimmed_of_not_suffix (trimmed_not_suffix entry)]
  · have hone : relisted entry = entry := if_neg h
    simp [hone]

theorem relisted_eq_self_iff {entry : String} : relisted entry = entry ↔ ListsBack entry := by
  constructor
  · intro h hm
    refine ⟨trimmed entry, ?_, trimmed_not_suffix entry⟩
    rw [relisted, if_pos hm] at h
    exact h.symm
  · intro h
    by_cases hm : ":*".toList <:+: entry.toList
    · obtain ⟨u, rfl, hu⟩ := h hm
      rw [relisted_wildcard, trimmed_of_not_suffix hu]
    · exact if_neg hm

end Marker

namespace ChannelSubscription
open Websocket

/-- The entry a well-formed subscription names. -/
def entry (sub : ChannelSubscription) : Option String :=
  match sub.symbol, sub.underlying with
  | some symbol, _ => if (symbolParts symbol).length < 4 then none else some symbol
  | none, some underlying => some (wildcard underlying)
  | none, none => none

/-- The entry an unsubscription names; a symbol is not looked at. -/
def target (sub : ChannelSubscription) : Option String :=
  match sub.symbol, sub.underlying with
  | some symbol, _ => some symbol
  | none, some underlying => some (wildcard underlying)
  | none, none => none

end ChannelSubscription

/-- A text the subscribe commands take in: a symbol of four parts, or a wildcard. -/
def IsEntry (e : String) : Prop := ¬ (symbolParts e).length < 4 ∨ ∃ u, e = Websocket.wildcard u

namespace SubscriptionChannel

def name : SubscriptionChannel → String
  | .orderbook => "orderbook"
  | .trades => "trades"
  | .quotes => "quotes"
  | .prices => "prices"
  | .fills => "fills"

/-- The channels with a set of their own. -/
def kept : SubscriptionChannel → Bool
  | .orderbook | .trades => true
  | _ => false

end SubscriptionChannel

namespace Connection
open Websocket
variable {c c' : Connection} {ch : SubscriptionChannel} {sub : ChannelSubscription}
  {set : Finset String} {e symbol : String} {P : String → Prop}

/-- A client that has just connected. -/
def fresh : Connection := ⟨∅, ∅, []⟩

/-- The set of a channel; three of the channels have none. -/
def tracked (c : Connection) : SubscriptionChannel → Finset String
  | .orderbook => c.subscribedSymbols
  | .trades => c.subscribedTrades
  | _ => ∅

theorem canAddSubscription_enter :
    (if canAddSubscription set e then insert e set else set) =
      enter maxSubscriptionsPerConnection set e := by
  simp [enter, canAddSubscription]

/-- A subscription changes its set only by the entry it names, and is refused exactly when the
entry is new and the set is full, or when it names none. -/
theorem subscribeEntry_cases (set : Finset String) (sub : ChannelSubscription) :
    (∃ e, sub.entry = some e ∧ canAddSubscription set e = true ∧
      (subscribeEntry set sub).1.status = "ok" ∧ (subscribeEntry set sub).2 = insert e set) ∨
    (∀ e, sub.entry = some e → canAddSubscription set e = false) ∧
      (subscribeEntry set sub).1.status ≠ "ok" ∧ (subscribeEntry set sub).2 = set := by
  unfold subscribeEntry ChannelSubscription.entry
  cases hs : sub.symbol with
  | some symbol =>
    by_cases hparts : (symbolParts symbol).length < 4
    · right
      simp [hparts]
    · cases hadd : canAddSubscription set symbol with
      | true =>
        left
        exact ⟨symbol, by simp [hparts], hadd, by simp [hparts, hadd], by simp [hparts, hadd]⟩
      | false =>
        right
        simp [hparts, hadd]
  | none =>
    cases hu : sub.underlying with
    | some u =>
      cases hadd : canAddSubscription set (wildcard u) with
      | true =>
        left
        exact ⟨wildcard u, rfl, hadd, by simp [hadd], by simp [hadd]⟩
      | false =>
        right
        simp [hadd]
    | none =>
      right
      simp

theorem subscribeEntry_snd (set : Finset String) (sub : ChannelSubscription) :
    (subscribeEntry set sub).2 = match sub.entry with
      | some e => enter maxSubscriptionsPerConnection set e
      | none => set := by
  rcases subscribeEntry_cases set sub with ⟨e, he, hadd, -, hset⟩ | ⟨hno, -, hset⟩
  · simp [he, hset, ← canAddSubscription_enter, hadd]
  · cases he : sub.entry with
    | none => simpa using hset
    | some e => simp [hset, ← canAddSubscription_enter, hno e he]

theorem unsubscribeEntry_snd (set : Finset String) (sub : ChannelSubscription) :
    (unsubscribeEntry set sub).2 = match sub.target with
      | some e => set.erase e
      | none => set := by
  unfold unsubscribeEntry ChannelSubscription.target
  cases sub.symbol with
  | some symbol => rfl
  | none => cases sub.underlying <;> rfl

/-- The set a channel keeps is the one its entries go to. -/
theorem processChannel_tracked
    (f : Finset String → ChannelSubscription → SubscriptionResult × Finset String)
    (c : Connection) (sub : ChannelSubscription) (ch : SubscriptionChannel) :
    (processChannel f c sub).2.tracked ch =
      if ch = sub.channel ∧ sub.channel.kept then (f (c.tracked ch) sub).2 else c.tracked ch := by
  unfold processChannel
  cases hch : sub.channel <;> cases ch <;> simp [tracked, SubscriptionChannel.kept]

theorem processChannel_status
    (f : Finset String → ChannelSubscription → SubscriptionResult × Finset String)
    (c : Connection) (sub : ChannelSubscription) : (processChannel f c sub).1.status =
      if sub.channel.kept then (f (c.tracked sub.channel) sub).1.status else "ok" := by
  unfold processChannel
  cases hch : sub.channel <;> simp [tracked, SubscriptionChannel.kept]

theorem tracked_of_not_kept (h : ch.kept = false) : c.tracked ch = ∅ := by
  cases ch <;> first | rfl | simp [SubscriptionChannel.kept] at h

section Moves

/-- Each set is as it was, or has taken in an entry with `P`, or has lost an entry. -/
def Moves (P : String → Prop) (c c' : Connection) : Prop :=
  ∀ ch, c'.tracked ch = c.tracked ch ∨
    (∃ e, P e ∧ c'.tracked ch = enter maxSubscriptionsPerConnection (c.tracked ch) e) ∨
    ∃ e, c'.tracked ch = (c.tracked ch).erase e

/-- The sets are within the cap, and all their entries have `P`. -/
def Holds (P : String → Prop) (c : Connection) : Prop :=
  ∀ ch, (c.tracked ch).card ≤ maxSubscriptionsPerConnection ∧ ∀ e ∈ c.tracked ch, P e

theorem Moves.of_tracked (h : c'.tracked = c.tracked) : Moves P c c' :=
  fun ch => .inl (congrFun h ch)

theorem Holds.moves (h : Holds P c) (hm : Moves P c c') : Holds P c' := by
  intro ch
  obtain ⟨hcard, hall⟩ := h ch
  rcases hm ch with he | ⟨e, hp, he⟩ | ⟨e, he⟩
  · rw [he]
    exact ⟨hcard, hall⟩
  · rw [he]
    refine ⟨card_enter hcard, fun e' he' => ?_⟩
    rcases mem_enter he' with rfl | hmem
    · exact hp
    · exact hall e' hmem
  · rw [he]
    refine ⟨(Finset.card_erase_le).trans hcard, fun e' he' => ?_⟩
    exact hall e' (Finset.mem_of_mem_erase he')

theorem subscription_moves (hP : ∀ e, sub.entry = some e → P e) (c : Connection) :
    Moves P c (processChannelSubscription c sub).2 := by
  intro ch
  rw [processChannelSubscription, processChannel_tracked]
  split_ifs
  · rw [subscribeEntry_snd]
    cases he : sub.entry with
    | none => exact .inl rfl
    | some e => exact .inr (.inl ⟨e, hP e he, rfl⟩)
  · exact .inl rfl

theorem unsubscription_moves (P : String → Prop) (c : Connection) (sub : ChannelSubscription) :
    Moves P c (processChannelUnsubscription c sub).2 := by
  intro ch
  rw [processChannelUnsubscription, processChannel_tracked]
  split_ifs
  · rw [unsubscribeEntry_snd]
    cases sub.target with
    | none => exact .inl rfl
    | some e => exact .inr (.inr ⟨e, rfl⟩)
  · exact .inl rfl

/-- A batch answers for each of its entries, and its last entry leaves the sets. -/
theorem processAll_snd
    (f : Connection → ChannelSubscription → SubscriptionResult × Connection) (c : Connection)
    (subs : List ChannelSubscription) :
    (processAll f c subs).2 = subs.foldl (fun c sub => (f c sub).2) c := by
  have hgen : ∀ (rs : List SubscriptionResult) (c : Connection),
      (subs.foldl (fun acc sub => (acc.1 ++ [(f acc.2 sub).1], (f acc.2 sub).2)) (rs, c)).2 =
        subs.foldl (fun c sub => (f c sub).2) c := by
    induction subs with
    | nil => simp
    | cons sub subs ih =>
      intro rs c
      exact ih _ _
  exact hgen [] c

theorem Holds.foldl {f : Connection → ChannelSubscription → Connection}
    {subs : List ChannelSubscription} (h : Holds P c)
    (hf : ∀ sub ∈ subs, ∀ c, Moves P c (f c sub)) : Holds P (subs.foldl f c) := by
  induction subs generalizing c with
  | nil => exact h
  | cons sub subs ih =>
    apply ih
    · exact h.moves (hf sub List.mem_cons_self c)
    · exact fun sub' hmem => hf sub' (List.mem_cons_of_mem sub hmem)

end Moves

@[simp] theorem send_tracked (c : Connection) (m : WsMessage) : (c.send m).tracked = c.tracked := by
  funext ch
  cases ch <;> rfl

@[simp] theorem send_sent (c : Connection) (m : WsMessage) : (c.send m).sent = c.sent ++ [m] := rfl

section Single

/-- What a single subscription to a channel does: it is confirmed and tracked, or answered by an
error, which needs a symbol that is missing, short of parts, or new to a full set. -/
inductive Subscribing (c : Connection) (ch : SubscriptionChannel) (symbol : Option String) :
    Connection → Prop
  | accepted {c' : Connection} {e : String} (rest : List WsMessage) (hs : symbol = some e)
      (hp : ¬ (symbolParts e).length < 4) (ha : canAddSubscription (c.tracked ch) e = true)
      (ht : c'.tracked = Function.update c.tracked ch (insert e (c.tracked ch)))
      (hsent : c'.sent = c.sent ++ .subscribed ch.name e :: rest) : Subscribing c ch symbol c'
  | refused {message : String} (hno : ∀ e, symbol = some e → ¬ (symbolParts e).length < 4 →
      canAddSubscription (c.tracked ch) e = false) : Subscribing c ch symbol (c.send (.error message))

inductive Unsubscribing (c : Connection) (ch : SubscriptionChannel) (symbol : Option String) :
    Connection → Prop
  | confirmed {c' : Connection} {e : String} (hs : symbol = some e)
      (ht : c'.tracked = Function.update c.tracked ch ((c.tracked ch).erase e))
      (hsent : c'.sent = c.sent ++ [.unsubscribed ch.name e]) : Unsubscribing c ch symbol c'
  | refused {message : String} (hno : symbol = none) :
      Unsubscribing c ch symbol (c.send (.error message))

theorem checkSubscription_cases (channel : String) (set : Finset String) (symbol : Option String) :
    (∃ e, symbol = some e ∧ ¬ (symbolParts e).length < 4 ∧ canAddSubscription set e = true ∧
      checkSubscription channel set symbol = .ok e) ∨
    ∃ message, checkSubscription channel set symbol = .error message ∧
      ∀ e, symbol = some e → ¬ (symbolParts e).length < 4 → canAddSubscription set e = false := by
  cases symbol with
  | none => exact .inr ⟨_, rfl, nofun⟩
  | some e =>
    unfold checkSubscription
    by_cases hp : (symbolParts e).length < 4
    · right
      exact ⟨_, if_pos hp, fun e' he' hlong => absurd (Option.some.inj he' ▸ hp) hlong⟩
    · cases ha : canAddSubscription set e with
      | true =>
        left
        exact ⟨e, rfl, hp, ha, by simp [hp, ha]⟩
      | false =>
        right
        exact ⟨_, by simp [hp, ha]; rfl, fun e' he' _ => Option.some.inj he' ▸ ha⟩

theorem insertSymbol_tracked (c : Connection) (e : String) (sent : List WsMessage) :
    tracked ⟨insert e c.subscribedSymbols, c.subscribedTrades, sent⟩ =
      Function.update c.tracked .orderbook (insert e (c.tracked .orderbook)) := by
  funext ch
  cases ch <;> rfl

theorem insertTrade_tracked (c : Connection) (e : String) (sent : List WsMessage) :
    tracked ⟨c.subscribedSymbols, insert e c.subscribedTrades, sent⟩ =
      Function.update c.tracked .trades (insert e (c.tracked .trades)) := by
  funext ch
  cases ch <;> rfl

theorem tradesSubscribe_cases (c : Connection) (symbol : Option String) :
    Subscribing c .trades symbol (c.handleTradesSubscribe symbol) := by
  unfold handleTradesSubscribe
  rcases checkSubscription_cases "trades" c.subscribedTrades symbol with
    ⟨e, hs, hp, ha, he⟩ | ⟨message, he, hno⟩
  · rw [he]
    exact .accepted [] hs hp ha (insertTrade_tracked c e _) rfl
  · rw [he]
    exact .refused hno

theorem unsubscribe_cases (c : Connection) (symbol : Option String) :
    Unsubscribing c .orderbook symbol (c.handleOrderbookUnsubscribe symbol) ∧
      Unsubscribing c .trades symbol (c.handleTradesUnsubscribe symbol) := by
  cases symbol with
  | none => exact ⟨.refused rfl, .refused rfl⟩
  | some e =>
    constructor
    · refine .confirmed rfl ?_ rfl
      funext ch
      cases ch <;> rfl
    · refine .confirmed rfl ?_ rfl
      funext ch
      cases ch <;> rfl

theorem orderbookSubscribe_cases {B : Type} [Upstream B] [Leveled B] (x : Exchange B)
    (f : Subscriptions) (c : Connection) (symbol : Option String) (depth : Option ℕ) :
    Subscribing c .orderbook symbol (handleOrderbookSubscribe x f c symbol depth).1 := by
  unfold handleOrderbookSubscribe
  rcases checkSubscription_cases "orderbook" c.subscribedSymbols symbol with
    ⟨e, hs, hp, ha, he⟩ | ⟨message, he, hno⟩
  · rw [he]
    dsimp only
    split
    · rename_i m f' hreply
      refine .accepted [m] hs hp ha (insertSymbol_tracked c e _) ?_
      exact List.append_assoc _ _ _
    · exact .accepted [] hs hp ha (insertSymbol_tracked c e _) rfl
  · rw [he]
    exact .refused hno

end Single

section Commands
variable {B F : Type} [Upstream B] [Leveled B] [F64 F] {display : F → String}
  {permissions : List Permission} {s : AppState B F} {cmd : ClientCommand F}

/-- What a command leaves of its connection, whatever the process is in. -/
def obey (display : F → String) (permissions : List Permission) (s : AppState B F)
    (cmd : ClientCommand F) (c : Connection) : Connection :=
  (handleCommand display permissions s c cmd).2

omit [Leveled B] in
theorem setControl_cases (check : F → Except String F) (op : F → Operation F) (c : Connection)
    (value : Option F) : (setControl s c check op value).2 = c ∨
      ∃ message, (setControl s c check op value).2 = c.send (.error message) := by
  unfold setControl
  cases value with
  | none => exact .inl rfl
  | some v =>
    dsimp only
    split
    · exact .inl rfl
    · exact .inr ⟨_, rfl⟩

omit [Leveled B] in
theorem runControl_cases (display : F → String) (s : AppState B F) (c : Connection)
    (cmd : ClientCommand F) : (runControl display s c cmd).2 = c ∨
    ∃ message, (runControl display s c cmd).2 = c.send (.error message) := by
  unfold runControl
  split
  · exact setControl_cases _ _ c _
  · exact setControl_cases _ _ c _
  · exact setControl_cases _ _ c _
  · exact .inl rfl
  · exact .inl rfl
  · exact .inl rfl

omit [F64 F] in
theorem runSubscribe_cases (s : AppState B F) (c : Connection) (cmd : ClientCommand F) :
    (∃ ch, cmd.channel = some (SubscriptionChannel.name ch) ∧ ch.kept = true ∧
      Subscribing c ch cmd.symbol (runSubscribe s c cmd).2) ∨ (runSubscribe s c cmd).2 = c := by
  unfold runSubscribe
  split
  · rename_i hch
    exact .inl ⟨.orderbook, hch, rfl, orderbookSubscribe_cases _ _ _ _ _⟩
  · rename_i hch
    exact .inl ⟨.trades, hch, rfl, tradesSubscribe_cases _ _⟩
  · exact .inr rfl

omit [Upstream B] [Leveled B] [F64 F] in
theorem runUnsubscribe_cases (c : Connection) (cmd : ClientCommand F) :
    (∃ ch, cmd.channel = some (SubscriptionChannel.name ch) ∧ ch.kept = true ∧
      Unsubscribing c ch cmd.symbol (runUnsubscribe c cmd)) ∨ runUnsubscribe c cmd = c := by
  unfold runUnsubscribe
  split
  · rename_i hch
    exact .inl ⟨.orderbook, hch, rfl, (unsubscribe_cases _ _).1⟩
  · rename_i hch
    exact .inl ⟨.trades, hch, rfl, (unsubscribe_cases _ _).2⟩
  · exact .inr rfl

/-- What a command can do to a connection. -/
inductive Obeying (c : Connection) (cmd : ClientCommand F) : Connection → Prop
  | subscribe {ch : SubscriptionChannel} {c' : Connection} (ha : cmd.action = "subscribe")
      (hch : cmd.channel = some ch.name) (hk : ch.kept = true)
      (h : Subscribing c ch cmd.symbol c') : Obeying c cmd c'
  | unsubscribe {ch : SubscriptionChannel} {c' : Connection} (ha : cmd.action = "unsubscribe")
      (hch : cmd.channel = some ch.name) (hk : ch.kept = true)
      (h : Unsubscribing c ch cmd.symbol c') : Obeying c cmd c'
  | batchSubscribe {subs : List ChannelSubscription} {m : WsMessage}
      (ha : cmd.action = "batch_subscribe") (hs : cmd.channels = some subs)
      (hm : ∀ message, m ≠ .error message) : Obeying c cmd
        ((subs.foldl (fun c sub => (processChannelSubscription c sub).2) c).send m)
  | batchUnsubscribe {subs : List ChannelSubscription} {m : WsMessage}
      (ha : cmd.action = "batch_unsubscribe") (hs : cmd.channels = some subs)
      (hm : ∀ message, m ≠ .error message) : Obeying c cmd
        ((subs.foldl (fun c sub => (processChannelUnsubscription c sub).2) c).send m)
  | answered (m : WsMessage) : Obeying c cmd (c.send m)
  | ignored : Obeying c cmd c

theorem obey_cases (display : F → String) (permissions : List Permission) (s : AppState B F)
    (cmd : ClientCommand F) (c : Connection) :
    Obeying c cmd (obey display permissions s cmd c) := by
  have hcontrol : Obeying c cmd (if Permission.admin ∈ permissions then runControl display s c cmd
      else (s, c.send (.error "forbidden: admin permission required"))).2 := by
    split_ifs
    · rcases runControl_cases display s c cmd with h | ⟨m, h⟩
      · rw [h]
        exact .ignored
      · rw [h]
        exact .answered _
    · exact .answered _
  unfold obey handleCommand
  split
  · rename_i ha
    rcases runSubscribe_cases s c cmd with ⟨ch, hch, hk, h⟩ | h
    · exact .subscribe ha hch hk h
    · rw [h]
      exact .ignored
  · rename_i ha
    rcases runUnsubscribe_cases c cmd with ⟨ch, hch, hk, h⟩ | h
    · exact .unsubscribe ha hch hk h
    · dsimp only
      rw [h]
      exact .ignored
  · exact hcontrol
  · exact hcontrol
  · exact hcontrol
  · exact hcontrol
  · exact hcontrol
  · rename_i ha
    cases hs : cmd.channels with
    | none => exact .answered _
    | some subs =>
      dsimp only [handleBatchSubscribe]
      rw [processAll_snd]
      exact .batchSubscribe ha hs nofun
  · rename_i ha
    cases hs : cmd.channels with
    | none => exact .answered _
    | some subs =>
      dsimp only [handleBatchUnsubscribe]
      rw [processAll_snd]
      exact .batchUnsubscribe ha hs nofun
  · exact .answered _
  · exact .ignored

omit [Upstream B] [Leveled B] [F64 F] in
theorem Subscribing.moves {symbol : Option String} (h : Subscribing c ch symbol c')
    (hP : ∀ e, (⟨.orderbook, symbol, none⟩ : ChannelSubscription).entry = some e → P e) :
    Moves P c c' := by
  cases h with
  | @accepted _ e rest hs hp ha ht hsent =>
    intro ch'
    rw [ht]
    by_cases hch : ch' = ch
    · subst hch
      right
      left
      refine ⟨e, hP e (by simp [ChannelSubscription.entry, hs, hp]), ?_⟩
      rw [Function.update_self, ← canAddSubscription_enter, if_pos ha]
    · rw [Function.update_of_ne hch]
      exact .inl rfl
  | refused hno => exact .of_tracked (send_tracked _ _)

omit [Upstream B] [Leveled B] [F64 F] in
theorem Unsubscribing.moves {symbol : Option String} (h : Unsubscribing c ch symbol c') :
    Moves P c c' := by
  cases h with
  | @confirmed _ e hs ht hsent =>
    intro ch'
    rw [ht]
    by_cases hch : ch' = ch
    · subst hch
      rw [Function.update_self]
      exact .inr (.inr ⟨e, rfl⟩)
    · rw [Function.update_of_ne hch]
      exact .inl rfl
  | refused hno => exact .of_tracked (send_tracked _ _)

/-- The entries a command asks to track. -/
def requested (cmd : ClientCommand F) : List String :=
  match cmd.action with
  | "subscribe" => (⟨.orderbook, cmd.symbol, none⟩ : ChannelSubscription).entry.toList
  | "batch_subscribe" => (cmd.channels.getD []).filterMap ChannelSubscription.entry
  | _ => []

omit [F64 F] in
theorem Obeying.holds (h : Obeying c cmd c') (hc : Holds P c) (hP : ∀ e ∈ requested cmd, P e) :
    Holds P c' := by
  have hsend : ∀ {c : Connection} {m : WsMessage}, Holds P c → Holds P (c.send m) :=
    fun hc => hc.moves (.of_tracked (send_tracked _ _))
  cases h with
  | subscribe ha hch hk h =>
    refine hc.moves (h.moves fun e he => hP e ?_)
    simpa [requested, ha] using he
  | unsubscribe ha hch hk h => exact hc.moves h.moves
  | @batchSubscribe subs m ha hs hm =>
    refine hsend (hc.foldl fun sub hsub c => subscription_moves (fun e he => hP e ?_) c)
    simp only [requested, ha, hs, Option.getD_some]
    exact List.mem_filterMap.mpr ⟨sub, hsub, he⟩
  | batchUnsubscribe ha hs hm =>
    exact hsend (hc.foldl fun sub _ c => unsubscription_moves P c sub)
  | answered m => exact hsend hc
  | ignored => exact hc

theorem foldl_sent {f : Connection → ChannelSubscription → Connection}
    (hf : ∀ c sub, (f c sub).sent = c.sent) (c : Connection) (subs : List ChannelSubscription) :
    (subs.foldl f c).sent = c.sent := by
  induction subs generalizing c with
  | nil => rfl
  | cons sub subs ih => exact (ih (f c sub)).trans (hf c sub)

theorem processChannel_sent
    (f : Finset String → ChannelSubscription → SubscriptionResult × Finset String)
    (c : Connection) (sub : ChannelSubscription) : (processChannel f c sub).2.sent = c.sent := by
  unfold processChannel
  cases sub.channel <;> rfl

omit [Upstream B] [Leveled B] [F64 F] in
/-- A command answered by an error has left the sets alone. -/
theorem Obeying.error {message : String} (h : Obeying c cmd c')
    (herror : c'.sent = c.sent ++ [.error message]) : c'.tracked = c.tracked := by
  have hanswer : ∀ {c₁ : Connection} {m : WsMessage}, c₁.sent = c.sent →
      (c₁.send m).sent = c.sent ++ [.error message] → m = .error message := by
    intro c₁ m hc h
    simpa [hc] using h
  cases h with
  | subscribe ha hch hk h =>
    cases h with
    | accepted rest hs hp hadd ht hsent => simp [hsent] at herror
    | refused hno => exact send_tracked _ _
  | unsubscribe ha hch hk h =>
    cases h with
    | confirmed hs ht hsent => simp [hsent] at herror
    | refused hno => exact send_tracked _ _
  | batchSubscribe ha hs hm =>
    have hsame := foldl_sent (fun c sub => processChannel_sent subscribeEntry c sub) c
    exact absurd (hanswer (hsame _) herror) (hm message)
  | batchUnsubscribe ha hs hm =>
    have hsame := foldl_sent (fun c sub => processChannel_sent unsubscribeEntry c sub) c
    exact absurd (hanswer (hsame _) herror) (hm message)
  | answered m => exact send_tracked _ _
  | ignored => rfl

/-- One thing that happens on a connection: a command, whatever state it finds the process in, or
an entry of a batch under way. -/
inductive Turn (B F : Type)
  | command (s : AppState B F) (cmd : ClientCommand F)
  | subscribe (sub : ChannelSubscription)
  | unsubscribe (sub : ChannelSubscription)

def turn (display : F → String) (permissions : List Permission) (c : Connection) :
    Turn B F → Connection
  | .command s cmd => obey display permissions s cmd c
  | .subscribe sub => (processChannelSubscription c sub).2
  | .unsubscribe sub => (processChannelUnsubscription c sub).2

def Turn.requested : Turn B F → List String
  | .command _ cmd => Connection.requested cmd
  | .subscribe sub => sub.entry.toList
  | .unsubscribe _ => []

theorem Holds.turn (h : Holds P c) {i : Turn B F} (hP : ∀ e ∈ i.requested, P e) :
    Holds P (turn display permissions c i) := by
  cases i with
  | command s cmd => exact (obey_cases display permissions s cmd c).holds h hP
  | subscribe sub =>
    refine h.moves (subscription_moves (fun e he => hP e ?_) c)
    simpa [Turn.requested] using he
  | unsubscribe sub => exact h.moves (unsubscription_moves P c sub)

omit [Upstream B] [Leveled B] [F64 F] in
theorem entry_isEntry (h : sub.entry = some e) : IsEntry e := by
  unfold ChannelSubscription.entry at h
  split at h
  · split_ifs at h with hp
    exact .inl (Option.some.inj h ▸ hp)
  · exact .inr ⟨_, (Option.some.inj h).symm⟩
  · cases h

omit [Upstream B] [Leveled B] [F64 F] in
theorem isEntry_of_requested (h : e ∈ requested cmd) : IsEntry e := by
  unfold requested at h
  split at h
  · exact entry_isEntry (by simpa using h)
  · obtain ⟨sub, -, he⟩ := List.mem_filterMap.mp h
    exact entry_isEntry he
  · cases h

omit [Upstream B] [Leveled B] [F64 F] in
theorem Turn.isEntry {i : Turn B F} (h : e ∈ i.requested) : IsEntry e := by
  cases i with
  | command s cmd => exact isEntry_of_requested h
  | subscribe sub => exact entry_isEntry (by simpa [Turn.requested] using h)
  | unsubscribe sub => cases h

omit [Upstream B] [Leveled B] [F64 F] in
theorem fresh_holds (P : String → Prop) : Holds P fresh := by
  intro ch
  cases ch <;> simp [tracked, fresh]

end Commands

end Connection

end OptionChainBackend
