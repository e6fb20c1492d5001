import OptionChainBackend.Client.Messages
import OptionChainBackend.Feed.Streams
import OptionChainBackend.Foundation.Pipe

/-!
A whole session over a socket, from the client that sends a command to the client that takes a
message. On the server two tasks share the socket: one obeys commands in turn and answers them, the
other passes on what it hears of the three streams. On the client two tasks write and read the
socket. Whatever the order of their turns, nothing is lost, repeated or reordered between what one
side sends and what the other receives.
-/
namespace OptionChainBackend
open Foundation Upstream MarketMaker Auth OrderbookClient

/-- `obeyed` is history: the commands obeyed so far, each with the state the process was in. -/
structure Socket (B F : Type) where
  state : AppState B F
  connection : Connection
  answers : List WsMessage
  obeyed : List (AppState B F × ClientCommand F)
  events : Receiver (MarketMakerEvent F)
  deltas : Receiver OrderbookDeltaEvent
  trades : Receiver TradeEvent
  up : Pipe (OrderbookClient.ClientCommand F) (Json F) (ClientCommand F)
  down : Pipe (ServerMessage F) (Json F) (Message F)

/-- The turns: of the rest of the process, of the client, of its write and read tasks, and of the
server's two tasks. -/
inductive SocketStep (F : Type) where
  | request (r : Request F)
  | other (permissions : List Permission) (c : Connection) (cmd : ClientCommand F)
  | send (cmd : OrderbookClient.ClientCommand F)
  | write
  | obey
  | answer
  | event
  | delta
  | trade
  | heartbeat (timestamp : ℕ)
  | read
  | recv

namespace ServerMessage
variable {F : Type}

def answered : ServerMessage F → Option WsMessage
  | .answer m => some m
  | _ => none

def heard : ServerMessage F → Option (MarketMakerEvent F)
  | .event e => some e
  | _ => none

def level : ServerMessage F → Option OrderbookDeltaEvent
  | .delta d => some d
  | _ => none

def execution : ServerMessage F → Option TradeEvent
  | .trade t => some t
  | _ => none

end ServerMessage

namespace Socket
variable {B F : Type} [F64 F] (carried : F → F) (display : F → String)
  (permissions : List Permission)

/-- What the channels of the server keep for a receiver. -/
def broadcastCapacity : ℕ := 1000

/-- What the client's channels hold. -/
def clientCapacity : ℕ := 100

def tell (S : Socket B F) (m : ServerMessage F) : Socket B F :=
  { S with down := S.down.push (ServerMessage.json carried) m }

def pass (S : Socket B F) : Option (ServerMessage F) → Socket B F
  | some m => S.tell carried m
  | none => S

/-- Up to its two tasks. -/
def handleSocket (s : AppState B F) : Socket B F :=
  tell carried ⟨s, .fresh, [], [], .subscribe s.engine.events, .subscribe s.deltas,
    .subscribe s.tradeEvents, .new, .new⟩ (.connected "Connected to Option Chain OrderBook")

variable [Upstream B] [Leveled B]

/-- The next text that is a command is obeyed, once the last one is answered. -/
def obeyNext (S : Socket B F) : Socket B F :=
  if S.answers.isEmpty then
    let up := S.up.read readCommand 1
    match up.inbox with
    | [] => { S with up := up }
    | cmd :: _ =>
      let served := handleCommand display permissions S.state S.connection cmd
      { S with
        state := served.1
        connection := served.2
        answers := served.2.sent.drop S.connection.sent.length
        obeyed := S.obeyed ++ [(S.state, cmd)]
        up := up.take }
  else S

def step (S : Socket B F) : SocketStep F → Socket B F
  | .request r => { S with state := S.state.step r }
  | .other permissions c cmd =>
    { S with state := (handleCommand display permissions S.state c cmd).1 }
  | .send cmd => { S with up := S.up.give clientCapacity cmd }
  | .write => { S with up := S.up.write (OrderbookClient.ClientCommand.json carried) }
  | .obey => S.obeyNext display permissions
  | .answer =>
    match S.answers with
    | [] => S
    | m :: rest => tell carried { S with answers := rest } (.answer m)
  | .event =>
    let (e, events) := S.events.recv broadcastCapacity S.state.engine.events
    pass carried { S with events := events } (e.map .event)
  | .delta =>
    let (d, deltas) := S.deltas.recv broadcastCapacity S.state.deltas
    let d := d.filter fun d =>
      Websocket.subscriptionMatches S.connection.subscribedSymbols d.symbol
    pass carried { S with deltas := deltas } (d.map .delta)
  | .trade =>
    let (t, trades) := S.trades.recv broadcastCapacity S.state.tradeEvents
    let t := t.filter fun t =>
      Websocket.subscriptionMatches S.connection.subscribedTrades t.symbol
    pass carried { S with trades := trades } (t.map .trade)
  | .heartbeat timestamp => S.tell carried (.heartbeat timestamp)
  | .read => { S with down := S.down.read readMessage clientCapacity }
  | .recv => { S with down := S.down.take }

/-- The connection once the first `n` commands are obeyed. -/
def after (S : Socket B F) (n : ℕ) : Connection :=
  (S.obeyed.take n).foldl (fun c turn => Connection.obey display permissions turn.1 turn.2 c) .fresh

/-- A level change or a trade that the client subscribed to by some of its commands. -/
def Covered (S : Socket B F) : ServerMessage F → Prop
  | .delta d => ∃ n ≤ S.obeyed.length, Websocket.subscriptionMatches
      (S.after display permissions n).subscribedSymbols d.symbol = true
  | .trade t => ∃ n ≤ S.obeyed.length, Websocket.subscriptionMatches
      (S.after display permissions n).subscribedTrades t.symbol = true
  | _ => True

variable {display permissions} in
theorem Covered.later {S : Socket B F} {m : ServerMessage F} (h : S.Covered display permissions m)
    {S' : Socket B F} (hobeyed : S.obeyed <+: S'.obeyed) : S'.Covered display permissions m := by
  have hafter : ∀ n ≤ S.obeyed.length,
      S'.after display permissions n = S.after display permissions n := by
    intro n hn
    obtain ⟨more, hmore⟩ := hobeyed
    unfold after
    rw [← hmore, List.take_append_of_le_length hn]
  cases m with
  | delta d =>
    obtain ⟨n, hn, hd⟩ := h
    exact ⟨n, hn.trans hobeyed.length_le, hafter n hn ▸ hd⟩
  | trade t =>
    obtain ⟨n, hn, ht⟩ := h
    exact ⟨n, hn.trans hobeyed.length_le, hafter n hn ▸ ht⟩
  | _ => trivial

/-- What holds at every moment of a session that began in `s₀`. -/
structure Kept (s₀ : AppState B F) (S : Socket B F) : Prop where
  grounded : S.state.Grounded
  up : S.up.Intact (OrderbookClient.ClientCommand.json carried) readCommand
  idle : S.up.inbox = []
  obeyed : S.obeyed.map Prod.snd = S.up.received
  connection : S.connection = S.after display permissions S.obeyed.length
  down : S.down.Intact (ServerMessage.json carried) readMessage
  direct : S.down.outbox = []
  answers : S.down.sent.filterMap ServerMessage.answered ++ S.answers = S.connection.sent
  events : S.events.Hears s₀.engine.events S.state.engine.events
  heard : S.down.sent.filterMap ServerMessage.heard = S.events.got
  deltas : S.deltas.Hears s₀.deltas S.state.deltas
  levels : (S.down.sent.filterMap ServerMessage.level).Sublist S.deltas.got
  trades : S.trades.Hears s₀.tradeEvents S.state.tradeEvents
  executions : (S.down.sent.filterMap ServerMessage.execution).Sublist S.trades.got
  covered : ∀ m ∈ S.down.sent, S.Covered display permissions m

namespace Kept
variable {carried display permissions} {s₀ : AppState B F} {S : Socket B F}

theorem start (hg : s₀.Grounded) :
    Kept carried display permissions s₀ (handleSocket carried s₀) where
  grounded := hg
  up := Pipe.intact_new
  idle := rfl
  obeyed := rfl
  connection := rfl
  down := Pipe.intact_new.push rfl _
  direct := rfl
  answers := rfl
  events := Receiver.hears_subscribe _
  heard := rfl
  deltas := Receiver.hears_subscribe _
  levels := List.nil_sublist _
  trades := Receiver.hears_subscribe _
  executions := List.nil_sublist _
  covered m hm := by
    obtain rfl := List.mem_singleton.mp hm
    trivial

/-- The process moves on. -/
theorem moved (h : Kept carried display permissions s₀ S) {s : AppState B F}
    (hs : S.state.Continues s) : Kept carried display permissions s₀ { S with state := s } :=
  { h with
    grounded := hs.grounded h.grounded
    events := h.events.grow (hs.tells h.grounded).events
    deltas := h.deltas.grow (hs.deltas h.grounded)
    trades := h.trades.grow (hs.tells h.grounded).trades }

/-- A message goes to the client, or none does; the answers left and the receivers are as they are
after it. -/
theorem passed (h : Kept carried display permissions s₀ S) (o : Option (ServerMessage F))
    {answers : List WsMessage} {events : Receiver (MarketMakerEvent F)}
    {deltas : Receiver OrderbookDeltaEvent} {trades : Receiver TradeEvent}
    (hanswers : (o.bind ServerMessage.answered).toList ++ answers = S.answers)
    (hevents : events.Hears s₀.engine.events S.state.engine.events)
    (hheard : events.got = S.events.got ++ (o.bind ServerMessage.heard).toList)
    (hdeltas : deltas.Hears s₀.deltas S.state.deltas)
    (hlevels : (S.deltas.got ++ (o.bind ServerMessage.level).toList).Sublist deltas.got)
    (htrades : trades.Hears s₀.tradeEvents S.state.tradeEvents)
    (hexecutions : (S.trades.got ++ (o.bind ServerMessage.execution).toList).Sublist trades.got)
    (hcovered : ∀ m ∈ o, S.Covered display permissions m) :
    Kept carried display permissions s₀ (pass carried
      { S with answers := answers, events := events, deltas := deltas, trades := trades } o) := by
  cases o with
  | none =>
    simp only [Option.bind_none, Option.toList_none, List.nil_append, List.append_nil]
      at hanswers hheard hlevels hexecutions
    exact { h with
      answers := by
        subst hanswers
        exact h.answers
      events := hevents
      heard := h.heard.trans hheard.symm
      deltas := hdeltas
      levels := h.levels.trans hlevels
      trades := htrades
      executions := h.executions.trans hexecutions }
  | some m =>
    have hone : ∀ {β : Type} (f : ServerMessage F → Option β),
        (S.down.sent ++ [m]).filterMap f = S.down.sent.filterMap f ++ (f m).toList := by
      intro β f
      cases hf : f m <;> simp [hf]
    exact { h with
      down := h.down.push h.direct m
      answers := by
        show (S.down.sent ++ [m]).filterMap _ ++ answers = S.connection.sent
        rw [hone, List.append_assoc, ← h.answers, ← hanswers]
        rfl
      events := hevents
      heard := by
        show (S.down.sent ++ [m]).filterMap _ = events.got
        rw [hone, h.heard, hheard]
        rfl
      deltas := hdeltas
      levels := by
        show ((S.down.sent ++ [m]).filterMap _).Sublist deltas.got
        rw [hone]
        exact (h.levels.append (.refl _)).trans hlevels
      trades := htrades
      executions := by
        show ((S.down.sent ++ [m]).filterMap _).Sublist trades.got
        rw [hone]
        exact (h.executions.append (.refl _)).trans hexecutions
      covered := by
        intro m' hm'
        rcases List.mem_append.mp hm' with hm' | hm'
        · exact h.covered m' hm'
        · obtain rfl := List.mem_singleton.mp hm'
          exact hcovered m' rfl }

omit [F64 F] [Upstream B] [Leveled B] in
theorem bind_map {α β : Type} (o : Option α) (f : α → ServerMessage F)
    (g : ServerMessage F → Option β) : (o.map f).bind g = o.bind fun a => g (f a) := by
  cases o <;> rfl

omit [F64 F] [Upstream B] [Leveled B] in
theorem filter_sublist {α : Type} (o : Option α) (p : α → Bool) (f : α → ServerMessage F)
    (g : ServerMessage F → Option α) (hg : ∀ a, g (f a) = some a) :
    (((o.filter p).map f).bind g).toList.Sublist o.toList := by
  simp only [bind_map, hg, Option.bind_fun_some]
  cases o with
  | none => exact .refl _
  | some a => cases hp : p a <;> simp [Option.filter, hp]

theorem event (h : Kept carried display permissions s₀ S) {e : Option (MarketMakerEvent F)}
    {events : Receiver (MarketMakerEvent F)}
    (hears : events.Hears s₀.engine.events S.state.engine.events)
    (hgot : events.got = S.events.got ++ e.toList) :
    Kept carried display permissions s₀ (pass carried { S with events := events }
      (e.map .event)) :=
  h.passed _ (by simp [bind_map, ServerMessage.answered]) hears
    (by simp [bind_map, ServerMessage.heard, hgot]) h.deltas
    (by simp [bind_map, ServerMessage.level]) h.trades
    (by simp [bind_map, ServerMessage.execution]) (by simp [Socket.Covered])

theorem delta (h : Kept carried display permissions s₀ S) {d : Option OrderbookDeltaEvent}
    {deltas : Receiver OrderbookDeltaEvent} (hears : deltas.Hears s₀.deltas S.state.deltas)
    (hgot : deltas.got = S.deltas.got ++ d.toList) :
    Kept carried display permissions s₀ (pass carried { S with deltas := deltas }
      ((d.filter fun d => Websocket.subscriptionMatches S.connection.subscribedSymbols
        d.symbol).map .delta)) := by
  have hcovered : ∀ m ∈ (d.filter fun d => Websocket.subscriptionMatches
      S.connection.subscribedSymbols d.symbol).map (ServerMessage.delta (F := F)),
      S.Covered display permissions m := by
    intro m hm
    obtain ⟨d', hd', rfl⟩ := Option.map_eq_some_iff.mp hm
    have hmatch := (Option.filter_eq_some_iff.mp hd').2
    exact ⟨S.obeyed.length, Nat.le_refl _, h.connection ▸ hmatch⟩
  refine h.passed _ (by simp [bind_map, ServerMessage.answered]) h.events
    (by simp [bind_map, ServerMessage.heard]) hears ?_ h.trades
    (by simp [bind_map, ServerMessage.execution]) hcovered
  rw [hgot]
  exact (List.Sublist.refl _).append (filter_sublist d _ _ _ fun _ => rfl)

theorem trade (h : Kept carried display permissions s₀ S) {t : Option TradeEvent}
    {trades : Receiver TradeEvent} (hears : trades.Hears s₀.tradeEvents S.state.tradeEvents)
    (hgot : trades.got = S.trades.got ++ t.toList) :
    Kept carried display permissions s₀ (pass carried { S with trades := trades }
      ((t.filter fun t => Websocket.subscriptionMatches S.connection.subscribedTrades
        t.symbol).map .trade)) := by
  have hcovered : ∀ m ∈ (t.filter fun t => Websocket.subscriptionMatches
      S.connection.subscribedTrades t.symbol).map (ServerMessage.trade (F := F)),
      S.Covered display permissions m := by
    intro m hm
    obtain ⟨t', ht', rfl⟩ := Option.map_eq_some_iff.mp hm
    have hmatch := (Option.filter_eq_some_iff.mp ht').2
    exact ⟨S.obeyed.length, Nat.le_refl _, h.connection ▸ hmatch⟩
  refine h.passed _ (by simp [bind_map, ServerMessage.answered]) h.events
    (by simp [bind_map, ServerMessage.heard]) h.deltas (by simp [bind_map, ServerMessage.level])
    hears ?_ hcovered
  rw [hgot]
  exact (List.Sublist.refl _).append (filter_sublist t _ _ _ fun _ => rfl)

/-- The client reads or takes. -/
theorem downward (h : Kept carried display permissions s₀ S)
    {down : Pipe (ServerMessage F) (Json F) (Message F)}
    (hdown : down.Intact (ServerMessage.json carried) readMessage)
    (hout : down.outbox = S.down.outbox) (hsent : down.sent = S.down.sent) :
    Kept carried display permissions s₀ { S with down := down } :=
  { h with
    down := hdown
    direct := hout.trans h.direct
    answers := by
      show down.sent.filterMap _ ++ S.answers = S.connection.sent
      rw [hsent, h.answers]
    heard := by
      show down.sent.filterMap _ = S.events.got
      rw [hsent, h.heard]
    levels := by
      show (down.sent.filterMap _).Sublist S.deltas.got
      exact hsent ▸ h.levels
    executions := by
      show (down.sent.filterMap _).Sublist S.trades.got
      exact hsent ▸ h.executions
    covered := by
      intro m hm
      exact h.covered m (hsent ▸ hm) }

theorem upward (h : Kept carried display permissions s₀ S)
    {up : Pipe (OrderbookClient.ClientCommand F) (Json F) (ClientCommand F)}
    (hup : up.Intact (OrderbookClient.ClientCommand.json carried) readCommand)
    (hin : up.inbox = S.up.inbox) (hreceived : up.received = S.up.received) :
    Kept carried display permissions s₀ { S with up := up } :=
  { h with
    up := hup
    idle := hin.trans h.idle
    obeyed := h.obeyed.trans hreceived.symm }

variable [LawfulUpstream B]

/-- A command is obeyed; its answers wait. -/
theorem obey (h : Kept carried display permissions s₀ S) (hanswers : S.answers = [])
    {up : Pipe (OrderbookClient.ClientCommand F) (Json F) (ClientCommand F)}
    {cmd : ClientCommand F}
    (hup : up.Intact (OrderbookClient.ClientCommand.json carried) readCommand)
    (hin : up.inbox = []) (hreceived : up.received = S.up.received ++ [cmd]) :
    let served := handleCommand display permissions S.state S.connection cmd
    Kept carried display permissions s₀ { S with
      state := served.1
      connection := served.2
      answers := served.2.sent.drop S.connection.sent.length
      obeyed := S.obeyed ++ [(S.state, cmd)]
      up := up } := by
  intro served
  have hs : S.state.Continues served.1 := .command display permissions S.state S.connection cmd
  have hsent : S.connection.sent <+: served.2.sent :=
    (Connection.obey_cases display permissions S.state cmd S.connection).extends
  have hconnection := h.connection
  have hall := h.answers
  rw [hanswers, List.append_nil] at hall
  exact { h with
    grounded := hs.grounded h.grounded
    up := hup
    idle := hin
    obeyed := by rw [List.map_append, h.obeyed, hreceived]; rfl
    connection := by
      simp only [Socket.after, List.take_length] at hconnection ⊢
      rw [List.foldl_append, ← hconnection]
      rfl
    answers := by
      show S.down.sent.filterMap _ ++ served.2.sent.drop _ = served.2.sent
      rw [hall]
      exact List.prefix_iff_eq_append.mp hsent
    events := h.events.grow (hs.tells h.grounded).events
    deltas := h.deltas.grow (hs.deltas h.grounded)
    trades := h.trades.grow (hs.tells h.grounded).trades
    covered := fun m hm => (h.covered m hm).later (List.prefix_append _ _) }

theorem obeyNext (h : Kept carried display permissions s₀ S) :
    Kept carried display permissions s₀ (S.obeyNext display permissions) := by
  have hread : (S.up.read readCommand 1).Intact
      (OrderbookClient.ClientCommand.json carried) readCommand := h.up.read
  unfold Socket.obeyNext
  split_ifs with hanswers
  · dsimp only
    rcases Pipe.read_one h.idle with hnone | ⟨cmd, hcmd⟩
    · rw [hnone]
      exact h.upward hread (hnone.trans h.idle.symm) Pipe.read_received
    · rw [hcmd]
      apply h.obey (List.isEmpty_iff.mp hanswers) hread.take
      · rw [Pipe.take_cons hcmd]
      · rw [Pipe.take_cons hcmd, Pipe.read_received]
  · exact h

theorem step (h : Kept carried display permissions s₀ S) (i : SocketStep F) :
    Kept carried display permissions s₀ (S.step carried display permissions i) := by
  cases i with
  | request r => exact h.moved (.request S.state r)
  | other permissions' c cmd => exact h.moved (.command display permissions' S.state c cmd)
  | send cmd => exact h.upward (h.up.give cmd) (Pipe.give_inbox cmd) (Pipe.give_received cmd)
  | write => exact h.upward h.up.write Pipe.write_inbox Pipe.write_received
  | obey => exact h.obeyNext
  | answer =>
    simp only [Socket.step]
    cases hanswers : S.answers with
    | nil => exact h
    | cons m rest =>
      exact h.passed (some (.answer m)) (by simp [ServerMessage.answered, hanswers]) h.events
        (by simp [ServerMessage.heard]) h.deltas (by simp [ServerMessage.level]) h.trades
        (by simp [ServerMessage.execution]) (by rintro _ ⟨⟩; trivial)
  | event => exact h.event h.events.recv (Receiver.recv_got _ _ _)
  | delta => exact h.delta h.deltas.recv (Receiver.recv_got _ _ _)
  | trade => exact h.trade h.trades.recv (Receiver.recv_got _ _ _)
  | heartbeat timestamp =>
    exact h.passed (some (.heartbeat timestamp)) rfl h.events
      (by simp [ServerMessage.heard]) h.deltas (by simp [ServerMessage.level]) h.trades
      (by simp [ServerMessage.execution]) (by rintro _ ⟨⟩; trivial)
  | read => exact h.downward h.down.read Pipe.read_outbox Pipe.read_sent
  | recv => exact h.downward h.down.take Pipe.take_outbox Pipe.take_sent

end Kept

/-- What a session that began in `s₀` is to its two sides. -/
structure Faithful (s₀ : AppState B F) (S : Socket B F) : Prop where
  received : S.down.received <+: S.down.sent.map (Message.ofServer carried)
  drained : S.down.inbox = [] → S.down.wire = [] →
    S.down.received = S.down.sent.map (Message.ofServer carried)
  obeyed : S.obeyed.map Prod.snd <+:
    S.up.sent.map (OrderbookClient.ClientCommand.received carried)
  obeyedAll : S.up.wire = [] → S.up.outbox = [] →
    S.obeyed.map Prod.snd = S.up.sent.map (OrderbookClient.ClientCommand.received carried)
  connection : S.connection = S.after display permissions S.obeyed.length
  answers : S.down.sent.filterMap ServerMessage.answered ++ S.answers = S.connection.sent
  heard : S.down.sent.filterMap ServerMessage.heard = S.events.got
  events : S.events.got.Sublist (S.state.engine.events.drop s₀.engine.events.length)
  eventsAll : S.events.lost = 0 →
    s₀.engine.events ++ S.events.got = S.state.engine.events.take S.events.next
  levels : (S.down.sent.filterMap ServerMessage.level).Sublist
    (S.state.deltas.drop s₀.deltas.length)
  executions : (S.down.sent.filterMap ServerMessage.execution).Sublist
    (S.state.tradeEvents.drop s₀.tradeEvents.length)
  covered : ∀ m ∈ S.down.sent, S.Covered display permissions m

section Faithful
variable [LawfulUpstream B] {s₀ : AppState B F} {S : Socket B F}
  {ok : AppState B F → Request F → Prop}

/-- Whatever the turns, the client receives what the server sent, in order and as it was meant, and
the server obeys what the client sent, in order and as it was meant. The answers are those of the
commands, what the client hears of the engine and of the books it subscribed to was broadcast since
the session began, and while its receiver loses nothing it hears all of it. -/
theorem session_faithful (h₀ : Reaches AppState.Start AppState.step ok s₀)
    (h : Reaches (fun S : Socket B F => S = handleSocket carried s₀)
      (Socket.step carried display permissions) (fun _ _ => True) S)
    (htyped : ∀ m ∈ S.down.sent, m.Typed) :
    Faithful carried display permissions s₀ S := by
  have hkept : Kept carried display permissions s₀ S := by
    apply Reaches.invariant (P := Kept carried display permissions s₀) _ _ h
    · rintro S rfl
      exact .start (AppState.Priced.reached h₀).1
    · exact fun S i hS _ => hS.step i
  obtain ⟨hreceived, hdrained⟩ := hkept.down.received fun m hm =>
    readMessage_json carried (htyped m hm)
  obtain ⟨hobeyed, hall⟩ := hkept.up.received fun cmd _ => readCommand_json carried cmd
  exact {
    received := hreceived
    drained := fun hin hwire => hdrained hin hwire hkept.direct
    obeyed := hkept.obeyed ▸ hobeyed
    obeyedAll := fun hwire hout => hkept.obeyed.trans (hall hkept.idle hwire hout)
    connection := hkept.connection
    answers := hkept.answers
    heard := hkept.heard
    events := hkept.events.some
    eventsAll := hkept.events.all
    levels := hkept.levels.trans hkept.deltas.some
    executions := hkept.executions.trans hkept.trades.some
    covered := hkept.covered }

/-- A client subscribes to a book with an order; somebody takes a part of it. -/
def subscribing : List (SocketStep ℚ) :=
  [.send ⟨"subscribe", some "orderbook", some "BTC-19700131-10000-C", none, none, none, none⟩,
    .write, .obey, .answer, .request (.submitMarketOrder ⟨"BTC", "30", 10000, "call"⟩ ⟨.buy, 2⟩),
    .delta, .answer, .read, .read, .read, .recv, .read, .recv, .recv, .recv]

theorem session_faithful_subscribing :
    let S : Socket ReferenceBook ℚ :=
      subscribing.foldl (Socket.step id toString []) (handleSocket id AppState.asked)
    Faithful id toString [] AppState.asked S ∧ S.down.received.length = 4 := by
  have hstart : Reaches AppState.Start AppState.step (fun _ _ => True) AppState.asked :=
    .next (.start AppState.reference_start) trivial
  have hopen : Reaches (fun S : Socket ReferenceBook ℚ => S = handleSocket id AppState.asked)
      (Socket.step id toString []) (fun _ _ => True) (handleSocket id AppState.asked) := .start rfl
  have hallowed : Allowed (Socket.step id toString []) (fun _ _ => True)
      (handleSocket id AppState.asked) subscribing := by
    simp [subscribing, Allowed]
  exact ⟨session_faithful id toString [] hstart (hopen.run hallowed) (by decide +kernel),
    by decide +kernel⟩

end Faithful
end Socket
end OptionChainBackend
