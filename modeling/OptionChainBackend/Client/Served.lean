import OptionChainBackend.Client.Calls

/-!
What the server makes of the client's calls: whatever its arguments, a call gets to no handler but
its own; and with plain arguments it does there what it is for.
-/
namespace OptionChainBackend
namespace OrderbookClient
open Foundation Foundation.Routing Foundation.Json Upstream MarketMaker Auth

/-- A text that is one segment of a URL: URL parsers leave out dot segments, tabs and line
breaks. -/
def PlainText (s : String) : Prop :=
  s ≠ "" ∧ s ≠ "." ∧ s ≠ ".." ∧ ∀ c ∈ s.toList, c ≠ '\t' ∧ c ≠ '\n' ∧ c ≠ '\r'

/-- Nothing in the text ends a segment, a path or a URL. -/
def Undelimited (s : String) : Prop := ∀ c ∈ s.toList, c ≠ '/' ∧ c ≠ '?' ∧ c ≠ '#'

/-- The two sides agree on how segments and queries are written. -/
structure Carries (encode : String → String) (decode : String → Option String)
    (render : List (String × String) → String)
    (parse : String → Option (List (String × String))) : Prop where
  undelimited : ∀ s, Undelimited (encode s)
  decode_encode : ∀ s, PlainText s → decode (encode s) = some s
  decode_plain : ∀ s, '%' ∉ s.toList → decode s = some s
  render_nil : render [] = ""
  render_fragment : ∀ q, '#' ∉ (render q).toList
  parse_render : ∀ q, parse (render q) = some q

section Templates

/-- A path built from the URL could be one of the route. -/
def couldFit : List Piece → List Piece → Bool
  | [], [] => true
  | some w :: ws, some v :: vs => w = v && couldFit ws vs
  | _ :: ws, _ :: vs => couldFit ws vs
  | _, _ => false

/-- Where they differ first, the left one has a word and the right one does not. -/
def soonerPieces : List Piece → List Piece → Bool
  | [], [] => true
  | some _ :: _, none :: _ => true
  | p :: ps, q :: qs => p = q && soonerPieces ps qs
  | _, _ => false

/-- The words that a last argument must not be: a route of its own has them there. -/
def taken : Handler → List Word
  | .cancelOrder | .modifyOrder => [.market]
  | .getOrderStatus => [.bulk, .cancelAll]
  | _ => []

/-- No route that could fit answers the method of the URL with another handler. -/
theorem template_own (h : Handler) : ∀ r ∈ routes, couldFit r.words (template h).2 = true →
    r.handler (template h).1 = none ∨ r.handler (template h).1 = some h := by
  cases h <;> decide

theorem template_listed (h : Handler) : ∃ r ∈ routes, r.words = (template h).2 := by
  cases h <;> decide

theorem template_handler (h : Handler) : ∀ r ∈ routes, r.words = (template h).2 →
    r.handler (template h).1 = some h := by
  cases h <;> decide

theorem template_taken (h : Handler) : ∀ r ∈ routes, couldFit r.words (template h).2 = true →
    soonerPieces r.words (template h).2 = true → r.words = (template h).2 ∨
      (template h).2.getLast? = some none ∧ ∃ w ∈ taken h, r.words.getLast? = some (some w) := by
  cases h <;> decide

theorem template_root (h : Handler) : ∃ ps, (template h).2 = some .root :: ps := by
  cases h <;> exact ⟨_, rfl⟩

end Templates

section Words

def words : List Word :=
  [.root, .api, .v1, .health, .ws, .stats, .auth, .token, .controls, .killSwitch, .enable,
    .parameters, .instruments, .instrument, .toggle, .prices, .underlyings, .expirations,
    .volatilitySurface, .chain, .strikes, .options, .orders, .market, .quote, .greeks, .snapshot,
    .lastTrade, .ohlc, .metrics, .bulk, .cancelAll, .positions, .executions, .admin, .snapshots,
    .restore]

theorem mem_words (w : Word) : w ∈ words := by
  cases w <;> decide

theorem text_inj {v w : Word} (h : v.text = w.text) : v = w := by
  have hall : ∀ v ∈ words, ∀ w ∈ words, v.text = w.text → v = w := by decide +kernel
  exact hall v (mem_words v) w (mem_words w) h

theorem text_undelimited (w : Word) : Undelimited w.text := by
  unfold Undelimited
  cases w <;> simp [Word.text]

theorem text_plain (w : Word) : '%' ∉ w.text.toList := by
  cases w <;> simp [Word.text]

end Words

section Fill
variable {ws ps : List Piece} {as : List String}

theorem mem_fill {s : String} (h : s ∈ fill ps as) : (∃ w : Word, s = w.text) ∨ s ∈ as ∨ s = "" := by
  induction ps generalizing as with
  | nil => cases h
  | cons p ps ih =>
    cases p with
    | some w =>
      rcases List.mem_cons.mp h with rfl | h
      · exact .inl ⟨w, rfl⟩
      · exact ih h
    | none =>
      cases as with
      | nil =>
        rcases List.mem_cons.mp h with rfl | h
        · exact .inr (.inr rfl)
        · exact ih h
      | cons a as =>
        rcases List.mem_cons.mp h with rfl | h
        · exact .inr (.inl List.mem_cons_self)
        · rcases ih h with h | h | h
          · exact .inl h
          · exact .inr (.inl (List.mem_cons_of_mem a h))
          · exact .inr (.inr h)

/-- The number of arguments a URL takes. -/
def slots (ps : List Piece) : ℕ := ps.count none

theorem fits_fill (hlen : slots ps = as.length) (hne : ∀ a ∈ as, a ≠ "") :
    Fits (ps.map pieceSegment) ((fill ps as).map String.toList) := by
  induction ps generalizing as with
  | nil => exact .nil
  | cons p ps ih =>
    cases p with
    | some w =>
      have hrest : slots ps = as.length := by simpa [slots] using hlen
      exact .static _ (ih hrest hne)
    | none =>
      cases as with
      | nil => simp [slots] at hlen
      | cons a as =>
        have hrest : slots ps = as.length := by simpa [slots] using hlen
        have ha : a.toList ≠ [] := by simpa using hne a List.mem_cons_self
        exact .param ha (ih hrest fun b hb => hne b (List.mem_cons_of_mem a hb))

theorem values_fill (hlen : slots ps = as.length) :
    values (ps.map pieceSegment) ((fill ps as).map String.toList) = as.map String.toList := by
  induction ps generalizing as with
  | nil =>
    obtain rfl : as = [] := List.length_eq_zero_iff.mp hlen.symm
    rfl
  | cons p ps ih =>
    cases p with
    | some w =>
      have hrest : slots ps = as.length := by simpa [slots] using hlen
      exact ih hrest
    | none =>
      cases as with
      | nil => simp [slots] at hlen
      | cons a as =>
        have hrest : slots ps = as.length := by simpa [slots] using hlen
        exact congrArg (a.toList :: ·) (ih hrest)

theorem getLast?_fill (hlen : slots ps = as.length) (h : ps.getLast? = some none) :
    (fill ps as).getLast? = as.getLast? := by
  induction ps generalizing as with
  | nil => cases h
  | cons p ps ih =>
    cases ps with
    | nil =>
      obtain rfl : p = none := by simpa using h
      cases as with
      | nil => simp [slots] at hlen
      | cons a as =>
        obtain rfl : as = [] := by simpa [slots] using hlen
        rfl
    | cons q ps =>
      have hlast : (q :: ps).getLast? = some none := by simpa using h
      cases p with
      | some w =>
        have hrest : slots (q :: ps) = as.length := by simpa [slots] using hlen
        have hne : fill (q :: ps) as ≠ [] := by cases q <;> cases as <;> simp [fill]
        rw [fill, List.getLast?_cons_of_ne_nil hne, ih hrest hlast]
      | none =>
        cases as with
        | nil => simp [slots] at hlen
        | cons a as =>
          have hrest : slots (q :: ps) = as.length := by simpa [slots] using hlen
          have hne : fill (q :: ps) as ≠ [] := by cases q <;> cases as <;> simp [fill]
          have has : as ≠ [] := by
            rintro rfl
            have hmem : none ∈ q :: ps := List.mem_of_getLast? hlast
            exact List.count_eq_zero.mp hrest hmem
          rw [fill, List.getLast?_cons_of_ne_nil hne, ih hrest hlast,
            List.getLast?_cons_of_ne_nil has]

theorem getLast?_of_fits {p : Pattern Char} {ls : List (List Char)} {l : List Char} (h : Fits p ls)
    (hp : p.getLast? = some (.static l)) : ls.getLast? = some l := by
  induction h with
  | nil => cases hp
  | static l' h ih =>
    cases h with
    | nil => simpa using hp
    | static l'' h => simpa using ih (by simpa using hp)
    | param hl h => simpa using ih (by simpa using hp)
  | param hl h ih =>
    cases h with
    | nil => cases hp
    | static l'' h => simpa using ih (by simpa using hp)
    | param hl h => simpa using ih (by simpa using hp)

theorem couldFit_of_fits (h : Fits (ws.map pieceSegment) ((fill ps as).map String.toList)) :
    couldFit ws ps = true := by
  induction ps generalizing ws as with
  | nil =>
    cases ws with
    | nil => rfl
    | cons w ws => cases w <;> cases h
  | cons p ps ih =>
    cases ws with
    | nil => cases p <;> cases as <;> cases h
    | cons v ws =>
      cases v with
      | some v =>
        cases p with
        | some w =>
          obtain ⟨ls, hls, hrest⟩ := h.of_static
          obtain ⟨hw, rfl⟩ := List.cons.inj hls
          have hvw : v = w := text_inj (String.toList_inj.mp hw.symm)
          simpa [couldFit, hvw] using ih hrest
        | none =>
          cases as with
          | nil =>
            obtain ⟨ls, hls, hrest⟩ := h.of_static
            obtain ⟨-, rfl⟩ := List.cons.inj hls
            exact ih hrest
          | cons a as =>
            obtain ⟨ls, hls, hrest⟩ := h.of_static
            obtain ⟨-, rfl⟩ := List.cons.inj hls
            exact ih hrest
      | none =>
        obtain ⟨l, ls, hls, -, hrest⟩ := h.of_param
        cases p with
        | some w =>
          obtain ⟨-, rfl⟩ := List.cons.inj hls
          exact ih hrest
        | none =>
          cases as with
          | nil =>
            obtain ⟨-, rfl⟩ := List.cons.inj hls
            exact ih hrest
          | cons a as =>
            obtain ⟨-, rfl⟩ := List.cons.inj hls
            exact ih hrest

theorem soonerPieces_of_sooner (h : Sooner (ws.map pieceSegment) (ps.map pieceSegment)) :
    soonerPieces ws ps = true := by
  induction ws generalizing ps with
  | nil =>
    cases ps with
    | nil => rfl
    | cons p ps => cases h
  | cons w ws ih =>
    rw [List.map_cons] at h
    generalize hw : pieceSegment w = v at h
    cases ps with
    | nil => cases h
    | cons p ps =>
      rw [List.map_cons] at h
      generalize hp : pieceSegment p = q at h
      cases h with
      | cons s h =>
        cases w with
        | none =>
          cases p with
          | none => exact ih h
          | some p => cases hp.trans hw.symm
        | some w =>
          cases p with
          | none => rfl
          | some p =>
            obtain rfl : w = p :=
              text_inj (String.toList_inj.mp (Segment.static.inj (hw.trans hp.symm)))
            simpa [soonerPieces] using ih h
      | static l =>
        cases w with
        | none => cases hw
        | some w =>
          cases p with
          | none => rfl
          | some p => cases hp

end Fill

/-- The arguments of a call are texts of one segment, none of them a word that the server has a
route for in that place, and its numbers are finite. -/
structure Call.Plain {F : Type} [F64 F] (c : Call F) : Prop where
  texts : ∀ s, .text s ∈ c.args → PlainText s
  free : ∀ w ∈ taken c.name, ∀ a ∈ c.args.getLast?, a.raw ≠ w.text
  parameters : ∀ r, c = .updateParameters r → r.Finite
  price : ∀ r, c = .insertPrice r → r.Finite

section Path
variable {F : Type} {encode : String → String} {decode : String → Option String}
  {render : List (String × String) → String} {parse : String → Option (List (String × String))}
  {c : Call F} {a : Arg}

theorem isDigit_of_mem_toString {n : ℕ} {d : Char} (h : d ∈ (toString n).toList) :
    d.isDigit = true := by
  have hdigits : (toString n).toList = Nat.toDigits 10 n := String.toList_ofList
  rw [hdigits] at h
  exact Nat.isDigit_of_mem_toDigits (by decide) (by decide) h

theorem sent_undelimited (hw : Carries encode decode render parse) (a : Arg) :
    Undelimited (a.sent encode) := by
  cases a with
  | text s => exact hw.undelimited s
  | number n =>
    intro d hd
    have hdigit := isDigit_of_mem_toString hd
    refine ⟨?_, ?_, ?_⟩ <;> rintro rfl <;> exact absurd hdigit (by decide)

theorem decode_sent (hw : Carries encode decode render parse)
    (h : ∀ s, a = .text s → PlainText s) : decode (a.sent encode) = some a.raw := by
  cases a with
  | text s => exact hw.decode_encode s (h s rfl)
  | number n =>
    apply hw.decode_plain
    intro hd
    exact absurd (isDigit_of_mem_toString hd) (by decide)

theorem slots_args (c : Call F) : slots (template c.name).2 = c.args.length := by
  cases c <;> rfl

theorem segments_undelimited (hw : Carries encode decode render parse) (c : Call F) :
    ∀ s ∈ fill (template c.name).2 (c.args.map (Arg.sent encode)), Undelimited s := by
  intro s hs
  rcases mem_fill hs with ⟨w, rfl⟩ | hs | rfl
  · exact text_undelimited w
  · obtain ⟨a, -, rfl⟩ := List.mem_map.mp hs
    exact sent_undelimited hw a
  · intro d hd
    cases hd

theorem pieces_path (hw : Carries encode decode render parse) (c : Call F) :
    pieces (c.path encode) =
      (fill (template c.name).2 (c.args.map (Arg.sent encode))).map String.toList := by
  unfold pieces Call.path
  rw [String.toList_intercalate]
  apply List.splitOn_intercalate
  · intro l hl
    obtain ⟨s, hs, rfl⟩ := List.mem_map.mp hl
    intro hslash
    exact (segments_undelimited hw c s hs _ hslash).1 rfl
  · obtain ⟨ps, hps⟩ := template_root c.name
    rw [hps]
    exact List.cons_ne_nil _ _

theorem of_mem_intercalate {α : Type} {sep : List α} {ls : List (List α)} {x : α}
    (h : x ∈ sep.intercalate ls) : x ∈ sep ∨ ∃ l ∈ ls, x ∈ l := by
  induction ls with
  | nil => cases h
  | cons l ls ih =>
    cases ls with
    | nil => exact .inr ⟨l, List.mem_cons_self, by simpa using h⟩
    | cons l' ls =>
      rw [List.intercalate_cons_cons, List.mem_append, List.mem_append] at h
      rcases h with (h | h) | h
      · exact .inr ⟨l, List.mem_cons_self, h⟩
      · exact .inl h
      · rcases ih h with h | ⟨m, hm, h⟩
        · exact .inl h
        · exact .inr ⟨m, List.mem_cons_of_mem l hm, h⟩

theorem path_chars (hw : Carries encode decode render parse) (c : Call F) :
    ∀ d ∈ (c.path encode).toList, d ≠ '?' ∧ d ≠ '#' := by
  intro d hd
  rw [Call.path, String.toList_intercalate] at hd
  rcases of_mem_intercalate hd with hd | ⟨l, hl, hd⟩
  · obtain rfl : d = '/' := by simpa using hd
    decide
  · obtain ⟨s, hs, rfl⟩ := List.mem_map.mp hl
    exact (segments_undelimited hw c s hs d hd).2

/-- A path without delimiters is what the server takes for it, whatever the query is. -/
theorem target_url (hw : Carries encode decode render parse) (c : Call F) :
    (target (c.url encode render)).1 = c.path encode ∧
      ('#' ∉ (c.query render).toList → (target (c.url encode render)).2 = c.query render) := by
  have hmark : ∀ d ∈ (c.path encode).toList, decide (d ≠ '?') = true :=
    fun d hd => decide_eq_true (path_chars hw c d hd).1
  have hfragment : ∀ d ∈ (c.path encode).toList, decide (d ≠ '#') = true :=
    fun d hd => decide_eq_true (path_chars hw c d hd).2
  unfold Call.url
  split_ifs with hq
  · have hpath : (c.path encode).toList.takeWhile (· ≠ '#') = (c.path encode).toList :=
      List.takeWhile_eq_self_iff.mpr hfragment
    have hall : (c.path encode).toList.takeWhile (· ≠ '?') = (c.path encode).toList :=
      List.takeWhile_eq_self_iff.mpr hmark
    have hnone : (c.path encode).toList.dropWhile (· ≠ '?') = [] :=
      List.dropWhile_eq_nil_iff.mpr hmark
    simp only [target, hpath, hall, hnone, hq]
    exact ⟨String.ofList_toList, fun _ => rfl⟩
  · have hsent : (c.path encode ++ "?" ++ c.query render).toList.takeWhile (· ≠ '#') =
        (c.path encode).toList ++ '?' :: (c.query render).toList.takeWhile (· ≠ '#') := by
      rw [String.toList_append, String.toList_append, List.append_assoc,
        List.takeWhile_append_of_pos hfragment]
      rfl
    simp only [target, hsent]
    rw [List.takeWhile_append_of_pos hmark, List.dropWhile_append_of_pos hmark]
    refine ⟨by simp, fun hnone => ?_⟩
    have hquery : (c.query render).toList.takeWhile (· ≠ '#') = (c.query render).toList := by
      apply List.takeWhile_eq_self_iff.mpr
      intro d hd
      exact decide_eq_true fun heq => hnone (heq ▸ hd)
    rw [hquery]
    simp

/-- Whatever its arguments are, a call is not answered by another handler. -/
theorem routed_own (hw : Carries encode decode render parse) {r : Route}
    (hroute : routeOf (c.path encode) = some r) {h : Handler}
    (hh : r.handler (template c.name).1 = some h) : h = c.name := by
  obtain ⟨hr, hfits⟩ := routeOf_fits hroute
  rw [pieces_path hw] at hfits
  rcases template_own c.name r hr (couldFit_of_fits hfits) with hnone | hown
  · rw [hnone] at hh
    cases hh
  · rw [hown] at hh
    exact (Option.some.inj hh).symm

/-- With plain arguments it is answered by its own, which reads the arguments back. -/
theorem routed_plain [F64 F] (hw : Carries encode decode render parse) (hc : c.Plain) :
    ∃ r, routeOf (c.path encode) = some r ∧ r.handler (template c.name).1 = some c.name ∧
      ((values r.pattern (pieces (c.path encode))).map String.ofList).mapM decode =
        some (c.args.map Arg.raw) := by
  have hdecode : ∀ a ∈ c.args, decode (a.sent encode) = some a.raw := by
    intro a ha
    exact decode_sent hw fun s hs => hc.texts s (hs ▸ ha)
  have hlen : slots (template c.name).2 = (c.args.map (Arg.sent encode)).length := by
    rw [List.length_map]
    exact slots_args c
  have hne : ∀ s ∈ c.args.map (Arg.sent encode), s ≠ "" := by
    rintro s hs rfl
    obtain ⟨a, ha, hsent⟩ := List.mem_map.mp hs
    have hraw := hdecode a ha
    rw [hsent, hw.decode_plain "" List.not_mem_nil] at hraw
    have hempty : a.raw = "" := (Option.some.inj hraw).symm
    cases a with
    | text t => exact (hc.texts t ha).1 hempty
    | number n =>
      have hdigits : Nat.toDigits 10 n.val = [] := by
        simpa [Arg.raw] using congrArg String.toList hempty
      exact Nat.toDigits_ne_nil hdigits
  obtain ⟨r, hr, hwords⟩ := template_listed c.name
  have hfits : Fits r.pattern (pieces (c.path encode)) := by
    rw [pieces_path hw, Route.pattern, hwords]
    exact fits_fill hlen hne
  obtain ⟨q, r', hfind, hmem, hfits', hsooner⟩ :=
    find_sooner (List.mem_map_of_mem hr : (r.pattern, r) ∈ routes.map fun r => (r.pattern, r)) hfits
  obtain ⟨r'', hr', he⟩ := List.mem_map.mp hmem
  obtain ⟨rfl, rfl⟩ := Prod.mk.inj he
  rw [pieces_path hw] at hfits'
  rw [Route.pattern, Route.pattern, hwords] at hsooner
  rcases template_taken c.name r'' hr' (couldFit_of_fits hfits')
    (soonerPieces_of_sooner hsooner) with hown | ⟨hslot, w, hw', hlast⟩
  · refine ⟨r'', hfind, template_handler c.name r'' hr' hown, ?_⟩
    have hargs : ((c.args.map (Arg.sent encode)).map String.toList).map String.ofList =
        c.args.map (Arg.sent encode) := by
      simp [List.map_map, Function.comp_def]
    rw [pieces_path hw, Route.pattern, hown, values_fill hlen, hargs]
    exact mapM_map hdecode
  · have hpattern : r''.pattern.getLast? = some (.static w.text.toList) := by
      rw [Route.pattern, List.getLast?_map, hlast]
      rfl
    have hpiece := getLast?_of_fits hfits' hpattern
    rw [List.getLast?_map, getLast?_fill hlen hslot, List.getLast?_map, Option.map_map,
      Option.map_eq_some_iff] at hpiece
    obtain ⟨a, ha, hsent⟩ := hpiece
    have hraw := hdecode a (List.mem_of_getLast? ha)
    rw [String.toList_inj.mp hsent, hw.decode_plain _ (text_plain w)] at hraw
    exact absurd (Option.some.inj hraw).symm (hc.free w hw' a ha)

end Path

section Served
variable {B F : Type} [Upstream B] [F64 F] {display : F → String} {carried : F → F}
  {encode : String → String} {decode : String → Option String}
  {render : List (String × String) → String} {parse : String → Option (List (String × String))}
  {c : Call F} {snapshotId : String}

@[simp] theorem parseU64_number (n : U64) : parseU64 (Nat.toDigits 10 n.val) = some n.val :=
  parseU64_toDigits n.isLt

theorem bookParams_append (p : OptionPath) (rest : List String) :
    bookParams (p.args.map Arg.raw ++ rest) = some (p.received, rest) := by
  simp [OptionPath.args, bookParams, Arg.raw, OptionPath.received]

@[simp] theorem bookParams_args (p : OptionPath) :
    bookParams (p.args.map Arg.raw) = some (p.received, []) := by
  simpa using bookParams_append p []

@[simp] theorem bookParams_order (p : OptionPath) (id : String) :
    bookParams ((p.args ++ [Arg.text id]).map Arg.raw) = some (p.received, [id]) := by
  rw [List.map_append]
  exact bookParams_append p [id]

/-- The query of `cancel_all_orders`, given or not, is read back. -/
theorem cancelAll_read (hw : Carries encode decode render parse) (q : Option CancelAllQuery) :
    (extractors decode parse : Extractors (Json F) F).cancelAll
        ((Call.cancelAllOrders q : Call F).query render) =
      some (q.elim ⟨none, none, none, none⟩ CancelAllQuery.received) := by
  cases q with
  | none =>
    have hempty : parse "" = some [] := hw.render_nil ▸ hw.parse_render []
    simp only [extractors, Call.query, hempty]
    rfl
  | some q =>
    simp only [extractors, Call.query, hw.parse_render, Option.bind_some, readCancelAll_pairs]
    rfl

/-- What a handler changes with the arguments and the body of its call. -/
theorem change_effect (hw : Carries encode decode render parse) (hc : c.Plain)
    (s : AppState B F) :
    (match c.name.change display (extractors decode parse) (c.args.map Arg.raw)
        (c.request carried encode render snapshotId) with
      | none => s
      | some f => f s) = c.effect display carried snapshotId s := by
  cases c with
  | updateParameters r =>
    have hread := readParameters_json carried (hc.parameters r rfl)
    simp [Call.name, Handler.change, Call.request, Call.body, extractors, hread, Call.effect]
  | insertPrice r =>
    have hread := readPrice_json carried (hc.price r rfl)
    simp [Call.name, Handler.change, Call.request, Call.body, extractors, hread, Call.effect]
  | cancelAllOrders q =>
    have hfragment : '#' ∉ ((Call.cancelAllOrders q : Call F).query render).toList := by
      cases q with
      | none => exact List.not_mem_nil
      | some q => exact hw.render_fragment _
    have hquery := (target_url hw (Call.cancelAllOrders q : Call F)).2 hfragment
    have hread := cancelAll_read (F := F) hw q
    simp only [Call.name, Handler.change, Call.request, hquery, hread, Call.effect]
    rfl
  | createUnderlying u => rfl
  | deleteUnderlying u => rfl
  | createExpiration u e => rfl
  | createStrike u e strike =>
    simp [Call.name, Handler.change, Call.args, Arg.raw, strikeParams, Call.effect]
  | addOrder p r =>
    simp [Call.name, Handler.change, Call.args, Call.request, Call.body, extractors,
      readAddOrder_json, Call.effect]
  | submitMarketOrder p r =>
    simp [Call.name, Handler.change, Call.args, Call.request, Call.body, extractors,
      readMarketOrder_json, Call.effect]
  | cancelOrder p id =>
    simp only [Call.name, Handler.change, Call.args, bookParams_order]
    rfl
  | modifyOrder p id r =>
    simp only [Call.name, Handler.change, Call.args, bookParams_order, Call.request, Call.body,
      extractors, readModifyOrder_json]
    rfl
  | bulkSubmitOrders r =>
    simp [Call.name, Handler.change, Call.request, Call.body, extractors, readBulkOrder_json,
      Call.effect]
  | bulkCancelOrders ids =>
    simp [Call.name, Handler.change, Call.request, Call.body, extractors, readBulkCancel_json,
      Call.effect]
  | createSnapshot => rfl
  | restoreSnapshot id => rfl
  | killSwitch => rfl
  | enableQuoting => rfl
  | toggleInstrument symbol => rfl
  | _ => rfl

end Served

section Percent

/-- The printable characters that stand for themselves in a segment. -/
def keepSegment (c : Char) : Bool :=
  33 ≤ c.toNat ∧ c.toNat ≤ 126 ∧ c.toNat ∉ [34, 35, 37, 47, 60, 62, 63, 92, 94, 96, 123, 125]

/-- How a text is pushed on the path of a URL. -/
def segment (s : String) : String :=
  let kept := s.toList.filter fun c => c ≠ '\t' ∧ c ≠ '\n' ∧ c ≠ '\r'
  if kept = ['.'] ∨ kept = ['.', '.'] then ""
  else Percent.encode keepSegment (String.ofList kept)

theorem carries_percent :
    Carries segment Percent.decode Percent.formText Percent.readForm where
  undelimited s := by
    unfold segment
    dsimp only
    split_ifs
    · intro c hc
      cases hc
    · intro c hc
      rcases Percent.mem_encode hc with h | rfl | h
      · refine ⟨?_, ?_, ?_⟩ <;> rintro rfl <;> exact absurd h (by decide)
      · decide
      · refine ⟨?_, ?_, ?_⟩ <;> rintro rfl <;> exact absurd h (by decide)
  decode_encode s h := by
    obtain ⟨hne, hdot, hdots, hchars⟩ := h
    have hkept : s.toList.filter (fun c => c ≠ '\t' ∧ c ≠ '\n' ∧ c ≠ '\r') = s.toList :=
      List.filter_eq_self.mpr fun c hc => decide_eq_true (hchars c hc)
    have hplain : ¬ (s.toList = ['.'] ∨ s.toList = ['.', '.']) := by
      rintro (h | h)
      · exact hdot (String.toList_inj.mp h)
      · exact hdots (String.toList_inj.mp h)
    unfold segment
    dsimp only
    rw [hkept, if_neg hplain, String.ofList_toList]
    exact Percent.decode_encode (by decide) s
  decode_plain s h := Percent.decode_plain h
  render_nil := rfl
  render_fragment q h := by
    rw [Percent.formText, String.toList_intercalate] at h
    rcases of_mem_intercalate h with h | ⟨l, hl, h⟩
    · exact absurd h (by decide)
    · obtain ⟨t, ht, rfl⟩ := List.mem_map.mp hl
      obtain ⟨p, -, rfl⟩ := List.mem_map.mp ht
      have hname := Percent.not_mem_form (d := '#') (by decide) (by decide) p.1
      have hvalue := Percent.not_mem_form (d := '#') (by decide) (by decide) p.2
      simp [Percent.toList_pairText, hname, hvalue] at h
  parse_render := Percent.readForm_formText

def trader : Credentials where
  claims := .ok ⟨"trader", [.trade]⟩
  subject := ⟨true, 99, 60⟩
  peer := .ok ⟨true, 9, 60⟩
  nowSecs := 0

def createSlash : Call ℚ := .createStrike "A/B" "20240329" 100

theorem createSlash_plain : createSlash.Plain where
  texts s hs := by
    have hargs : s = "A/B" ∨ s = "20240329" := by simpa [createSlash, Call.args] using hs
    rcases hargs with rfl | rfl <;> exact ⟨by decide, by decide, by decide, by simp⟩
  free w hw := absurd hw List.not_mem_nil
  parameters r h := by simp [createSlash] at h
  price r h := by simp [createSlash] at h

end Percent
end OrderbookClient
end OptionChainBackend
