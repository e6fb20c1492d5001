import OptionChainBackend.Auth.Privileges

/-!
Who reaches which handler. The permission asked for is read off the path; on every path of the
route table it is the one the handler calls for.
-/
namespace OptionChainBackend
namespace Auth
open Foundation Foundation.Routing Upstream MarketMaker AppState

/-- The route lies in the subtree `/api/v1/<w>`. -/
def Route.under (r : Route) (w : Word) : Bool :=
  r.words.take 4 = [some .root, some .api, some .v1, some w]

def Route.restricted (r : Route) : Bool := r.under .controls || r.under .admin

section Table

/-- What the table has to say of each handler for the middleware to stop whom it should. -/
theorem handlers_guarded : ∀ r ∈ routes, ∀ e ∈ r.methods,
    (e.2.level = .admin →
      r.restricted = true ∨ e.1 = .delete ∧ r.words = underlyingPath []) ∧
    (e.2.level = .trade → e.1 ≠ .get ∧ e.1 ≠ .head ∧ e.1 ≠ .options) := by
  decide

/-- The fourth piece is fixed, and it alone tells a restricted subtree. -/
theorem fourth_fixed : ∀ r ∈ routes, r.words[3]? ≠ some none ∧
    ∀ w ∈ [Word.controls, .admin], r.words[3]? = some (some w) → r.restricted = true := by
  decide

theorem short_read : ∀ r ∈ routes, r.words.length = 2 → ∀ e ∈ r.methods, e.2.level = .read := by
  decide

theorem auth_read : ∀ r ∈ routes, r.words[3]? = some (some .auth) →
    ∀ e ∈ r.methods, e.2.level = .read := by
  decide

theorem routeOf_fits {path : String} {r : Route} (h : routeOf path = some r) :
    r ∈ routes ∧ Fits r.pattern (pieces path) := by
  obtain ⟨p, hp, hfits⟩ := find_fits h
  obtain ⟨r', hr', he⟩ := List.mem_map.mp hp
  obtain ⟨rfl, rfl⟩ := Prod.mk.inj he
  exact ⟨hr', hfits⟩

theorem handler_mem {r : Route} {m : Method} {h : Handler} (hh : r.handler m = some h) :
    ∃ e ∈ r.methods, e.2 = h ∧ (e.1 = m ∨ m = .head ∧ e.1 = .get) := by
  have hmem : ∀ {m' : Method}, r.methods.lookup m' = some h → (m', h) ∈ r.methods := by
    intro m' hl
    obtain ⟨l₁, l₂, he, -⟩ := List.lookup_eq_some_iff.mp hl
    rw [he]
    simp
  unfold Route.handler at hh
  split at hh
  · rename_i hl
    obtain rfl := Option.some.inj hh
    exact ⟨_, hmem hl, rfl, .inl rfl⟩
  · split_ifs at hh with hm
    exact ⟨_, hmem hh, rfl, .inr ⟨hm, rfl⟩⟩

/-- No route answers HEAD otherwise than GET. -/
theorem handler_head : ∀ r ∈ routes, ∀ h ∈ r.handler .get, r.handler .head = some h := by
  decide

end Table

section Words

/-- No word begins like the name of a restricted subtree. -/
theorem Word.eq_of_prefix {w v : Word} (hw : w = .controls ∨ w = .admin)
    (h : w.text.toList <+: v.text.toList) : v = w := by
  rcases hw with rfl | rfl <;> cases v <;> first | rfl | simp [Word.text] at h

theorem Word.eq_auth {w : Word} (h : w.text.toList = "auth".toList) : w = .auth := by
  cases w <;> first | rfl | simp [Word.text] at h

variable {r : Route} {i : ℕ} {l : List Char}

/-- A fixed piece of a path that fits a route is one of the route's words. -/
theorem Route.word_of_fits {ls : List (List Char)} (hfits : Fits r.pattern ls)
    (hl : ls[i]? = some l) :
    (∃ w, r.words[i]? = some (some w) ∧ w.text.toList = l) ∨ r.words[i]? = some none := by
  have hpiece := hfits.getElem? hl
  simp only [Route.pattern, List.getElem?_map, Option.map_eq_some_iff] at hpiece
  rcases hpiece with ⟨piece, hw, hstatic⟩ | ⟨piece, hw, hparam⟩
  · cases piece with
    | none => cases hstatic
    | some w => exact .inl ⟨w, hw, Segment.static.inj hstatic⟩
  · cases piece with
    | none => exact .inr hw
    | some w => cases hparam

end Words

section Paths
variable {path : String} {r : Route}

theorem controls_text : "/api/v1/controls" = "/api/v1/" ++ Word.controls.text := rfl

theorem admin_text : "/api/v1/admin" = "/api/v1/" ++ Word.admin.text := rfl

/-- A path begins with a subtree when its pieces do, the last of them as far as it goes. -/
theorem startsWith_iff {name : String} (hname : '/' ∉ name.toList) :
    startsWith path ("/api/v1/" ++ name) = true ↔ ∃ l rest,
      pieces path = [[], "api".toList, "v1".toList] ++ l :: rest ∧ name.toList <+: l := by
  have hstart : ("/api/v1/" ++ name).toList =
      ['/'].intercalate ([[], "api".toList, "v1".toList] ++ [name.toList]) := by
    simp [List.intercalate_cons_cons]
  unfold startsWith
  rw [List.isPrefixOf_iff_prefix, hstart]
  exact prefix_iff (by decide) hname

theorem under_startsWith {w : Word} (hslash : '/' ∉ w.text.toList)
    (hfits : Fits r.pattern (pieces path)) (h : r.under w = true) :
    startsWith path ("/api/v1/" ++ w.text) = true := by
  have hwords : r.words = [some .root, some .api, some .v1, some w] ++ r.words.drop 4 := by
    rw [← of_decide_eq_true h, List.take_append_drop]
  rw [startsWith_iff hslash]
  rw [Route.pattern, hwords] at hfits
  obtain ⟨ls₁, hpieces, h₁⟩ := hfits.of_static
  obtain ⟨ls₂, rfl, h₂⟩ := h₁.of_static
  obtain ⟨ls₃, rfl, h₃⟩ := h₂.of_static
  obtain ⟨ls₄, rfl, -⟩ := h₃.of_static
  exact ⟨_, _, hpieces, List.prefix_rfl⟩

/-- No path of an open route begins like a restricted subtree. -/
theorem not_startsWith {w : Word} (hw : w = .controls ∨ w = .admin) (hslash : '/' ∉ w.text.toList)
    (hr : r ∈ routes) (hfits : Fits r.pattern (pieces path)) (hopen : r.restricted = false) :
    startsWith path ("/api/v1/" ++ w.text) = false := by
  rw [← Bool.not_eq_true, startsWith_iff hslash]
  rintro ⟨l, rest, hpieces, hpre⟩
  obtain ⟨hfixed, hfourth⟩ := fourth_fixed r hr
  have hl : (pieces path)[3]? = some l := by simp [hpieces]
  rcases Route.word_of_fits hfits hl with ⟨v, hv, rfl⟩ | hparam
  · obtain rfl := Word.eq_of_prefix hw hpre
    have hrestricted := hfourth v (by simpa using hw) hv
    rw [hopen] at hrestricted
    cases hrestricted
  · exact hfixed hparam

/-- A route outside the restricted subtrees asks for Read on GET and HEAD. -/
theorem requiredPermission_open (hr : r ∈ routes) (hfits : Fits r.pattern (pieces path))
    (hopen : r.restricted = false) {m : Method} (hm : m = .get ∨ m = .head) :
    requiredPermission m path = .read := by
  have hcontrols := not_startsWith (.inl rfl) (by decide) hr hfits hopen
  have hadmin := not_startsWith (.inr rfl) (by decide) hr hfits hopen
  unfold requiredPermission
  rw [controls_text, admin_text, hcontrols, hadmin]
  rcases hm with rfl | rfl <;> rfl

/-- The path of an underlying, and nothing deeper. -/
theorem isUnderlyingRoot_of_fits (hroot : r.words = underlyingPath [])
    (hfits : Fits r.pattern (pieces path)) : isUnderlyingRoot path = true := by
  have hback : ['/'].intercalate (pieces path) = path.toList := List.intercalate_splitOn _
  have hslash : ∀ l ∈ pieces path, '/' ∉ l := fun l hl => not_mem_piece hl
  rw [Route.pattern, hroot] at hfits
  obtain ⟨ls₁, hpieces, h₁⟩ := hfits.of_static
  obtain ⟨ls₂, rfl, h₂⟩ := h₁.of_static
  obtain ⟨ls₃, rfl, h₃⟩ := h₂.of_static
  obtain ⟨ls₄, rfl, h₄⟩ := h₃.of_static
  obtain ⟨u, ls₅, rfl, hu, h₅⟩ := h₄.of_param
  obtain rfl := h₅.of_nil
  have hpieces : pieces path = [[], "api".toList, "v1".toList, "underlyings".toList, u] := hpieces
  rw [hpieces] at hback hslash
  have hlast : ∀ hne : u ≠ [], ¬ u.getLast hne = '/' := by
    intro hne he
    exact hslash u (by simp) (he ▸ List.getLast_mem hne)
  have htrim : trimSlashes path.toList =
      ['/'].intercalate ["api".toList, "v1".toList, "underlyings".toList, u] := by
    have hpath : path.toList = '/' :: ("api/v1/underlyings/".toList ++ u) := by
      rw [← hback]
      simp [List.intercalate_cons_cons]
    have hfront : (path.toList.dropWhile (· = '/')) = "api/v1/underlyings/".toList ++ u := by
      rw [hpath]
      simp
    have hend : ("api/v1/underlyings/".toList ++ u).rdropWhile (· = '/') =
        "api/v1/underlyings/".toList ++ u := by
      rw [List.rdropWhile_eq_self_iff]
      intro hne
      rw [List.getLast_append_of_ne_nil hne hu]
      simpa using hlast hu
    rw [trimSlashes, hfront, hend]
    simp [List.intercalate_cons_cons]
  unfold isUnderlyingRoot
  rw [htrim, List.splitOn_intercalate '/' (fun l hl => hslash l (List.mem_cons_of_mem _ hl))
    (by simp)]
  simp [hu]

/-- What the middleware asks for on a path is what the handler of its route calls for, or more. -/
theorem requiredPermission_admin {m : Method} {h : Handler} (hroute : routeOf path = some r)
    (hh : r.handler m = some h) (hlevel : h.level = .admin) :
    requiredPermission m path = .admin := by
  obtain ⟨hr, hfits⟩ := routeOf_fits hroute
  obtain ⟨e, he, rfl, hm⟩ := handler_mem hh
  unfold requiredPermission
  rcases (handlers_guarded r hr e he).1 hlevel with hrestricted | ⟨hdelete, hroot⟩
  · rw [controls_text, admin_text, if_pos]
    unfold Route.restricted at hrestricted
    rw [Bool.or_eq_true] at hrestricted ⊢
    exact hrestricted.imp (under_startsWith (by decide) hfits) (under_startsWith (by decide) hfits)
  · have hm : m = .delete := by
      rcases hm with hm | ⟨-, hget⟩
      · exact hm.symm.trans hdelete
      · rw [hdelete] at hget
        cases hget
    subst hm
    simp [isUnderlyingRoot_of_fits hroot hfits]

theorem requiredPermission_trade {m : Method} {h : Handler} (hroute : routeOf path = some r)
    (hh : r.handler m = some h) (hlevel : h.level = .trade) :
    requiredPermission m path ≠ .read := by
  obtain ⟨hr, -⟩ := routeOf_fits hroute
  obtain ⟨e, he, rfl, hm⟩ := handler_mem hh
  obtain ⟨hget, hhead, hoptions⟩ := (handlers_guarded r hr e he).2 hlevel
  obtain rfl : m = e.1 := (hm.resolve_right fun h => hget h.2).symm
  unfold requiredPermission
  split_ifs
  · exact Permission.noConfusion
  · exact Permission.noConfusion
  · split
    · exact absurd ‹_› hget
    · exact absurd ‹_› hhead
    · exact absurd ‹_› hoptions
    · exact Permission.noConfusion

end Paths
section Reached
variable {k : Credentials} {claims : Claims} {m : Method} {path : String} {h : Handler}
  {params : List String}

/-- The two paths that need no token lead to handlers that read. -/
theorem exempt_read (hexempt : path = healthPath ∨ path = tokenPath) {r : Route}
    (hroute : routeOf path = some r) : ∀ e ∈ r.methods, e.2.level = .read := by
  obtain ⟨hr, hfits⟩ := routeOf_fits hroute
  rcases hexempt with rfl | rfl
  · have hlength : (pieces healthPath).length = 2 := by decide +kernel
    rw [← hfits.length_eq, Route.pattern, List.length_map] at hlength
    exact short_read r hr hlength
  · have hauth : (pieces tokenPath)[3]? = some "auth".toList := by decide +kernel
    rcases Route.word_of_fits hfits hauth with ⟨w, hw, htext⟩ | hparam
    · obtain rfl := Word.eq_auth htext
      exact auth_read r hr hw
    · exact absurd hparam (fourth_fixed r hr).1

/-- Elsewhere the middleware asks for a token, room under the limit, and the permission. -/
theorem authMiddleware_token (hk : k.claims = .ok claims) (hhealth : path ≠ healthPath)
    (htoken : ¬ (m = .post ∧ path = tokenPath)) : authMiddleware k m path = .ok () ↔
      k.subject.allowed = true ∧ claims.hasPermission (requiredPermission m path) = true := by
  unfold authMiddleware
  rw [if_neg hhealth, if_neg htoken, hk]
  simp only [bind, Except.bind]
  cases k.subject.allowed <;> cases claims.hasPermission (requiredPermission m path) <;> simp

theorem authMiddleware_ok (hk : k.claims = .ok claims) (h : authMiddleware k m path = .ok ()) :
    (path = healthPath ∨ path = tokenPath) ∨
      claims.hasPermission (requiredPermission m path) = true := by
  by_cases hhealth : path = healthPath
  · exact .inl (.inl hhealth)
  · by_cases htoken : m = .post ∧ path = tokenPath
    · exact .inl (.inr htoken.2)
    · exact .inr ((authMiddleware_token hk hhealth htoken).mp h).2

/-- A handler that is reached only reads, or its route asked for a permission the token has. -/
theorem reached_cases (hk : k.claims = .ok claims)
    (hreached : reached k m path = some (h, params)) :
    h.level = .read ∨ claims.hasPermission (requiredPermission m path) = true ∧
      ∃ r, routeOf path = some r ∧ r.handler m = some h := by
  unfold reached at hreached
  split at hreached
  · cases hreached
  · rename_i hok
    obtain ⟨r, hroute, hreached⟩ := Option.bind_eq_some_iff.mp hreached
    obtain ⟨h', hh, heq⟩ := Option.map_eq_some_iff.mp hreached
    obtain ⟨rfl, -⟩ := Prod.mk.inj heq
    rcases authMiddleware_ok hk hok with hexempt | hpermission
    · obtain ⟨e, he, rfl, -⟩ := handler_mem hh
      exact .inl (exempt_read hexempt hroute e he)
    · exact .inr ⟨hpermission, r, hroute, hh⟩

theorem reached_level_ne_admin (hadmin : .admin ∉ claims.permissions) (hk : k.claims = .ok claims)
    (hreached : reached k m path = some (h, params)) : h.level ≠ .admin := by
  intro hlevel
  rcases reached_cases hk hreached with hread | ⟨hpermission, r, hroute, hh⟩
  · rw [hlevel] at hread
    cases hread
  · rw [requiredPermission_admin hroute hh hlevel,
      Claims.hasPermission_of_not_admin hadmin] at hpermission
    exact hadmin hpermission

theorem reached_level_eq_read (hread : ∀ p ∈ claims.permissions, p = .read)
    (hk : k.claims = .ok claims) (hreached : reached k m path = some (h, params)) :
    h.level = .read := by
  have hadmin : .admin ∉ claims.permissions := fun hmem => Permission.noConfusion (hread _ hmem)
  rcases reached_cases hk hreached with hlevel | ⟨hpermission, r, hroute, hh⟩
  · exact hlevel
  · rw [Claims.hasPermission_of_not_admin hadmin] at hpermission
    cases hlevel : h.level with
    | read => rfl
    | trade => exact absurd (hread _ hpermission) (requiredPermission_trade hroute hh hlevel)
    | admin =>
      rw [requiredPermission_admin hroute hh hlevel] at hpermission
      exact absurd hpermission hadmin

/-- An open GET route lets a reading token through. -/
theorem reached_open (hk : k.claims = .ok claims) (hread : .read ∈ claims.permissions)
    (hallowed : k.subject.allowed = true) {r : Route} (hopen : r.restricted = false)
    (hroute : routeOf path = some r) (hm : m = .get ∨ m = .head) (hh : r.handler m = some h) :
    reached k m path = some (h, (values r.pattern (pieces path)).map String.ofList) := by
  obtain ⟨hr, hfits⟩ := routeOf_fits hroute
  have hpermission : claims.hasPermission (requiredPermission m path) = true := by
    rw [requiredPermission_open hr hfits hopen hm]
    simp [Claims.hasPermission, hread]
  have hok : authMiddleware k m path = .ok () := by
    have hpost : m ≠ .post := by rcases hm with rfl | rfl <;> exact Method.noConfusion
    by_cases hhealth : path = healthPath
    · simp [authMiddleware, hhealth]
    · rw [authMiddleware_token hk hhealth fun h => hpost h.1]
      exact ⟨hallowed, hpermission⟩
  unfold reached
  rw [hok]
  simp [hroute, hh]

/-- A path of the route. -/
def Route.sample (r : Route) : String :=
  String.ofList (['/'].intercalate (r.words.map fun
    | some w => w.text.toList
    | none => ['x']))

/-- What the sample path is cut into. -/
def Route.samplePieces (r : Route) : List (List Char) :=
  r.words.map fun
    | some w => w.text.toList
    | none => ['x']

theorem Word.slash_notMem (w : Word) : '/' ∉ w.text.toList := by
  cases w <;> decide

theorem pieces_sample {r : Route} (hwords : r.words ≠ []) : pieces r.sample = r.samplePieces := by
  have hslash : ∀ l ∈ r.samplePieces, '/' ∉ l := by
    intro l hl
    obtain ⟨w | w, -, rfl⟩ := List.mem_map.mp hl
    · decide
    · exact w.slash_notMem
  have hne : r.samplePieces ≠ [] := by simpa [Route.samplePieces] using hwords
  rw [pieces, Route.sample, String.toList_ofList]
  exact List.splitOn_intercalate '/' hslash hne

theorem find_samplePieces : ∀ r ∈ routes, r.restricted = false → (r.handler .get).isSome →
    r.words ≠ [] ∧ find r.samplePieces (routes.map fun r => (r.pattern, r)) = some r := by
  decide +kernel

theorem routeOf_sample : ∀ r ∈ routes, r.restricted = false → (r.handler .get).isSome →
    routeOf r.sample = some r := by
  intro r hr hopen hget
  obtain ⟨hwords, hfind⟩ := find_samplePieces r hr hopen hget
  rw [routeOf, pieces_sample hwords, hfind]

end Reached

section Messages
variable {B F : Type} [Upstream B] [Leveled B] [F64 F] (display : F → String)

/-- Without Admin a message moves the sequence counters at most. -/
theorem handleCommand_without_admin {permissions : List Permission}
    (hadmin : .admin ∉ permissions) (s : AppState B F) (c : Connection) (cmd : ClientCommand F) :
    ∃ f, (handleCommand display permissions s c cmd).1 = { s with toSubscriptions := f } := by
  unfold handleCommand
  split
  · unfold runSubscribe
    split
    · exact ⟨_, rfl⟩
    · exact ⟨s.toSubscriptions, rfl⟩
    · exact ⟨s.toSubscriptions, rfl⟩
  all_goals
    first
    | exact ⟨s.toSubscriptions, rfl⟩
    | rw [if_neg hadmin]
      exact ⟨s.toSubscriptions, rfl⟩

theorem handleClientMessage_without_admin (parse : String → Option (ClientCommand F))
    {permissions : List Permission} (hadmin : .admin ∉ permissions) (s : AppState B F)
    (c : Connection) (text : String) :
    ∃ f, (handleClientMessage display parse permissions s c text).1 =
      { s with toSubscriptions := f } := by
  unfold handleClientMessage
  split
  · exact handleCommand_without_admin display hadmin s c _
  · exact ⟨s.toSubscriptions, rfl⟩

end Messages

section Main
variable {B F Body : Type} [Upstream B] [Leveled B] [F64 F] (display : F → String)
  (ex : Extractors Body F) (parse : String → Option (ClientCommand F)) {k : Credentials}
  {claims : Claims}

/-- No request and no message without Admin touches the configuration or the stored snapshots,
removes an underlying or restores a book; with Read alone none touches orders, books or prices; and
Read alone opens every GET route outside the restricted subtrees. -/
theorem privileged_needs_admin (hk : k.claims = .ok claims)
    (hadmin : .admin ∉ claims.permissions) :
    (∀ (req : HttpRequest Body) (s : AppState B F),
      Unprivileged s (serve display ex k req s) ∧
      ∀ params, reached k req.method req.path ≠ some (.restoreSnapshot, params)) ∧
    (∀ text (s : AppState B F) c,
      Unprivileged s (handleClientMessage display parse claims.permissions s c text).1) ∧
    ((∀ p ∈ claims.permissions, p = .read) →
      (∀ m path h params, reached k m path = some (h, params) →
        ∀ (req : HttpRequest Body) (s : AppState B F), h.run display ex params req s = s) ∧
      ∀ text (s : AppState B F) c,
        let s' := (handleClientMessage display parse claims.permissions s c text).1
        s'.toDesk = s.toDesk ∧ s'.toMarketData = s.toMarketData ∧ s'.orders = s.orders) ∧
    (.read ∈ claims.permissions → k.subject.allowed = true →
      ∀ r ∈ routes, r.restricted = false → ∀ h, r.handler .get = some h →
        (∃ path, routeOf path = some r) ∧
        ∀ path, routeOf path = some r → ∀ m, m = .get ∨ m = .head →
          ∃ params, reached k m path = some (h, params)) := by
  refine ⟨fun req s => ⟨?_, ?_⟩, fun text s c => ?_, fun hread => ⟨?_, fun text s c => ?_⟩, ?_⟩
  · unfold serve
    split
    · exact .refl s
    · rename_i h params hreached
      exact run_unprivileged display ex (reached_level_ne_admin hadmin hk hreached) _ _ _
  · intro params hreached
    exact reached_level_ne_admin hadmin hk hreached rfl
  · obtain ⟨f, hf⟩ := handleClientMessage_without_admin display parse hadmin s c text
    rw [hf]
    exact ⟨rfl, rfl, fun _ h => h⟩
  · intro m path h params hreached req s
    exact run_of_read display ex (reached_level_eq_read hread hk hreached) params req s
  · obtain ⟨f, hf⟩ := handleClientMessage_without_admin display parse hadmin s c text
    dsimp only
    rw [hf]
    exact ⟨rfl, rfl, rfl⟩
  · intro hread hallowed r hr hopen h hh
    refine ⟨⟨r.sample, routeOf_sample r hr hopen (by rw [hh]; rfl)⟩, ?_⟩
    intro path hroute m hm
    have hhm : r.handler m = some h := by
      rcases hm with rfl | rfl
      · exact hh
      · exact handler_head r hr h hh
    exact ⟨_, reached_open hk hread hallowed hopen hroute hm hhm⟩

end Main

section Reader

/-- Nothing can be read from a body. -/
def noExtractors : Extractors Unit ℚ where
  decode := some
  addOrder _ := none
  marketOrder _ := none
  modifyOrder _ := none
  bulkOrder _ := none
  bulkCancel _ := none
  cancelAll _ := none
  parameters _ := none
  price _ := none

/-- A token with Read alone, and room under the limit. -/
def reader : Credentials where
  claims := .ok ⟨"reader", [.read]⟩
  subject := ⟨true, 99, 60⟩
  peer := .ok ⟨true, 9, 60⟩
  nowSecs := 0

def oneUnderlying : AppState ReferenceBook ℚ :=
  (AppState.new (flatQuoter 5)).createUnderlying "BTC"

theorem privileged_needs_admin_reader :
    Unprivileged oneUnderlying (serve toString noExtractors reader
      ⟨.delete, "/api/v1/underlyings/BTC", "", (), ""⟩ oneUnderlying) ∧
    ∃ params, reached reader .get "/ws" = some (.wsHandler, params) := by
  have hadmin : Permission.admin ∉ [Permission.read] := by decide
  have h := privileged_needs_admin (B := ReferenceBook) (F := ℚ) toString noExtractors
    (fun _ => none) (k := reader) rfl hadmin
  have hroute : routeOf "/ws" = some ⟨[some .root, some .ws], [(.get, .wsHandler)]⟩ := by
    decide +kernel
  have hr := (routeOf_fits hroute).1
  constructor
  · exact (h.1 ⟨.delete, "/api/v1/underlyings/BTC", "", (), ""⟩ oneUnderlying).1
  · exact (h.2.2.2 List.mem_cons_self rfl _ hr rfl .wsHandler rfl).2 _ hroute .get (.inl rfl)

end Reader
end Auth
end OptionChainBackend
