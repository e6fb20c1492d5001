import OptionChainBackend.Auth.Access
import OptionChainBackend.Auth.Sequential
import OptionChainBackend.Auth.SlidingWindow
import OptionChainBackend.Auth.Tokens

/-!
The middleware and the token endpoint together, over any traffic. Nobody gets past the middleware
without a token that was issued for it, and guesses at the secret are counted by the address they
come from.
-/
namespace OptionChainBackend
namespace Auth
open Foundation

/-- How a request got past the middleware. -/
inductive Pass where
  | health
  | issue (key : String)
  | token (token : String) (claims : TokenClaims)
  deriving DecidableEq, Repr

/-- A request that got past the middleware, and what the token endpoint answered it. -/
structure Visit where
  request : Incoming
  body : Option TokenRequest
  nowMs : ℕ
  pass : Pass
  answer : Option (Except ApiError (TokenResponse × TokenClaims))

/-- `log` is what the limiter decided, `offline` the tokens the operator signed on the command line,
`clock` the latest time read. -/
structure Gate where
  limiter : RateLimiter
  log : List Decided
  visits : List Visit
  offline : List (String × TokenClaims)
  clock : ℕ

inductive GateMove where
  | arrive (r : Incoming) (body : Option TokenRequest) (nowMs : ℕ)
      (readings : ℕ → RateLimiter.Readings)
  | handle (i nowMs : ℕ) (sub : String)
  | mintOffline (nowSecs : ℕ) (sub : String) (permissions : List Permission) (ttlSecs : ℕ)
  | sweep (clock : ℕ)

namespace Gate
variable [Jwt] (cfg : AuthConfig) (rfc3339 : ℕ → Option String)

def new : Gate := ⟨.new, [], [], [], 0⟩

/-- A check of the limiter. -/
def check (g : Gate) (key : String) (limit nowMs : ℕ) (readings : ℕ → RateLimiter.Readings) :
    RateLimitDecision × Gate :=
  let r : Request := ⟨key, limit, nowMs⟩
  let out := g.limiter.checkAndRecordStatus r readings
  (out.2, { g with limiter := out.1, log := g.log ++ [(r, out.2)] })

/-- `now_secs` of the middleware. -/
def secsUp (nowMs : ℕ) : ℕ := (nowMs + 999) / 1000

/-- `auth_middleware`, up to the call of the handler. -/
def middleware (g : Gate) (r : Incoming) (nowMs : ℕ) (readings : ℕ → RateLimiter.Readings) :
    Except ApiError Pass × Gate :=
  if r.path = healthPath then (.ok .health, g)
  else if r.method = .post ∧ r.path = tokenPath then
    match tokenRateLimitKey r cfg.trustProxy with
    | .error e => (.error e, g)
    | .ok key =>
      let (decision, g) := g.check key tokenIssueRateLimit nowMs readings
      if decision.allowed then (.ok (.issue key), g)
      else (.error (rateLimited tokenIssueRateLimit (secsUp nowMs) decision), g)
  else match extractToken r with
    | none => (.error (.unauthorized "missing authentication token"), g)
    | some token =>
      match verifyToken cfg (nowMs / 1000) token with
      | .error e => (.error e, g)
      | .ok claims =>
        let (decision, g) := g.check claims.sub defaultRateLimit nowMs readings
        if !decision.allowed then
          (.error (rateLimited defaultRateLimit (secsUp nowMs) decision), g)
        else if claims.hasPermission (requiredPermission r.method r.path) then
          (.ok (.token token claims), g)
        else (.error (.forbidden
          ("requires " ++ permissionName (requiredPermission r.method r.path) ++ " permission")), g)

def arrive (g : Gate) (r : Incoming) (body : Option TokenRequest) (nowMs : ℕ)
    (readings : ℕ → RateLimiter.Readings) : Gate :=
  match g.middleware cfg r nowMs readings with
  | (.ok pass, g) => { g with visits := g.visits ++ [⟨r, body, nowMs, pass, none⟩], clock := nowMs }
  | (.error _, g) => { g with clock := nowMs }

/-- The handler of the token endpoint runs for a visit. -/
def answered (v : Visit) (nowMs : ℕ) (sub : String) : Visit :=
  match v.pass, v.body, v.answer with
  | .issue _, some request, none =>
    { v with answer := some (issueToken cfg rfc3339 (nowMs / 1000) sub request) }
  | _, _, _ => v

def step (g : Gate) : GateMove → Gate
  | .arrive r body nowMs readings => g.arrive cfg r body nowMs readings
  | .handle i nowMs sub =>
    match g.visits[i]? with
    | none => g
    | some v => { g with visits := g.visits.set i (answered cfg rfc3339 v nowMs sub) }
  | .mintOffline nowSecs sub permissions ttlSecs =>
    match mintToken cfg nowSecs sub permissions ttlSecs with
    | .ok minted => { g with offline := minted :: g.offline }
    | .error _ => g
  | .sweep clock => { g with limiter := (g.limiter.sweepExpired clock).1, clock := clock }

/-- What the middleware learns of a request. -/
def credentials (g : Gate) (r : Incoming) (nowMs : ℕ) (readings : ℕ → RateLimiter.Readings) :
    Credentials :=
  let claims : Except ApiError TokenClaims :=
    match extractToken r with
    | none => .error (.unauthorized "missing authentication token")
    | some token => verifyToken cfg (nowMs / 1000) token
  { claims := claims.map TokenClaims.toClaims
    subject := (g.check (claims.toOption.elim "" fun c => c.sub) defaultRateLimit nowMs readings).1
    peer := (tokenRateLimitKey r cfg.trustProxy).map fun key =>
      (g.check key tokenIssueRateLimit nowMs readings).1
    nowSecs := secsUp nowMs }

/-- The middleware with the limiter it reads is the middleware on what it learns. -/
theorem middleware_eq (g : Gate) (r : Incoming) (nowMs : ℕ)
    (readings : ℕ → RateLimiter.Readings) :
    (g.middleware cfg r nowMs readings).1.map (fun _ => ()) =
      authMiddleware (g.credentials cfg r nowMs readings) r.method r.path := by
  by_cases hhealth : r.path = healthPath
  · simp [middleware, authMiddleware, hhealth, Except.map]
  unfold middleware authMiddleware credentials
  rw [if_neg hhealth, if_neg hhealth]
  by_cases htoken : r.method = .post ∧ r.path = tokenPath
  · rw [if_pos htoken, if_pos htoken]
    cases tokenRateLimitKey r cfg.trustProxy with
    | error e => rfl
    | ok key =>
      cases hallowed : (g.check key tokenIssueRateLimit nowMs readings).1.allowed <;>
        simp [Except.map, bind, Except.bind, hallowed]
  · rw [if_neg htoken, if_neg htoken]
    cases extractToken r with
    | none => rfl
    | some token =>
      have hcases : (∃ e, verifyToken cfg (nowMs / 1000) token = .error e) ∨
          ∃ claims, verifyToken cfg (nowMs / 1000) token = .ok claims := by
        cases verifyToken cfg (nowMs / 1000) token <;> simp
      rcases hcases with ⟨e, hverify⟩ | ⟨claims, hverify⟩
      · simp [Except.map, bind, Except.bind, hverify]
      · cases hallowed : (g.check claims.sub defaultRateLimit nowMs readings).1.allowed <;>
          cases hpermission : claims.hasPermission (requiredPermission r.method r.path) <;>
            simp [Except.map, bind, Except.bind, Except.toOption, hverify, hallowed, hpermission]

/-- What the middleware can do with a request, and to the gate. -/
inductive Through (g : Gate) (r : Incoming) (nowMs : ℕ) (readings : ℕ → RateLimiter.Readings) :
    Except ApiError Pass → Gate → Prop
  | health (hpath : r.path = healthPath) : Through g r nowMs readings (.ok .health) g
  | refused (e : ApiError) : Through g r nowMs readings (.error e) g
  | issue {key : String} (hroute : r.method = .post ∧ r.path = tokenPath)
      (hkey : tokenRateLimitKey r cfg.trustProxy = .ok key)
      (hallowed : (g.check key tokenIssueRateLimit nowMs readings).1.allowed = true) :
      Through g r nowMs readings (.ok (.issue key))
        (g.check key tokenIssueRateLimit nowMs readings).2
  | issueLimited {key : String} (e : ApiError)
      (hkey : tokenRateLimitKey r cfg.trustProxy = .ok key)
      (hallowed : (g.check key tokenIssueRateLimit nowMs readings).1.allowed = false) :
      Through g r nowMs readings (.error e) (g.check key tokenIssueRateLimit nowMs readings).2
  | token {token : String} {claims : TokenClaims}
      (hroute : ¬ (r.method = .post ∧ r.path = tokenPath)) (htoken : extractToken r = some token)
      (hverify : verifyToken cfg (nowMs / 1000) token = .ok claims)
      (hpermission : claims.hasPermission (requiredPermission r.method r.path) = true) :
      Through g r nowMs readings (.ok (.token token claims))
        (g.check claims.sub defaultRateLimit nowMs readings).2
  | tokenRefused {token : String} {claims : TokenClaims} (e : ApiError)
      (htoken : extractToken r = some token)
      (hverify : verifyToken cfg (nowMs / 1000) token = .ok claims) :
      Through g r nowMs readings (.error e)
        (g.check claims.sub defaultRateLimit nowMs readings).2

theorem middleware_through (g : Gate) (r : Incoming) (nowMs : ℕ)
    (readings : ℕ → RateLimiter.Readings) :
    Through cfg g r nowMs readings (g.middleware cfg r nowMs readings).1
      (g.middleware cfg r nowMs readings).2 := by
  unfold middleware
  split
  · exact .health ‹_›
  · split
    · rename_i hroute
      split
      · exact .refused _
      · rename_i key hkey
        dsimp only
        split
        · exact .issue hroute hkey ‹_›
        · exact .issueLimited _ hkey (Bool.eq_false_iff.mpr ‹_›)
    · rename_i hroute
      split
      · exact .refused _
      · rename_i token htoken
        split
        · exact .refused _
        · rename_i claims hverify
          dsimp only
          split
          · exact .tokenRefused _ htoken hverify
          · split
            · exact .token hroute htoken hverify ‹_›
            · exact .tokenRefused _ htoken hverify

section Reader

def readerConfig : AuthConfig := ⟨"backend", 3600, some "open", false⟩

def readerClaims : TokenClaims := ⟨⟨"3f2b", [.read]⟩, "backend", 0, 3600⟩

def readerSecret : TokenRequest := ⟨"open", [.read], none⟩

def askingToken : Incoming := ⟨.post, tokenPath, none, none, none, none, some "10.0.0.1"⟩

def listing : Incoming :=
  ⟨.get, "/api/v1/underlyings", none, none, none, some "token=a.b.c", some "10.0.0.1"⟩

/-- A client asks for a token, gets it, and lists the underlyings with it. -/
def readerMoves : List GateMove :=
  [.arrive askingToken (some readerSecret) 0 fun _ => ⟨0, 0, fun _ => []⟩, .handle 0 0 "3f2b",
    .arrive listing none 1000 fun _ => ⟨0, 0, fun _ => []⟩]

def readerGate : Gate :=
  letI := oneToken "a.b.c" readerClaims
  readerMoves.foldl (Gate.step readerConfig fun _ => some "") .new

end Reader

section Tracing
variable {cfg rfc3339} {g : Gate} {v w : Visit} {j : ℕ}

/-- The token was handed out with these claims, before visit `j`. -/
def HandedOut (g : Gate) (j : ℕ) (token : String) (claims : TokenClaims) : Prop :=
  (token, claims) ∈ g.offline ∨ ∃ i w response, i < j ∧ g.visits[i]? = some w ∧
    w.answer = some (.ok (response, claims)) ∧ response.token = token

/-- Nobody presents a token that is signed with the server's key unless it was handed out. -/
def Unforged (cfg : AuthConfig) (g : Gate) : GateMove → Prop
  | .arrive r _ nowMs _ => ∀ token claims, extractToken r = some token →
      Jwt.decode cfg.validation (nowMs / 1000) token = .ok claims →
      g.HandedOut g.visits.length token claims
  | _ => True

/-- Why visit `j` got past the middleware. -/
def Justified (g : Gate) (j : ℕ) (v : Visit) : Prop :=
  match v.pass with
  | .health => v.request.path = healthPath
  | .issue _ => v.request.method = .post ∧ v.request.path = tokenPath
  | .token token claims => extractToken v.request = some token ∧
      v.nowMs / 1000 ≤ claims.exp + clockSkewLeewaySecs ∧
      claims.hasPermission (requiredPermission v.request.method v.request.path) = true ∧
      g.HandedOut j token claims

/-- Why a visit was answered with a token. -/
def Earned (cfg : AuthConfig) (w : Visit) : Prop :=
  ∀ response claims, w.answer = some (.ok (response, claims)) →
    ∃ key b, w.pass = .issue key ∧ w.body = some b ∧ cfg.bootstrapSecret = some b.secret ∧
      claims.permissions = b.permissions

structure Traced (cfg : AuthConfig) (g : Gate) : Prop where
  passed : ∀ j v, g.visits[j]? = some v → g.Justified j v
  earned : ∀ w ∈ g.visits, Earned cfg w

theorem answered_same (cfg : AuthConfig) (rfc3339 : ℕ → Option String) (v : Visit) (nowMs : ℕ) (sub : String) :
    (answered cfg rfc3339 v nowMs sub).request = v.request ∧
      (answered cfg rfc3339 v nowMs sub).nowMs = v.nowMs ∧
      (answered cfg rfc3339 v nowMs sub).pass = v.pass ∧
      ∀ out, v.answer = some out → (answered cfg rfc3339 v nowMs sub).answer = some out := by
  unfold answered
  split
  · rename_i hnone
    exact ⟨rfl, rfl, rfl, fun out hout => by rw [hnone] at hout; cases hout⟩
  · exact ⟨rfl, rfl, rfl, fun _ hout => hout⟩

theorem Earned.answered (h : Earned cfg v) (nowMs : ℕ) (sub : String) :
    Earned cfg (answered cfg rfc3339 v nowMs sub) := by
  unfold Gate.answered
  split
  · rename_i key request hpass hbody hnone
    intro response claims hout
    obtain ⟨hsecret, -, hclaims, -⟩ := issueToken_ok (Option.some.inj hout)
    exact ⟨key, request, hpass, hbody, hsecret, by rw [hclaims]⟩
  · exact h

omit [Jwt] in
theorem HandedOut.mono {g' : Gate} {token : String} {claims : TokenClaims}
    (h : g.HandedOut j token claims) (ho : ∀ e ∈ g.offline, e ∈ g'.offline)
    (hv : ∀ (i : ℕ) w, g.visits[i]? = some w → ∃ w', g'.visits[i]? = some w' ∧
      ∀ out, w.answer = some out → w'.answer = some out) : g'.HandedOut j token claims := by
  rcases h with h | ⟨i, w, response, hi, hw, hout, htoken⟩
  · exact .inl (ho _ h)
  · obtain ⟨w', hw', hanswer⟩ := hv i w hw
    exact .inr ⟨i, w', response, hi, hw', hanswer _ hout, htoken⟩

omit [Jwt] in
theorem Justified.mono {g' : Gate} {v' : Visit} (h : g.Justified j v)
    (hr : v'.request = v.request) (hn : v'.nowMs = v.nowMs) (hp : v'.pass = v.pass)
    (ho : ∀ e ∈ g.offline, e ∈ g'.offline)
    (hv : ∀ (i : ℕ) w, g.visits[i]? = some w → ∃ w', g'.visits[i]? = some w' ∧
      ∀ out, w.answer = some out → w'.answer = some out) : g'.Justified j v' := by
  unfold Justified at h ⊢
  rw [hp, hr, hn]
  split
  · rename_i hpass
    simpa only [hpass] using h
  · rename_i key hpass
    simpa only [hpass] using h
  · rename_i token claims hpass
    simp only [hpass] at h
    exact ⟨h.1, h.2.1, h.2.2.1, h.2.2.2.mono ho hv⟩

omit [Jwt] in
theorem Traced.same {g' : Gate} (h : Traced cfg g) (hv : g'.visits = g.visits)
    (ho : ∀ e ∈ g.offline, e ∈ g'.offline) : Traced cfg g' := by
  refine ⟨fun j v hj => ?_, hv ▸ h.earned⟩
  rw [hv] at hj
  exact (h.passed j v hj).mono rfl rfl rfl ho fun i w hw => ⟨w, hv ▸ hw, fun _ hout => hout⟩

omit [Jwt] in
theorem Traced.entered {g' : Gate} (h : Traced cfg g) (hv : g'.visits = g.visits ++ [v])
    (ho : g'.offline = g.offline) (hnone : v.answer = none)
    (hj : g'.Justified g.visits.length v) : Traced cfg g' := by
  have hkeep : ∀ (i : ℕ) w, g.visits[i]? = some w → ∃ w', g'.visits[i]? = some w' ∧
      ∀ out, w.answer = some out → w'.answer = some out := by
    intro i w hw
    refine ⟨w, ?_, fun _ hout => hout⟩
    rw [hv, List.getElem?_append_left (List.getElem?_eq_some_iff.mp hw).1]
    exact hw
  refine ⟨fun j u hu => ?_, fun w hw => ?_⟩
  · rw [hv, List.getElem?_append] at hu
    split_ifs at hu with hlt
    · exact (h.passed j u hu).mono rfl rfl rfl (ho ▸ fun _ he => he) hkeep
    · obtain ⟨hindex, rfl⟩ := List.getElem?_eq_some_iff.mp hu
      simp only [List.length_singleton, Nat.lt_one_iff] at hindex
      have hj' : j = g.visits.length := by omega
      subst hj'
      simpa using hj
  · rw [hv] at hw
    rcases List.mem_append.mp hw with hw | hw
    · exact h.earned w hw
    · obtain rfl := List.mem_singleton.mp hw
      intro response claims hout
      rw [hnone] at hout
      cases hout

theorem Traced.step [LawfulJwt] (h : Traced cfg g) {m : GateMove}
    (hm : Unforged cfg g m) : Traced cfg (g.step cfg rfc3339 m) := by
  cases m with
  | arrive r body nowMs readings =>
    have hthrough := middleware_through cfg g r nowMs readings
    change Traced cfg (g.arrive cfg r body nowMs readings)
    unfold arrive
    generalize g.middleware cfg r nowMs readings = out at hthrough
    obtain ⟨res, g'⟩ := out
    dsimp only at hthrough
    cases hthrough with
    | health hpath => exact h.entered (v := ⟨r, body, nowMs, .health, none⟩) rfl rfl rfl hpath
    | refused e => exact h.same rfl fun _ he => he
    | @issue key hroute hkey hallowed =>
      exact h.entered (v := ⟨r, body, nowMs, .issue key, none⟩) rfl rfl rfl hroute
    | issueLimited e hkey hallowed => exact h.same rfl fun _ he => he
    | @token token claims _ htoken hverify hpermission =>
      have hdecode := verifyToken_ok hverify
      refine h.entered (v := ⟨r, body, nowMs, .token token claims, none⟩) rfl rfl rfl
        ⟨htoken, (LawfulJwt.valid hdecode).1, hpermission, ?_⟩
      refine (hm token claims htoken hdecode).mono (fun _ he => he) fun i w hw => ?_
      refine ⟨w, ?_, fun _ hout => hout⟩
      exact (List.getElem?_append_left (List.getElem?_eq_some_iff.mp hw).1).trans hw
    | tokenRefused e htoken hverify => exact h.same rfl fun _ he => he
  | handle i nowMs sub =>
    unfold Gate.step
    cases hi : g.visits[i]? with
    | none => simpa only [hi] using h
    | some v =>
      simp only [hi]
      obtain ⟨hrequest, hnow, hpass, hanswer⟩ :=
        answered_same cfg rfc3339 v nowMs sub
      have hlt := (List.getElem?_eq_some_iff.mp hi).1
      have hkeep : ∀ (k : ℕ) w, g.visits[k]? = some w →
          ∃ w', (g.visits.set i (answered cfg rfc3339 v nowMs sub))[k]? = some w' ∧
            ∀ out, w.answer = some out → w'.answer = some out := by
        intro k w hw
        by_cases hk : i = k
        · subst hk
          rw [hi] at hw
          obtain rfl := Option.some.inj hw
          exact ⟨_, List.getElem?_set_self hlt, hanswer⟩
        · exact ⟨w, (List.getElem?_set_ne hk).trans hw, fun _ hout => hout⟩
      refine ⟨fun k u hu => ?_, fun w hw => ?_⟩
      · by_cases hk : i = k
        · subst hk
          obtain rfl := Option.some.inj ((List.getElem?_set_self hlt).symm.trans hu)
          exact (h.passed i v hi).mono hrequest hnow hpass (fun _ he => he) hkeep
        · exact (h.passed k u ((List.getElem?_set_ne hk).symm.trans hu)).mono rfl rfl rfl
            (fun _ he => he) hkeep
      · rcases List.mem_or_eq_of_mem_set hw with hw | rfl
        · exact h.earned w hw
        · exact (h.earned v (List.mem_of_getElem? hi)).answered nowMs sub
  | mintOffline nowSecs sub permissions ttlSecs =>
    simp only [Gate.step]
    cases mintToken cfg nowSecs sub permissions ttlSecs with
    | ok minted => exact h.same rfl fun _ he => List.mem_cons_of_mem _ he
    | error e => exact h
  | sweep clock => exact h.same rfl fun _ he => he

theorem reaches_traced [LawfulJwt]
    (h : Reaches (· = new) (Gate.step cfg rfc3339) (Unforged cfg) g) : Traced cfg g := by
  induction h with
  | start h =>
    subst h
    refine ⟨fun j v hj => ?_, fun w hw => absurd hw List.not_mem_nil⟩
    cases (List.getElem?_nil (i := j)).symm.trans hj
  | next _ hok ih => exact ih.step hok

omit [Jwt] in
theorem readerMoves_unforged : letI := oneToken "a.b.c" readerClaims
    Allowed (Gate.step readerConfig fun _ => some "") (Unforged readerConfig) .new readerMoves := by
  have hgiven : extractToken listing = some "a.b.c" := by decide +kernel
  refine ⟨?_, trivial, ?_, trivial⟩
  · intro token claims htoken
    cases htoken
  · intro token claims htoken hdecode
    obtain rfl := Option.some.inj (hgiven.symm.trans htoken)
    obtain rfl : readerClaims = claims := Except.ok.inj hdecode
    exact .inr ⟨0, _, _, by decide, rfl, rfl, rfl⟩

end Tracing

end Gate
end Auth
end OptionChainBackend
