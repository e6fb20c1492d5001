import Mathlib.Data.List.DropRight
import OptionChainBackend.Auth.Routes

/-!
The tokens: how one is minted, checked and found in a request, the endpoint that issues them, and
the bucket that endpoint is limited by. Signing and reading a token are `jsonwebtoken`'s.
-/
namespace OptionChainBackend
namespace Auth
open Foundation

/-- `constant_time_eq`: a longer or shorter candidate differs from the start. -/
def constantTimeEq (secret candidate : List UInt8) : Bool :=
  secret.zipIdx.foldl (fun diff e => diff ||| (e.1 ^^^ (candidate[e.2]?.getD 0)))
    (if secret.length = candidate.length then 0 else 1) == 0

/-- `as_bytes`. -/
def bytesOf (s : String) : List UInt8 := s.toByteArray.data.toList

section Secrets
variable {ι : Type} {f : ι → UInt8}

/-- Differences that are put together show each of them. -/
theorem or_foldl_eq_zero (diff : UInt8) (l : List ι) :
    l.foldl (fun diff i => diff ||| f i) diff = 0 ↔ diff = 0 ∧ ∀ i ∈ l, f i = 0 := by
  induction l generalizing diff with
  | nil => simp
  | cons i l ih => simp [ih, UInt8.or_eq_zero_iff, and_assoc]

theorem constantTimeEq_iff (secret candidate : List UInt8) :
    constantTimeEq secret candidate = true ↔ secret = candidate := by
  unfold constantTimeEq
  rw [beq_iff_eq, or_foldl_eq_zero]
  constructor
  · rintro ⟨hlength, hbytes⟩
    have hlen : secret.length = candidate.length := by
      by_contra hne
      rw [if_neg hne] at hlength
      cases hlength
    apply List.ext_getElem hlen
    intro i hi hi'
    have hmem : (secret[i], i) ∈ secret.zipIdx := List.mk_mem_zipIdx_iff_getElem?.mpr (by simp [hi])
    have hbyte := hbytes _ hmem
    rw [UInt8.xor_eq_zero_iff] at hbyte
    simpa [hi'] using hbyte
  · rintro rfl
    refine ⟨if_pos rfl, ?_⟩
    rintro ⟨b, i⟩ hmem
    have hb := List.mk_mem_zipIdx_iff_getElem?.mp hmem
    simp [hb]

theorem bytesOf_injective : Function.Injective bytesOf := by
  intro s t h
  apply String.toByteArray_inj.mp
  exact ByteArray.ext (Array.toList_inj.mp h)

end Secrets

/-- `Claims` with the fields that only the check of a token reads. -/
structure TokenClaims extends Claims where
  iss : String
  iat : ℕ
  exp : ℕ
  deriving DecidableEq, Repr

inductive JwtErrorKind where
  | expiredSignature | invalidIssuer | invalidSignature | other
  deriving DecidableEq, Repr

/-- The rules of `jsonwebtoken::Validation` that `assemble` sets. -/
structure Validation where
  issuer : String
  leeway : ℕ
  deriving DecidableEq, Repr

/-- Signing with the private key, and reading with the certificate at a time in seconds. -/
class Jwt where
  encode : TokenClaims → Option String
  decode : Validation → ℕ → String → Except JwtErrorKind TokenClaims

/-- What is signed can be read until it expires, and only then: a token that is read satisfies the
rules, one that was signed for them is read, and one that expired is refused as such. -/
class LawfulJwt [Jwt] : Prop where
  valid : ∀ {v now token c}, Jwt.decode v now token = .ok c →
    now ≤ c.exp + v.leeway ∧ c.iss = v.issuer
  signed : ∀ {v now token c}, Jwt.encode c = some token → c.iss = v.issuer →
    now ≤ c.exp + v.leeway → Jwt.decode v now token = .ok c
  expired : ∀ {v now token c}, Jwt.encode c = some token → c.exp + v.leeway < now →
    Jwt.decode v now token = .error .expiredSignature

/-- A signer that has signed one token. -/
@[reducible] def oneToken (token : String) (signed : TokenClaims) : Jwt where
  encode c := if c = signed then some token else none
  decode v now t :=
    if t ≠ token then .error .other
    else if signed.exp + v.leeway < now then .error .expiredSignature
    else if signed.iss = v.issuer then .ok signed
    else .error .invalidIssuer

theorem lawful_oneToken (token : String) (signed : TokenClaims) :
    @LawfulJwt (oneToken token signed) := by
  let _ := oneToken token signed
  have hencode : ∀ {c t}, Jwt.encode c = some t → c = signed ∧ token = t := fun {c t} h => by
    change (if c = signed then some token else none) = some t at h
    simpa using h
  have hdecode : ∀ (v : Validation) now t, Jwt.decode v now t =
      if t ≠ token then .error .other
      else if signed.exp + v.leeway < now then .error .expiredSignature
      else if signed.iss = v.issuer then .ok signed
      else .error .invalidIssuer := fun _ _ _ => rfl
  refine ⟨fun {v now t c} h => ?_, fun {v now t c} h hiss hexp => ?_, fun {v now t c} h hexp => ?_⟩
  · rw [hdecode] at h
    split_ifs at h with htoken hexpired hissuer
    obtain rfl := Except.ok.inj h
    exact ⟨Nat.le_of_not_lt hexpired, hissuer⟩
  · obtain ⟨rfl, rfl⟩ := hencode h
    rw [hdecode]
    simp [hiss, Nat.not_lt.mpr hexp]
  · obtain ⟨rfl, rfl⟩ := hencode h
    rw [hdecode]
    simp [hexp]

def clockSkewLeewaySecs : ℕ := 60

/-- What `main` configures: `JwtAuth` with the bootstrap secret and the proxy flag. -/
structure AuthConfig where
  issuer : String
  defaultTtlSecs : ℕ
  bootstrapSecret : Option String
  trustProxy : Bool
  deriving DecidableEq, Repr

def AuthConfig.validation (cfg : AuthConfig) : Validation := ⟨cfg.issuer, clockSkewLeewaySecs⟩

structure TokenRequest where
  secret : String
  permissions : List Permission
  ttlSecs : Option ℕ
  deriving DecidableEq, Repr

structure TokenResponse where
  token : String
  expiresAt : String
  deriving DecidableEq, Repr

section Minting
variable [Jwt] (cfg : AuthConfig)

/-- `mint_token`, with the UUID it draws for `sub`. -/
def mintToken (nowSecs : ℕ) (sub : String) (permissions : List Permission) (ttlSecs : ℕ) :
    Except ApiError (String × TokenClaims) :=
  if nowSecs + ttlSecs < 2 ^ 64 then
    let claims : TokenClaims := ⟨⟨sub, permissions⟩, cfg.issuer, nowSecs, nowSecs + ttlSecs⟩
    match Jwt.encode claims with
    | some token => .ok (token, claims)
    | none => .error (.internal "failed to sign token")
  else .error (.invalidRequest "token ttl overflow")

def verifyToken (nowSecs : ℕ) (token : String) : Except ApiError TokenClaims :=
  match Jwt.decode cfg.validation nowSecs token with
  | .ok claims => .ok claims
  | .error .expiredSignature => .error (.unauthorized "expired token")
  | .error .invalidIssuer => .error (.unauthorized "invalid token issuer")
  | .error .invalidSignature => .error (.unauthorized "invalid token signature")
  | .error .other => .error (.unauthorized "invalid token")

/-- `issue_token`; `rfc3339` writes a time in seconds, when it is in the range of dates. -/
def issueToken (rfc3339 : ℕ → Option String) (nowSecs : ℕ) (sub : String) (request : TokenRequest) :
    Except ApiError (TokenResponse × TokenClaims) :=
  match cfg.bootstrapSecret with
  | none => .error (.forbidden "token issuance is disabled")
  | some expected =>
    if !constantTimeEq (bytesOf expected) (bytesOf request.secret) then
      .error (.unauthorized "invalid bootstrap secret")
    else if request.permissions.isEmpty then
      .error (.invalidRequest "permissions must not be empty")
    else do
      let (token, claims) ← mintToken cfg nowSecs sub request.permissions
        (request.ttlSecs.getD cfg.defaultTtlSecs)
      match rfc3339 claims.exp with
      | some expiresAt => return (⟨token, expiresAt⟩, claims)
      | none => throw (.internal "failed to format token expiry")

end Minting

/-- What the middleware reads of a request: a header when it is text, and the address of the peer
when the service was built to know it. -/
structure Incoming where
  method : Method
  path : String
  authorization : Option String
  forwardedFor : Option String
  realIp : Option String
  query : Option String
  peer : Option String
  deriving DecidableEq, Repr

section Reading

/-- `trim`, on the text of a header. -/
def trimText (l : List Char) : List Char :=
  (l.dropWhile Char.isWhitespace).rdropWhile Char.isWhitespace

/-- `strip_prefix`. -/
def stripStart (start l : List Char) : Option (List Char) :=
  if start.isPrefixOf l then some (l.drop start.length) else none

def nonEmpty (l : List Char) : Option String := if l = [] then none else some (String.ofList l)

/-- `extract_token`: the header, or else the first non-empty `token=` of the query. -/
def extractToken (r : Incoming) : Option String :=
  let fromHeader := r.authorization.bind fun text =>
    (stripStart "Bearer ".toList text.toList).bind fun rest => nonEmpty (trimText rest)
  fromHeader.or (r.query.bind fun query =>
    (query.toList.splitOn '&').findSome? fun pair =>
      (stripStart "token=".toList pair).bind nonEmpty)

/-- `forwarded_ip`: the first hop, or else the real address. -/
def forwardedIp (r : Incoming) : Option String :=
  (r.forwardedFor.bind fun value =>
    (value.toList.splitOn ',').head?.bind fun first => nonEmpty (trimText first)).or
    (r.realIp.bind fun value => nonEmpty (trimText value.toList))

def peerKey (ip : String) : String := "token_issue:peer:" ++ ip

def tokenRateLimitKey (r : Incoming) (trustProxy : Bool) : Except ApiError String :=
  match (if trustProxy then forwardedIp r else none) with
  | some ip => .ok ("token_issue:fwd:" ++ ip)
  | none =>
    match r.peer with
    | some ip => .ok (peerKey ip)
    | none => .error (.internal "token endpoint peer address unavailable")

end Reading

section Issuing
variable [Jwt] {cfg : AuthConfig} {rfc3339 : ℕ → Option String} {nowSecs ttlSecs : ℕ}
  {sub token : String} {permissions : List Permission} {request : TokenRequest}
  {claims : TokenClaims} {response : TokenResponse}

theorem mintToken_ok (h : mintToken cfg nowSecs sub permissions ttlSecs = .ok (token, claims)) :
    claims = ⟨⟨sub, permissions⟩, cfg.issuer, nowSecs, nowSecs + ttlSecs⟩ ∧
      Jwt.encode claims = some token := by
  unfold mintToken at h
  split at h
  · dsimp only at h
    split at h
    · rename_i t ht
      obtain ⟨rfl, rfl⟩ := Prod.mk.inj (Except.ok.inj h)
      exact ⟨rfl, ht⟩
    · cases h
  · cases h

/-- A token is issued for the configured secret, with the permissions asked for. -/
theorem issueToken_ok (h : issueToken cfg rfc3339 nowSecs sub request = .ok (response, claims)) :
    cfg.bootstrapSecret = some request.secret ∧ request.permissions ≠ [] ∧
      claims = ⟨⟨sub, request.permissions⟩, cfg.issuer, nowSecs,
        nowSecs + request.ttlSecs.getD cfg.defaultTtlSecs⟩ ∧
      Jwt.encode claims = some response.token := by
  unfold issueToken at h
  split at h
  · cases h
  · rename_i expected hexpected
    split at h
    · cases h
    · rename_i hsecret
      split at h
      · cases h
      · rename_i hpermissions
        cases hmint : mintToken cfg nowSecs sub request.permissions
            (request.ttlSecs.getD cfg.defaultTtlSecs) with
        | error e =>
          rw [hmint] at h
          cases h
        | ok minted =>
          obtain ⟨token, claims'⟩ := minted
          rw [hmint] at h
          simp only [bind, Except.bind] at h
          split at h
          · obtain ⟨rfl, rfl⟩ := Prod.mk.inj (Except.ok.inj h)
            obtain ⟨hclaims, hencode⟩ := mintToken_ok hmint
            have heq : bytesOf expected = bytesOf request.secret := by
              rw [Bool.not_eq_true, Bool.not_eq_false', constantTimeEq_iff] at hsecret
              exact hsecret
            refine ⟨?_, ?_, hclaims, hencode⟩
            · rw [hexpected, bytesOf_injective heq]
            · rintro hnil
              exact hpermissions (by rw [hnil]; rfl)
          · cases h

theorem verifyToken_ok (h : verifyToken cfg nowSecs token = .ok claims) :
    Jwt.decode cfg.validation nowSecs token = .ok claims := by
  unfold verifyToken at h
  split at h
  · rename_i hdecode
    rw [hdecode, Except.ok.inj h]
  all_goals cases h

end Issuing
end Auth
end OptionChainBackend
