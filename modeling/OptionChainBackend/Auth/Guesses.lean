import OptionChainBackend.Auth.Gate

/-!
Guesses at the bootstrap secret. Without a trusted proxy they are counted by the address of the
peer alone: no header moves a guess into another bucket, and nobody else's requests use one up.
-/
namespace OptionChainBackend
namespace Auth
open Foundation RateLimiter

namespace RateLimiter
variable {l : RateLimiter} {r : Request} {key : String} {readings : ℕ → Readings}

theorem window_sweepExpired (l : RateLimiter) (clock : ℕ) (key : String) :
    (l.sweepExpired clock).1.window key = prune (windowStart clock) (l.window key) := by
  simp only [RateLimiter.window, lookup_sweepExpired]
  cases l.windows.lookup key with
  | none => rfl
  | some window => cases hprune : prune (windowStart clock) window <;> simp [hprune]

/-- Below the cap a check records the request in the window of its key, which may be new. -/
theorem checkAndRecordStatus_window (hroom : l.tracked < maxTrackedKeys) :
    (l.checkAndRecordStatus r readings).2 =
        (pruneAndRecord (l.window r.key) r.now (windowStart r.now) r.limit).2 ∧
      ∀ key, (l.checkAndRecordStatus r readings).1.window key =
        if key = r.key
          then (pruneAndRecord (l.window key) r.now (windowStart r.now) r.limit).1
          else l.window key := by
  unfold checkAndRecordStatus
  cases hlookup : l.windows.lookup r.key with
  | some window =>
    have hrecord : l.recordIn r = some (⟨l.windows.insert r.key
        (pruneAndRecord window r.now (windowStart r.now) r.limit).1, l.tracked⟩,
        (pruneAndRecord window r.now (windowStart r.now) r.limit).2) := by
      simp [recordIn, hlookup]
    have hwindow := window_of_lookup hlookup
    rw [hrecord, hwindow]
    exact ⟨rfl, fun key => window_record hwindow l.tracked key⟩
  | none =>
    have hnew : ∀ tracked, recordIn ⟨l.windows, tracked⟩ r = none := by
      intro tracked
      simp [recordIn, hlookup]
    have hwon : winSlot r.key l (attempts readings) = (⟨l.windows, l.tracked + 1⟩, true) := by
      simp [attempts, List.range_succ, winSlot, reserveSlot_some hroom]
    have hwindow := window_of_none hlookup
    rw [show l.recordIn r = none from hnew l.tracked, hwon, hwindow]
    simp only [hnew]
    exact ⟨rfl, fun key => window_record hwindow (l.tracked + 1) key⟩

end RateLimiter

/-- The hyphenated text of a UUID. -/
def UuidText (s : String) : Prop := ∀ c ∈ s.toList, c.isAlphanum = true ∨ c = '-'

instance : DecidablePred UuidText := fun s => inferInstanceAs (Decidable (∀ c ∈ s.toList, _))

theorem peerKey_injective : Function.Injective peerKey := fun _ _ h =>
  (String.append_right_inj _).mp h

theorem UuidText.ne_peerKey {s : String} (h : UuidText s) (p : String) : s ≠ peerKey p := by
  rintro rfl
  have hcolon : ':' ∈ (peerKey p).toList := by simp [peerKey]
  exact absurd (h ':' hcolon) (by decide)

/-- A guess from the address `p` that got past the middleware. -/
def Visit.guessFrom (p : String) (v : Visit) : Bool :=
  v.request.method = .post && v.request.path = tokenPath && v.request.peer = some p

namespace Gate
variable [Jwt] {cfg : AuthConfig} {rfc3339 : ℕ → Option String} {g : Gate} {m : GateMove}

/-- The clocks do not go back, the cap on the keys is not reached, and subjects are UUIDs. -/
def Paced (g : Gate) : GateMove → Prop
  | .arrive _ _ nowMs _ => g.clock ≤ nowMs ∧ g.limiter.tracked < maxTrackedKeys
  | .handle _ _ sub => UuidText sub
  | .mintOffline _ sub _ _ => UuidText sub
  | .sweep clock => g.clock ≤ clock

/-- When the guesses from the address got past the middleware. -/
def guesses (g : Gate) (p : String) : List ℕ :=
  g.visits.filterMap fun v => if v.guessFrom p then some v.nowMs else none

/-- The claims that were handed out have a UUID for their subject. -/
structure Subjects (g : Gate) : Prop where
  offline : ∀ e ∈ g.offline, UuidText e.2.sub
  answers : ∀ w ∈ g.visits, ∀ response claims, w.answer = some (.ok (response, claims)) →
    UuidText claims.sub

/-- The limiter's log is exact, and it holds just the guesses under the key of an address. -/
structure Counted (g : Gate) : Prop where
  exact : ∃ dropped, dropped ≤ windowStart g.clock ∧
    Audit.Exact ⟨⟨g.limiter, []⟩, g.log, dropped⟩
  past : ∀ e ∈ g.log, e.1.now ≤ g.clock
  subjects : Subjects g
  limited : ∀ p, ∀ e ∈ ofKey (peerKey p) g.log, e.1.limit = tokenIssueRateLimit
  guessed : ∀ p, g.guesses p = admitted (peerKey p) g.log

omit [Jwt] in
theorem Subjects.of_handedOut (h : Subjects g) {j : ℕ} {token : String} {claims : TokenClaims}
    (hout : g.HandedOut j token claims) : UuidText claims.sub := by
  rcases hout with hout | ⟨i, w, response, -, hw, hanswer, -⟩
  · exact h.offline _ hout
  · exact h.answers w (List.mem_of_getElem? hw) response claims hanswer

omit [Jwt] in
/-- A check below the cap keeps the log exact. -/
theorem Counted.check_exact (h : Counted g) {key : String} {limit nowMs : ℕ}
    {readings : ℕ → Readings} (hclock : g.clock ≤ nowMs)
    (hroom : g.limiter.tracked < maxTrackedKeys) :
    (g.check key limit nowMs readings).1 = idealDecision (admitted key g.log) ⟨key, limit, nowMs⟩ ∧
    ∃ dropped, dropped ≤ windowStart nowMs ∧
      Audit.Exact ⟨⟨(g.check key limit nowMs readings).2.limiter, []⟩,
        (g.check key limit nowMs readings).2.log, dropped⟩ := by
  obtain ⟨dropped, hdropped, hexact⟩ := h.exact
  have hstart : dropped ≤ windowStart nowMs := hdropped.trans (Nat.sub_le_sub_right hclock _)
  have hpast : ∀ e ∈ g.log, e.1.now ≤ nowMs := fun e he => (h.past e he).trans hclock
  let r : Request := ⟨key, limit, nowMs⟩
  have hwindows : (g.limiter.checkAndRecordStatus r readings).2 = _ ∧ _ :=
    checkAndRecordStatus_window hroom
  obtain ⟨hdecision, hwindow⟩ := hwindows
  refine ⟨hdecision.trans (hexact.decision (r := r) hpast hstart), dropped, hstart, ?_⟩
  show Audit.Exact ⟨⟨(g.limiter.checkAndRecordStatus r readings).1, []⟩,
    g.log ++ [(r, (g.limiter.checkAndRecordStatus r readings).2)], dropped⟩
  refine hexact.decide (r := r) hpast hstart hwindow ?_ hdecision ?_ (Nat.le_refl dropped)
  · exact fun c hc => absurd hc List.not_mem_nil
  · exact fun c hc => absurd hc List.not_mem_nil

omit [Jwt] in
/-- A check of a key that is nobody's address, or one that is refused, counts no guess. -/
theorem Counted.check_other (h : Counted g) {key : String} {limit nowMs : ℕ}
    {readings : ℕ → Readings} {p : String} (hother : key ≠ peerKey p ∨
      (g.check key limit nowMs readings).1.allowed = false) :
    admitted (peerKey p) (g.check key limit nowMs readings).2.log = g.guesses p := by
  rw [h.guessed p]
  refine (admitted_append _ _ _).trans ?_
  rcases hother with hne | hrefused
  · exact if_neg fun hkey => hne hkey.1
  · rw [if_neg]
    rintro ⟨-, hallowed⟩
    exact Bool.false_ne_true (hrefused.symm.trans hallowed)

omit [Jwt] in
theorem Counted.check_limited (h : Counted g) {key : String} {limit nowMs : ℕ}
    {readings : ℕ → Readings} {p : String} (hlimit : key = peerKey p → limit = tokenIssueRateLimit) :
    ∀ e ∈ ofKey (peerKey p) (g.check key limit nowMs readings).2.log,
      e.1.limit = tokenIssueRateLimit := by
  intro e he
  rw [show (g.check key limit nowMs readings).2.log = g.log ++ _ from rfl, ofKey_append] at he
  rcases List.mem_append.mp he with he | he
  · exact h.limited p e he
  · obtain ⟨hmem, hkey⟩ := List.mem_filter.mp he
    obtain rfl := List.mem_singleton.mp hmem
    exact hlimit (of_decide_eq_true hkey)

omit [Jwt] in
theorem Counted.check_past (h : Counted g) {key : String} {limit nowMs : ℕ}
    {readings : ℕ → Readings} (hclock : g.clock ≤ nowMs) :
    ∀ e ∈ (g.check key limit nowMs readings).2.log, e.1.now ≤ nowMs := by
  intro e he
  rcases List.mem_append.mp he with he | he
  · exact (h.past e he).trans hclock
  · obtain rfl := List.mem_singleton.mp he
    exact Nat.le_refl _

omit [Jwt] in
/-- The clock goes on, with a visit that is no guess or without one. -/
theorem Counted.later {g' : Gate} (h : Counted g) (hclock : g.clock ≤ g'.clock)
    (hlimiter : g'.limiter = g.limiter) (hlog : g'.log = g.log) (hsubjects : Subjects g')
    (hguesses : ∀ p, g'.guesses p = g.guesses p) : Counted g' := by
  obtain ⟨dropped, hdropped, hexact⟩ := h.exact
  refine ⟨⟨dropped, hdropped.trans (Nat.sub_le_sub_right hclock _), ?_⟩, ?_, hsubjects, ?_, ?_⟩
  · rw [hlimiter, hlog]
    exact hexact
  · rw [hlog]
    exact fun e he => (h.past e he).trans hclock
  · rw [hlog]
    exact h.limited
  · rw [hlog]
    exact fun p => (hguesses p).trans (h.guessed p)

omit [Jwt] in
theorem Subjects.entered (h : Subjects g) {v : Visit} (hnone : v.answer = none) {g' : Gate}
    (hv : g'.visits = g.visits ++ [v]) (ho : g'.offline = g.offline) : Subjects g' := by
  refine ⟨ho ▸ h.offline, fun w hw response claims hanswer => ?_⟩
  rw [hv] at hw
  rcases List.mem_append.mp hw with hw | hw
  · exact h.answers w hw response claims hanswer
  · obtain rfl := List.mem_singleton.mp hw
    rw [hnone] at hanswer
    cases hanswer

omit [Jwt] in
theorem guesses_entered {g' : Gate} {v : Visit} (hv : g'.visits = g.visits ++ [v]) (p : String) :
    g'.guesses p = if v.guessFrom p then g.guesses p ++ [v.nowMs] else g.guesses p := by
  unfold guesses
  rw [hv, List.filterMap_append]
  split_ifs with hguess <;> simp [hguess]

omit [Jwt] in
/-- Without a trusted proxy the key is that of the peer. -/
theorem tokenRateLimitKey_peer {r : Incoming} {key : String}
    (h : tokenRateLimitKey r false = .ok key) : ∃ ip, r.peer = some ip ∧ key = peerKey ip := by
  unfold tokenRateLimitKey at h
  simp only [Bool.false_eq_true, if_false] at h
  cases hpeer : r.peer with
  | none =>
    rw [hpeer] at h
    cases h
  | some ip =>
    rw [hpeer] at h
    exact ⟨ip, rfl, (Except.ok.inj h).symm⟩

theorem Counted.arrive (htrust : cfg.trustProxy = false) (h : Counted g) {r : Incoming}
    {body : Option TokenRequest} {nowMs : ℕ} {readings : ℕ → Readings}
    (hu : Unforged cfg g (.arrive r body nowMs readings)) (hclock : g.clock ≤ nowMs)
    (hroom : g.limiter.tracked < maxTrackedKeys) : Counted (g.arrive cfg r body nowMs readings) := by
  have hsub : ∀ token claims, extractToken r = some token →
      verifyToken cfg (nowMs / 1000) token = .ok claims → ∀ p, claims.sub ≠ peerKey p := by
    intro token claims htoken hverify p
    have hout := hu token claims htoken (verifyToken_ok hverify)
    exact (h.subjects.of_handedOut hout).ne_peerKey p
  have hthrough := middleware_through cfg g r nowMs readings
  unfold Gate.arrive
  generalize g.middleware cfg r nowMs readings = out at hthrough
  obtain ⟨res, g'⟩ := out
  dsimp only at hthrough
  cases hthrough with
  | health hpath =>
    refine h.later hclock rfl rfl (h.subjects.entered rfl rfl rfl) fun p => ?_
    refine (guesses_entered rfl p).trans (if_neg ?_)
    have hne : healthPath ≠ tokenPath := by decide
    simp [Visit.guessFrom, hpath, hne]
  | refused e => exact h.later hclock rfl rfl ⟨h.subjects.offline, h.subjects.answers⟩ fun _ => rfl
  | @issue key hroute hkey hallowed =>
    rw [htrust] at hkey
    obtain ⟨ip, hpeer, rfl⟩ := tokenRateLimitKey_peer hkey
    refine ⟨(h.check_exact hclock hroom).2, h.check_past hclock, h.subjects.entered rfl rfl rfl,
      fun p => h.check_limited fun _ => rfl, fun p => ?_⟩
    refine (guesses_entered (g := g) rfl p).trans ((admitted_append _ _ _).trans ?_).symm
    rw [h.guessed p]
    by_cases hp : ip = p
    · subst hp
      rw [if_pos ⟨rfl, hallowed⟩, if_pos (by simp [Visit.guessFrom, hroute, hpeer])]
    · rw [if_neg fun hk => hp (peerKey_injective hk.1),
        if_neg (by simp [Visit.guessFrom, hroute, hpeer, hp])]
  | @issueLimited key e hkey hallowed =>
    exact ⟨(h.check_exact hclock hroom).2, h.check_past hclock,
      ⟨h.subjects.offline, h.subjects.answers⟩, fun p => h.check_limited fun _ => rfl,
      fun p => (h.check_other (.inr hallowed)).symm⟩
  | @token token claims hroute htoken hverify hpermission =>
    have hne := hsub token claims htoken hverify
    refine ⟨(h.check_exact hclock hroom).2, h.check_past hclock, h.subjects.entered rfl rfl rfl,
      fun p => h.check_limited fun hkey => absurd hkey (hne p), fun p => ?_⟩
    refine (guesses_entered (g := g) rfl p).trans (.trans (if_neg ?_) (h.check_other (.inl (hne p))).symm)
    intro hguess
    simp only [Visit.guessFrom, Bool.and_eq_true, decide_eq_true_eq] at hguess
    exact hroute hguess.1
  | @tokenRefused token claims e htoken hverify =>
    have hne := hsub token claims htoken hverify
    exact ⟨(h.check_exact hclock hroom).2, h.check_past hclock,
      ⟨h.subjects.offline, h.subjects.answers⟩,
      fun p => h.check_limited fun hkey => absurd hkey (hne p),
      fun p => (h.check_other (.inl (hne p))).symm⟩

theorem Subjects.handle (h : Subjects g) {i nowMs : ℕ} {sub : String} (hsub : UuidText sub) :
    Subjects (g.step cfg rfc3339 (.handle i nowMs sub)) := by
  simp only [Gate.step]
  cases hi : g.visits[i]? with
  | none => exact h
  | some v =>
    refine ⟨h.offline, fun w hw response claims hanswer => ?_⟩
    rcases List.mem_or_eq_of_mem_set hw with hw | rfl
    · exact h.answers w hw response claims hanswer
    · unfold answered at hanswer
      split at hanswer
      · obtain ⟨-, -, rfl, -⟩ := issueToken_ok (Option.some.inj hanswer)
        exact hsub
      · exact h.answers v (List.mem_of_getElem? hi) response claims hanswer

theorem Counted.step (htrust : cfg.trustProxy = false) (h : Counted g) (hu : Unforged cfg g m)
    (hp : Paced g m) : Counted (g.step cfg rfc3339 m) := by
  cases m with
  | arrive r body nowMs readings => exact h.arrive htrust hu hp.1 hp.2
  | handle i nowMs sub =>
    have hsubjects : Subjects (g.step cfg rfc3339 (.handle i nowMs sub)) := h.subjects.handle hp
    simp only [Gate.step] at hsubjects ⊢
    cases hi : g.visits[i]? with
    | none => exact h
    | some v =>
      rw [hi] at hsubjects
      refine h.later (Nat.le_refl _) rfl rfl hsubjects fun p => ?_
      obtain ⟨hrequest, hnow, -, -⟩ := answered_same cfg rfc3339 v nowMs sub
      have hguess : (answered cfg rfc3339 v nowMs sub).guessFrom p = v.guessFrom p := by
        simp [Visit.guessFrom, hrequest]
      apply Pool.filterMap_set hi
      rw [hguess, hnow]
  | mintOffline nowSecs sub permissions ttlSecs =>
    simp only [Gate.step]
    cases hmint : mintToken cfg nowSecs sub permissions ttlSecs with
    | error e => exact h
    | ok minted =>
      obtain ⟨token, claims⟩ := minted
      refine h.later (Nat.le_refl _) rfl rfl ⟨fun e he => ?_, h.subjects.answers⟩ fun _ => rfl
      rcases List.mem_cons.mp he with rfl | he
      · obtain ⟨rfl, -⟩ := mintToken_ok hmint
        exact hp
      · exact h.subjects.offline e he
  | sweep clock =>
    obtain ⟨dropped, hdropped, hexact⟩ := h.exact
    have hwindow := fun key => Or.inr (a := (g.limiter.sweepExpired clock).1.window key =
      g.limiter.window key) (window_sweepExpired g.limiter clock key)
    refine ⟨⟨max dropped (windowStart clock), ?_, hexact.idle hwindow ?_ ?_⟩, ?_, ?_, h.limited,
      h.guessed⟩
    · exact max_le (hdropped.trans (Nat.sub_le_sub_right hp _)) (Nat.le_refl _)
    · exact fun c hc => absurd hc List.not_mem_nil
    · exact fun c hc => absurd hc List.not_mem_nil
    · exact fun e he => (h.past e he).trans hp
    · exact ⟨h.subjects.offline, h.subjects.answers⟩

/-- What a run of the gate asks of its moves. -/
def Orderly (cfg : AuthConfig) (g : Gate) (m : GateMove) : Prop := Unforged cfg g m ∧ Paced g m

theorem reaches_counted (htrust : cfg.trustProxy = false)
    (h : Reaches (· = new) (Gate.step cfg rfc3339) (Orderly cfg) g) : Counted g := by
  induction h with
  | start h =>
    subst h
    exact ⟨⟨0, Nat.zero_le _, Audit.Exact.new⟩, fun e he => absurd he List.not_mem_nil,
      ⟨fun e he => absurd he List.not_mem_nil, fun w hw => absurd hw List.not_mem_nil⟩,
      fun p e he => absurd he List.not_mem_nil, fun p => rfl⟩
  | next _ hok ih => exact ih.step htrust hok.1 hok.2

/-- The middleware decides a guess by the guesses that came from its address within the window. -/
theorem Counted.guess_decided (htrust : cfg.trustProxy = false) (h : Counted g) {r : Incoming}
    {nowMs : ℕ} {readings : ℕ → Readings} {p : String} (hclock : g.clock ≤ nowMs)
    (hroom : g.limiter.tracked < maxTrackedKeys) (hsparse : Sparse tokenIssueRateLimit
      rateLimitWindowMs (g.guesses p)) (hroute : r.method = .post ∧ r.path = tokenPath)
    (hpeer : r.peer = some p) :
    (g.middleware cfg r nowMs readings).1 = .ok (.issue (peerKey p)) ↔
      inWindow nowMs (g.guesses p) < tokenIssueRateLimit := by
  have hkey : tokenRateLimitKey r cfg.trustProxy = .ok (peerKey p) := by
    simp [tokenRateLimitKey, htrust, hpeer]
  have hne : r.path ≠ healthPath := by
    rw [hroute.2]
    decide
  have hpast : ∀ t ∈ g.guesses p, t ≤ nowMs := by
    intro t ht
    rw [h.guessed p] at ht
    obtain ⟨e, he, rfl⟩ := mem_admitted ht
    exact (h.past e he).trans hclock
  let asked : Request := ⟨peerKey p, tokenIssueRateLimit, nowMs⟩
  have hlimit : asked.limit < 2 ^ 32 := show tokenIssueRateLimit < 2 ^ 32 by decide
  have hcounts : (idealDecision (g.guesses p) asked).allowed ↔
      inWindow nowMs (g.guesses p) < tokenIssueRateLimit :=
    (idealDecision_counts (r := asked) hpast (inWindow_le hsparse nowMs) hlimit).1
  have hdecision : (g.check (peerKey p) tokenIssueRateLimit nowMs readings).1 =
      idealDecision (g.guesses p) asked := by
    rw [h.guessed p]
    exact (h.check_exact hclock hroom).1
  unfold middleware
  rw [if_neg hne, if_pos hroute, hkey]
  dsimp only
  rw [hdecision, ← hcounts]
  split_ifs with hallowed <;> simp [hallowed]

/-- In any run a guess at the secret is let through just when fewer than ten guesses from its
address were let through within the last minute, whatever its headers say and whoever else asked for
what; so in no minute are there more than ten. -/
theorem guesses_counted (htrust : cfg.trustProxy = false)
    (h : Reaches (· = new) (Gate.step cfg rfc3339) (Orderly cfg) g) (p : String) :
    Sparse tokenIssueRateLimit rateLimitWindowMs (g.guesses p) ∧
    ∀ (r : Incoming) nowMs readings, g.clock ≤ nowMs → g.limiter.tracked < maxTrackedKeys →
      r.method = .post ∧ r.path = tokenPath → r.peer = some p →
      ((g.middleware cfg r nowMs readings).1 = .ok (.issue (peerKey p)) ↔
        inWindow nowMs (g.guesses p) < tokenIssueRateLimit) := by
  have hcounted := reaches_counted htrust h
  obtain ⟨dropped, -, hexact⟩ := hcounted.exact
  have hsparse : Sparse tokenIssueRateLimit rateLimitWindowMs (g.guesses p) := by
    rw [hcounted.guessed p]
    exact hexact.ideal.sparse (hcounted.limited p)
  exact ⟨hsparse, fun r nowMs readings hclock hroom hroute hpeer =>
    hcounted.guess_decided htrust hclock hroom hsparse hroute hpeer⟩

omit [Jwt] in
theorem guesses_counted_reader : readerGate.guesses "10.0.0.1" = [0] ∧
    (@Gate.middleware (oneToken "a.b.c" readerClaims) readerConfig readerGate askingToken 59000
      fun _ => ⟨0, 0, fun _ => []⟩).1 = .ok (.issue (peerKey "10.0.0.1")) := by
  let _ := oneToken "a.b.c" readerClaims
  have hguesses : readerGate.guesses "10.0.0.1" = [0] := by decide +kernel
  obtain ⟨hasked, -, hlisted, -⟩ := readerMoves_unforged
  have hallowed : Allowed (Gate.step readerConfig fun _ => some "") (Orderly readerConfig) .new
      readerMoves := by
    refine ⟨⟨hasked, Nat.zero_le _, by decide⟩, ⟨trivial, ?_⟩, ⟨hlisted, Nat.zero_le _, ?_⟩, trivial⟩
    · show UuidText "3f2b"
      intro c hc
      have hchars : c = '3' ∨ c = 'f' ∨ c = '2' ∨ c = 'b' := by simpa using hc
      rcases hchars with rfl | rfl | rfl | rfl <;> exact .inl rfl
    · decide +kernel
  have hstart : Reaches (· = new) (Gate.step readerConfig fun _ => some "")
      (Orderly readerConfig) .new := .start rfl
  refine ⟨hguesses, ((guesses_counted rfl (hstart.run hallowed) "10.0.0.1").2 askingToken 59000
    _ ?_ ?_ ⟨rfl, rfl⟩ rfl).mpr ?_⟩
  · exact show readerGate.clock ≤ 59000 by decide +kernel
  · exact show readerGate.limiter.tracked < maxTrackedKeys by decide +kernel
  · exact show inWindow 59000 (readerGate.guesses "10.0.0.1") < tokenIssueRateLimit by
      rw [hguesses]
      decide

end Gate
end Auth
end OptionChainBackend
