import OptionChainBackend.Auth.Sequential

/-!
When a denied client is let in. `reset_secs` rounds up to a whole second, and pruning keeps what is
exactly a window old, so a window whose oldest request came on a whole second is still full then.
-/
namespace OptionChainBackend
namespace Auth
open Foundation
namespace RateLimiter

/-- The first whole second at or after `ms`, in milliseconds. -/
def wholeSecond (ms : ℕ) : ℕ := (ms + 999) / 1000 * 1000

/-- Dropping what came before the first whole second at or after the oldest request makes room; or
that second ends its window beyond the last reading of a `u64` clock. -/
def ResetMakesRoom (counted : Window) (limit : ℕ) : Prop :=
  (prune (wholeSecond (counted.head?.getD 0)) counted).length < limit ∨
  2 ^ 64 ≤ wholeSecond (counted.head?.getD 0) + rateLimitWindowMs

/-- The requests of the key that a request at `now` counts. -/
def counted (l : RateLimiter) (key : String) (now : ℕ) : Window :=
  prune (windowStart now) ((l.windows.lookup key).getD [])

def Event.Checks (key : String) : Event → Prop
  | .check r _ => r.key = key
  | _ => False

/-- The bucket of the key is gone, or has lost timestamps from its front. -/
def Shrinks (key : String) (l l' : RateLimiter) : Prop :=
  ∀ window', l'.windows.lookup key = some window' →
    ∃ window, l.windows.lookup key = some window ∧ window' <:+ window

section Shrinking
variable {l l' l'' : RateLimiter} {key : String}

theorem Shrinks.of_eq (h : l'.windows.lookup key = l.windows.lookup key) : Shrinks key l l' :=
  fun window' hwindow' => ⟨window', h ▸ hwindow', List.suffix_rfl⟩

theorem Shrinks.trans (h : Shrinks key l l') (h' : Shrinks key l' l'') : Shrinks key l l'' := by
  intro window'' hwindow''
  obtain ⟨window', hwindow', hsuffix'⟩ := h' window'' hwindow''
  obtain ⟨window, hwindow, hsuffix⟩ := h window' hwindow'
  exact ⟨window, hwindow, hsuffix'.trans hsuffix⟩

theorem shrinks_removeKey (l : RateLimiter) (victim key : String) :
    Shrinks key l (l.removeKey victim) := by
  intro window' hwindow'
  simp only [removeKey, Table.lookup_erase_eq] at hwindow'
  split_ifs at hwindow'
  exact ⟨window', hwindow', List.suffix_rfl⟩

theorem shrinks_sweepExpired (l : RateLimiter) (clock : ℕ) (key : String) :
    Shrinks key l (l.sweepExpired clock).1 := by
  intro window' hwindow'
  rw [lookup_sweepExpired, Option.bind_eq_some_iff] at hwindow'
  obtain ⟨window, hwindow, hkept⟩ := hwindow'
  split_ifs at hkept
  obtain rfl := Option.some.inj hkept
  exact ⟨window, hwindow, List.dropWhile_suffix _⟩

theorem shrinks_reclaim (l : RateLimiter) (new : String) (a : Readings) (key : String) :
    Shrinks key l (l.reclaim new a) := by
  have hswept := shrinks_sweepExpired l a.sweepClock key
  rcases reclaim_cases l new a with heq | ⟨victim, window, -, -, heq⟩
  · rwa [heq]
  · rw [heq]
    exact hswept.trans ((shrinks_removeKey _ victim key).trans (.of_eq rfl))

theorem shrinks_winSlot (l : RateLimiter) (new : String) (attempts : List Readings)
    (key : String) : Shrinks key l (winSlot new l attempts).1 := by
  induction attempts generalizing l with
  | nil => exact .of_eq rfl
  | cons a attempts ih =>
    by_cases hroom : l.tracked < maxTrackedKeys
    · simp only [winSlot, reserveSlot_some hroom]
      exact .of_eq rfl
    · simp only [winSlot, reserveSlot_none hroom]
      exact (shrinks_reclaim l new a key).trans (ih _)

theorem shrinks_recordIn {r : Request} {out : RateLimiter × RateLimitDecision}
    (h : l.recordIn r = some out) (hkey : r.key ≠ key) : Shrinks key l out.1 := by
  obtain ⟨window, -, rfl⟩ := Option.map_eq_some_iff.mp h
  exact .of_eq (by simp [hkey.symm])

theorem shrinks_check {r : Request} (l : RateLimiter) (readings : ℕ → Readings)
    (hkey : r.key ≠ key) : Shrinks key l (l.checkAndRecordStatus r readings).1 := by
  unfold checkAndRecordStatus
  cases hrecord : l.recordIn r with
  | some out => exact shrinks_recordIn hrecord hkey
  | none =>
    have hwon := shrinks_winSlot l r.key (attempts readings) key
    dsimp only
    cases hwin : winSlot r.key l (attempts readings) with
    | mk won admitted =>
      rw [hwin] at hwon
      cases admitted with
      | false => exact hwon
      | true =>
        cases hrecord' : won.recordIn r with
        | some out =>
          simp only [hrecord']
          exact hwon.trans ((shrinks_recordIn hrecord' hkey).trans (.of_eq rfl))
        | none =>
          simp only [hrecord']
          exact hwon.trans (.of_eq (by simp [createBucket, hkey.symm]))

/-- Nothing but a request for the key adds to its bucket. -/
theorem shrinks_handle (l : RateLimiter) {e : Event} (h : ¬ e.Checks key) :
    Shrinks key l (l.handle e) := by
  cases e with
  | check r readings => exact shrinks_check l readings h
  | sweep clock => exact shrinks_sweepExpired l clock key
  | clear cleared => exact shrinks_removeKey l cleared key

theorem shrinks_run {events : List Event}
    (h : Allowed handle (fun _ e => ¬ e.Checks key) l events) :
    Shrinks key l (events.foldl handle l) := by
  induction events generalizing l with
  | nil => exact .of_eq rfl
  | cons e events ih => exact (shrinks_handle l h.1).trans (ih h.2)

end Shrinking

section Reset
variable {l : RateLimiter} {r : Request} {window : Window} {readings : ℕ → Readings}

theorem checkAndRecordStatus_old (h : l.windows.lookup r.key = some window)
    (readings : ℕ → Readings) :
    l.checkAndRecordStatus r readings =
      (⟨l.windows.insert r.key (pruneAndRecord window r.now (windowStart r.now) r.limit).1,
        l.tracked⟩, (pruneAndRecord window r.now (windowStart r.now) r.limit).2) := by
  simp [checkAndRecordStatus, RateLimiter.recordIn, h]

theorem length_prune_anti (window : Window) {start start' : ℕ} (h : start ≤ start') :
    (prune start' window).length ≤ (prune start window).length :=
  length_dropWhile_lt_anti window h

theorem pruneAndRecord_allowed (window : Window) (now start limit : ℕ) :
    (pruneAndRecord window now start limit).2.allowed = true ↔
      (prune start window).length < limit := by
  simp [pruneAndRecord]

/-- A denied request leaves its bucket pruned, and is told when the oldest request in it leaves. -/
theorem pruneAndRecord_denied {now start limit : ℕ}
    (h : (pruneAndRecord window now start limit).2.allowed = false) :
    (pruneAndRecord window now start limit).1 = prune start window ∧
    (pruneAndRecord window now start limit).2.resetSecs =
      resetSecs ((prune start window).head?.getD now) := by
  have hfull : ¬ (prune start window).length < limit := by simpa [pruneAndRecord] using h
  simp [pruneAndRecord, hfull]

/-- A window that starts at or after the reset time's starts at or after that whole second. -/
theorem wholeSecond_le_windowStart {oldest now : ℕ} (h : 1000 * resetSecs oldest ≤ now)
    (hnow : now < 2 ^ 64) : wholeSecond oldest ≤ windowStart now := by
  unfold wholeSecond windowStart
  unfold resetSecs at h
  have hsecs : rateLimitWindowMs = 60000 := rfl
  omega

theorem windowStart_resetSecs {oldest : ℕ}
    (h : wholeSecond oldest + rateLimitWindowMs < 2 ^ 64) :
    1000 * resetSecs oldest < 2 ^ 64 ∧
      windowStart (1000 * resetSecs oldest) = wholeSecond oldest := by
  unfold wholeSecond at h ⊢
  unfold resetSecs windowStart
  have hsecs : rateLimitWindowMs = 60000 := rfl
  omega

theorem capped_run (h : l.Capped) (events : List Event) : (events.foldl handle l).Capped := by
  induction events generalizing l with
  | nil => exact h
  | cons e events ih => exact ih (h.handle e)

/-- A new key is let in. -/
theorem Capped.admits_new (h : l.Capped) (hiter : ∀ i, (readings i).Iterates)
    (hlimit : 1 ≤ r.limit) (hnew : l.windows.lookup r.key = none) :
    (l.checkAndRecordStatus r readings).2.allowed = true := by
  obtain ⟨l', hout, -, -⟩ := checkAndRecordStatus_new h hiter hnew
  have hpos : 0 < r.limit := hlimit
  simp [hout, createBucket, pruneAndRecord, prune, hpos]

/-- Room in a bucket for a request whose window starts at `start` is there for a later one, whatever
happens in between. -/
theorem Capped.admits_later (h : l.Capped) {key : String} {start limit : ℕ}
    (hwindow : l.windows.lookup key = some window) (hroom : (prune start window).length < limit)
    {events : List Event} (hevents : Allowed RateLimiter.handle (fun _ e => ¬ e.Checks key) l events)
    {later : Request} (hkey : later.key = key) (hlimit : later.limit = limit)
    (hstart : start ≤ windowStart later.now) (hiter : ∀ i, (readings i).Iterates) :
    ((events.foldl RateLimiter.handle l).checkAndRecordStatus later readings).2.allowed = true := by
  subst hkey hlimit
  cases hlookup : (events.foldl RateLimiter.handle l).windows.lookup later.key with
  | none => exact (capped_run h events).admits_new hiter (by omega) hlookup
  | some window' =>
    obtain ⟨window₀, hwindow₀, hsuffix⟩ := shrinks_run hevents window' hlookup
    obtain rfl : window₀ = window := Option.some.inj (hwindow₀.symm.trans hwindow)
    rw [checkAndRecordStatus_old hlookup, pruneAndRecord_allowed]
    calc (prune (windowStart later.now) window').length
        ≤ (prune start window').length := length_prune_anti window' hstart
      _ ≤ (prune start window₀).length := length_dropWhile_suffix hsuffix _
      _ < later.limit := hroom

/-- After a denial, every later request on the key from the reset time on is let in, whatever else
happens in between, exactly when dropping what came before a whole second makes room. -/
theorem reset_honest_iff (h : Reaches (· = new) handle (fun _ _ => True) l)
    (hiter : ∀ i, (readings i).Iterates) (hlimit : 1 ≤ r.limit)
    (hdenied : (l.checkAndRecordStatus r readings).2.allowed = false) :
    (∀ events later readings',
      Allowed handle (fun _ e => ¬ e.Checks r.key) (l.checkAndRecordStatus r readings).1 events →
      later.key = r.key → later.limit = r.limit →
      1000 * (l.checkAndRecordStatus r readings).2.resetSecs ≤ later.now → later.now < 2 ^ 64 →
      (∀ i, (readings' i).Iterates) →
      ((events.foldl handle (l.checkAndRecordStatus r readings).1).checkAndRecordStatus
        later readings').2.allowed = true) ↔
    ResetMakesRoom (l.counted r.key r.now) r.limit := by
  have hcapped := capped_of_reaches h
  cases hwindow : l.windows.lookup r.key with
  | none =>
    rw [hcapped.admits_new hiter hlimit hwindow] at hdenied
    cases hdenied
  | some window =>
    have hnext := hcapped.checkAndRecordStatus r readings
    rw [checkAndRecordStatus_old hwindow] at hdenied hnext ⊢
    dsimp only at hdenied hnext ⊢
    obtain ⟨hkept, hreset⟩ := pruneAndRecord_denied hdenied
    have hfull : r.limit ≤ (prune (windowStart r.now) window).length := by
      rw [← not_lt, ← pruneAndRecord_allowed window r.now, hdenied]
      decide
    have hcounted : l.counted r.key r.now = prune (windowStart r.now) window := by
      simp [counted, hwindow]
    rw [hkept] at hnext
    rw [hkept, hreset, hcounted]
    cases hhead : (prune (windowStart r.now) window).head? with
    | none =>
      rw [List.head?_eq_none_iff.mp hhead] at hfull
      exact absurd (hlimit.trans hfull) (by decide)
    | some oldest =>
      have hlookup : AList.lookup r.key
          (l.windows.insert r.key (prune (windowStart r.now) window)) =
            some (prune (windowStart r.now) window) := AList.lookup_insert _
      simp only [ResetMakesRoom, hhead, Option.getD_some]
      constructor
      · intro hadmits
        by_contra hnot
        obtain ⟨hroom, hclock⟩ := not_or.mp hnot
        obtain ⟨hlt, hstart⟩ := windowStart_resetSecs (not_le.mp hclock)
        have hthen := hadmits [] ⟨r.key, r.limit, 1000 * resetSecs oldest⟩
          (fun _ => inTableOrder 0) trivial rfl rfl le_rfl hlt fun _ => inTableOrder_iterates 0
        rw [List.foldl_nil, checkAndRecordStatus_old hlookup, pruneAndRecord_allowed, hstart]
          at hthen
        exact hroom hthen
      · rintro hroom events later readings' hevents hkey hlimit' hreset' hnow hiter'
        have hstart := wholeSecond_le_windowStart hreset' hnow
        rcases hroom with hroom | hclock
        · exact hnext.admits_later hlookup hroom hevents hkey hlimit' hstart hiter'
        · unfold windowStart at hstart
          have hsecs : rateLimitWindowMs = 60000 := rfl
          omega

/-- With just `limit` requests to count, the oldest must not have come on a whole second. -/
theorem resetMakesRoom_full {limit oldest : ℕ} {rest : Window}
    (hlength : (oldest :: rest).length = limit)
    (hclock : wholeSecond oldest + rateLimitWindowMs < 2 ^ 64) :
    ResetMakesRoom (oldest :: rest) limit ↔ oldest % 1000 ≠ 0 := by
  unfold ResetMakesRoom
  rw [List.head?_cons, Option.getD_some, or_iff_left (not_le.mpr hclock)]
  by_cases hwhole : oldest % 1000 = 0
  · have hnone : ¬ oldest < wholeSecond oldest := by
      unfold wholeSecond
      omega
    simp [prune, hnone, hlength, hwhole]
  · have hdrop : oldest < wholeSecond oldest := by
      unfold wholeSecond
      omega
    have hle := (List.dropWhile_suffix (l := rest) (· < wholeSecond oldest)).length_le
    rw [List.length_cons] at hlength
    simp only [prune, hdrop, List.dropWhile_cons, decide_true, if_true, hwhole, ne_eq,
      not_false_eq_true, iff_true]
    omega

end Reset

/-- A key with a limit of 1 is asked for on a whole second, half a second later, and when the
denial said. -/
def wholeSecondAsked : RateLimiter :=
  (new.checkAndRecordStatus ⟨"key", 1, 1700000000000⟩ fun _ => inTableOrder 0).1

def halfSecondLater : RateLimiter × RateLimitDecision :=
  wholeSecondAsked.checkAndRecordStatus ⟨"key", 1, 1700000000500⟩ fun _ => inTableOrder 0

theorem reset_second_denied :
    Reaches (· = new) handle (fun _ _ => True) wholeSecondAsked ∧
    halfSecondLater.2.allowed = false ∧ halfSecondLater.2.resetSecs = 1700000060 ∧
    (halfSecondLater.1.checkAndRecordStatus
      ⟨"key", 1, 1000 * halfSecondLater.2.resetSecs⟩ fun _ => inTableOrder 0).2.allowed =
      false := by
  have hstart : Reaches (· = new) handle (fun _ _ => True) new := .start rfl
  refine ⟨?_, by decide +kernel⟩
  exact hstart.next (i := .check ⟨"key", 1, 1700000000000⟩ fun _ => inTableOrder 0) trivial

/-- One millisecond off a whole second, the denial is honest. -/
theorem reset_honest_iff_off_second :
    let l := (new.checkAndRecordStatus ⟨"key", 1, 1700000000001⟩ fun _ => inTableOrder 0).1
    let out := l.checkAndRecordStatus ⟨"key", 1, 1700000000500⟩ fun _ => inTableOrder 0
    out.2.allowed = false ∧
    (out.1.checkAndRecordStatus ⟨"key", 1, 1000 * out.2.resetSecs⟩
      fun _ => inTableOrder 0).2.allowed = true := by
  have hstart : Reaches (· = new) handle (fun _ _ => True) new := .start rfl
  have hreached := hstart.next
    (i := .check ⟨"key", 1, 1700000000001⟩ fun _ => inTableOrder 0) trivial
  have hhonest := (reset_honest_iff (r := ⟨"key", 1, 1700000000500⟩) hreached
    (fun _ => inTableOrder_iterates 0) le_rfl (by decide +kernel)).mpr (.inl (by decide +kernel))
  refine ⟨by decide +kernel, ?_⟩
  exact hhonest [] ⟨"key", 1, 1700000061000⟩ (fun _ => inTableOrder 0) trivial rfl rfl
    (by decide +kernel) (by decide) fun _ => inTableOrder_iterates 0

end RateLimiter
end Auth
end OptionChainBackend
