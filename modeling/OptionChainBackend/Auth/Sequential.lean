import OptionChainBackend.Auth.TrackedKeys
import OptionChainBackend.Foundation.Sliding

/-!
The limiter's calls, each run to its end before the next begins. Whatever was called before, the
counter covers the keys, and one reclaim is enough to let a new key in.
-/
namespace OptionChainBackend
namespace Auth
open Foundation

namespace RateLimiter

/-- `sweep_expired`, with the number of keys it removed. -/
def sweepExpired (l : RateLimiter) (clock : ℕ) : RateLimiter × ℕ :=
  let start := windowStart clock
  let kept := l.windows.retain fun _ window =>
    if (prune start window).isEmpty then none else some (prune start window)
  (⟨kept, kept.size⟩, l.windows.size - kept.size)

/-- `evict_idlest_of_sample`; `met` is what its iteration over the map meets. -/
def evictIdlestOfSample (l : RateLimiter) (exclude : String) (clock : ℕ)
    (met : List (String × Window)) : RateLimiter :=
  match idlest (windowStart clock) exclude met with
  | some victim =>
    match l.windows.lookup victim with
    | some _ => (l.removeKey victim).releaseSlot
    | none => l
  | none => l

/-- What a failed attempt reads: the clock, once for each of its two calls, and the order in which
an iteration meets the entries of the map. -/
structure Readings where
  sweepClock : ℕ
  evictClock : ℕ
  iter : Table String Window → List (String × Window)

/-- An iteration meets every entry of the map and nothing else. -/
def Readings.Iterates (a : Readings) : Prop :=
  ∀ (windows : Table String Window) e, e ∈ a.iter windows ↔ windows.lookup e.1 = some e.2

/-- At capacity: what an attempt does to make room. -/
def reclaim (l : RateLimiter) (key : String) (a : Readings) : RateLimiter :=
  let out := l.sweepExpired a.sweepClock
  if out.2 = 0 then out.1.evictIdlestOfSample key a.evictClock (a.iter out.1.windows) else out.1

/-- The attempts to win a slot, and whether one of them did. -/
def winSlot (key : String) : RateLimiter → List Readings → RateLimiter × Bool
  | l, [] => (l, false)
  | l, a :: attempts =>
    match l.reserveSlot with
    | some l => (l, true)
    | none => winSlot key (l.reclaim key a) attempts

/-- The attempts that found the map at its cap. -/
def failedAttempts (key : String) : RateLimiter → List Readings → List Readings
  | _, [] => []
  | l, a :: attempts =>
    match l.reserveSlot with
    | some _ => []
    | none => a :: failedAttempts key (l.reclaim key a) attempts

def attempts (readings : ℕ → Readings) : List Readings := (List.range 3).map readings

def checkAndRecordStatus (l : RateLimiter) (r : Request) (readings : ℕ → Readings) :
    RateLimiter × RateLimitDecision :=
  match l.recordIn r with
  | some out => out
  | none =>
    match winSlot r.key l (attempts readings) with
    | (l, false) => (l, rejection r.now)
    | (l, true) =>
      match l.recordIn r with
      | some (l, decision) => (l.releaseSlot, decision)
      | none => l.createBucket r

/-- `clear`, which leaves the counter alone. -/
def clear (l : RateLimiter) (key : String) : RateLimiter := l.removeKey key

/-- A completed call. -/
inductive Event where
  | check (r : Request) (readings : ℕ → Readings)
  | sweep (clock : ℕ)
  | clear (key : String)

def handle (l : RateLimiter) : Event → RateLimiter
  | .check r readings => (l.checkAndRecordStatus r readings).1
  | .sweep clock => (l.sweepExpired clock).1
  | .clear key => l.clear key

/-- The counter covers the keys, within the cap. -/
structure Capped (l : RateLimiter) : Prop where
  covered : l.windows.size ≤ l.tracked
  capped : l.tracked ≤ maxTrackedKeys

section Operations
variable {l : RateLimiter} {r : Request} {key victim : String} {a : Readings}

theorem lookup_sweepExpired (l : RateLimiter) (clock : ℕ) (key : String) :
    (l.sweepExpired clock).1.windows.lookup key = (l.windows.lookup key).bind fun window =>
      if (prune (windowStart clock) window).isEmpty then none
      else some (prune (windowStart clock) window) :=
  Table.lookup_retain _ _ _

theorem size_sweepExpired (l : RateLimiter) (clock : ℕ) :
    (l.sweepExpired clock).1.windows.size ≤ l.windows.size := Table.size_retain_le _ _

theorem tracked_sweepExpired (l : RateLimiter) (clock : ℕ) :
    (l.sweepExpired clock).1.tracked = (l.sweepExpired clock).1.windows.size := rfl

/-- An eviction takes an entry from the map and from the counter, unless it met none. -/
theorem evictIdlestOfSample_cases (l : RateLimiter) (exclude : String) (clock : ℕ)
    (met : List (String × Window)) :
    (∃ victim window, l.windows.lookup victim = some window ∧ victim ≠ exclude ∧
      l.evictIdlestOfSample exclude clock met = (l.removeKey victim).releaseSlot) ∨
    l.evictIdlestOfSample exclude clock met = l ∧
      ((∀ e ∈ met, e.1 = exclude) ∨ ∃ e ∈ met, l.windows.lookup e.1 = none) := by
  unfold evictIdlestOfSample idlest
  cases hmin : List.argmin (fun e : String × Window => bucketRank (windowStart clock) e.2)
      ((met.filter fun e => e.1 ≠ exclude).take lruSampleSize) with
  | none =>
    refine .inr ⟨rfl, .inl ?_⟩
    have hnone := List.argmin_eq_none.mp hmin
    rw [List.take_eq_nil_iff, or_iff_right (by decide), List.filter_eq_nil_iff] at hnone
    simpa using hnone
  | some e =>
    have hmem := List.mem_filter.mp (List.mem_of_mem_take (List.argmin_mem hmin))
    simp only [Option.map_some]
    cases hlookup : l.windows.lookup e.1 with
    | some window => exact .inl ⟨e.1, window, hlookup, by simpa using hmem.2, rfl⟩
    | none => exact .inr ⟨rfl, .inr ⟨e, hmem.1, hlookup⟩⟩

theorem Capped.new : Capped .new := ⟨le_rfl, Nat.zero_le _⟩

theorem Capped.sweepExpired (h : l.Capped) (clock : ℕ) : (l.sweepExpired clock).1.Capped := by
  have hsize := size_sweepExpired l clock
  have htracked := tracked_sweepExpired l clock
  have hcovered := h.covered
  have hcapped := h.capped
  constructor <;> omega

/-- An eviction of what is there. -/
theorem Capped.evict (h : l.Capped) {window : Window}
    (hlookup : l.windows.lookup victim = some window) :
    (l.removeKey victim).releaseSlot.Capped ∧
    (l.removeKey victim).releaseSlot.tracked + 1 = l.tracked := by
  have hsize : (l.removeKey victim).windows.size + 1 = l.windows.size := Table.size_erase hlookup
  have hcovered := h.covered
  have hcapped := h.capped
  have hpos : l.tracked ≠ 0 := by omega
  have htracked : (l.removeKey victim).releaseSlot.tracked = l.tracked - 1 := by
    simp [releaseSlot, removeKey, hpos]
  have hkept : (l.removeKey victim).releaseSlot.windows.size + 1 = l.windows.size := hsize
  refine ⟨⟨?_, ?_⟩, ?_⟩ <;> omega

theorem Capped.clear (h : l.Capped) (key : String) : (l.clear key).Capped :=
  ⟨(Table.size_erase_le l.windows key).trans h.covered, h.capped⟩

theorem reserveSlot_some (h : l.tracked < maxTrackedKeys) :
    l.reserveSlot = some { l with tracked := l.tracked + 1 } := if_pos h

theorem reserveSlot_none (h : ¬ l.tracked < maxTrackedKeys) : l.reserveSlot = none := if_neg h

/-- A reclaim is the sweep, or the sweep and the eviction of one more entry. -/
theorem reclaim_cases (l : RateLimiter) (key : String) (a : Readings) :
    l.reclaim key a = (l.sweepExpired a.sweepClock).1 ∨
    ∃ victim window, (l.sweepExpired a.sweepClock).1.windows.lookup victim = some window ∧
      victim ≠ key ∧
      l.reclaim key a = ((l.sweepExpired a.sweepClock).1.removeKey victim).releaseSlot := by
  unfold reclaim
  dsimp only
  split_ifs
  · rcases evictIdlestOfSample_cases (l.sweepExpired a.sweepClock).1 key a.evictClock
        (a.iter (l.sweepExpired a.sweepClock).1.windows) with hevicted | hkept
    · exact .inr hevicted
    · exact .inl hkept.1
  · exact .inl rfl

theorem Capped.reclaim (h : l.Capped) (key : String) (a : Readings) : (l.reclaim key a).Capped := by
  have hswept := h.sweepExpired a.sweepClock
  rcases reclaim_cases l key a with heq | ⟨victim, window, hlookup, -, heq⟩
  · rwa [heq]
  · rw [heq]
    exact (hswept.evict hlookup).1

/-- There is room after a reclaim: the sweep removed a key, or the map had shrunk behind the
counter's back, or an entry could be evicted. -/
theorem Capped.reclaim_room (h : l.Capped) (hiter : a.Iterates)
    (hnew : l.windows.lookup key = none) : (l.reclaim key a).tracked < maxTrackedKeys := by
  have hswept := h.sweepExpired a.sweepClock
  have hsize := size_sweepExpired l a.sweepClock
  have htracked := tracked_sweepExpired l a.sweepClock
  have hcovered := h.covered
  have hcapped := h.capped
  have hnone : (l.sweepExpired a.sweepClock).1.windows.lookup key = none := by
    simp [lookup_sweepExpired, hnew]
  have hremoved : (l.sweepExpired a.sweepClock).2 =
      l.windows.size - (l.sweepExpired a.sweepClock).1.windows.size := rfl
  unfold RateLimiter.reclaim
  dsimp only
  by_cases hzero : (l.sweepExpired a.sweepClock).2 = 0
  · rw [if_pos hzero]
    rcases evictIdlestOfSample_cases (l.sweepExpired a.sweepClock).1 key a.evictClock
        (a.iter (l.sweepExpired a.sweepClock).1.windows) with
      ⟨victim, window, hlookup, -, heq⟩ | ⟨heq, hall | ⟨e, he, hmissing⟩⟩
    · have hgone := (hswept.evict hlookup).2
      rw [heq]
      omega
    · -- nothing but the new key was met, and it is not there
      have hempty : (l.sweepExpired a.sweepClock).1.windows.keys = [] := by
        rw [Table.keys_eq_nil_iff]
        intro other
        rw [Option.eq_none_iff_forall_ne_some]
        intro window hlookup
        have hkey : other = key := hall (other, window) ((hiter _ _).mpr hlookup)
        rw [hkey, hnone] at hlookup
        cases hlookup
      have hsize0 : (l.sweepExpired a.sweepClock).1.windows.size = 0 :=
        congrArg List.length hempty
      rw [heq, htracked, hsize0]
      decide
    · rw [(hiter _ _).mp he] at hmissing
      cases hmissing
  · rw [if_neg hzero]
    omega

end Operations

/-- What became of the buckets of `l`: evicted, swept because each of their timestamps had left the
window, or still there without some that had. -/
def Sheds (l l' : RateLimiter) (failed : List Readings) (shed : List String) : Prop :=
  ∀ key window, l.windows.lookup key = some window →
    key ∈ shed ∨ (∃ a ∈ failed, ∀ t ∈ window, t < windowStart a.sweepClock) ∨
    ∃ dropped kept, window = dropped ++ kept ∧ l'.windows.lookup key = some kept ∧
      ∀ t ∈ dropped, ∃ a ∈ failed, t < windowStart a.sweepClock

section Attempts
variable {l : RateLimiter} {r : Request} {key : String} {a : Readings}

theorem prune_split (start : ℕ) (window : Window) :
    ∃ dropped, window = dropped ++ prune start window ∧ ∀ t ∈ dropped, t < start := by
  refine ⟨window.takeWhile (· < start), by simp [prune], ?_⟩
  intro t ht
  simpa using List.mem_takeWhile_imp ht

theorem reclaim_sheds (l : RateLimiter) (key : String) (a : Readings) :
    ∃ shed : List String, shed.length ≤ 1 ∧ key ∉ shed ∧ Sheds l (l.reclaim key a) [a] shed := by
  have hswept : ∀ other window, l.windows.lookup other = some window →
      (∀ t ∈ window, t < windowStart a.sweepClock) ∨
      (l.sweepExpired a.sweepClock).1.windows.lookup other =
        some (prune (windowStart a.sweepClock) window) := by
    intro other window hwindow
    rw [lookup_sweepExpired, hwindow]
    by_cases hempty : prune (windowStart a.sweepClock) window = []
    · obtain ⟨dropped, hsplit, hdropped⟩ := prune_split (windowStart a.sweepClock) window
      rw [hempty, List.append_nil] at hsplit
      exact .inl (hsplit ▸ hdropped)
    · exact .inr (by simp [hempty])
  -- every bucket that the eviction spares is as the sweep left it
  have hspared : ∀ shed : List String, (∀ other ∉ shed, (l.reclaim key a).windows.lookup other =
      (l.sweepExpired a.sweepClock).1.windows.lookup other) →
      Sheds l (l.reclaim key a) [a] shed := by
    intro shed hsame other window hwindow
    by_cases hother : other ∈ shed
    · exact .inl hother
    rcases hswept other window hwindow with hexpired | hkept
    · exact .inr (.inl ⟨a, by simp, hexpired⟩)
    · obtain ⟨dropped, hsplit, hdropped⟩ := prune_split (windowStart a.sweepClock) window
      exact .inr (.inr ⟨dropped, _, hsplit, (hsame other hother).trans hkept,
        fun t ht => ⟨a, by simp, hdropped t ht⟩⟩)
  rcases reclaim_cases l key a with heq | ⟨victim, gone, -, hne, heq⟩
  · refine ⟨[], by simp, by simp, hspared [] ?_⟩
    intro other _
    rw [heq]
  · refine ⟨[victim], by simp, by simpa using hne.symm, hspared [victim] ?_⟩
    intro other hother
    have hother : other ≠ victim := by simpa using hother
    rw [heq]
    simp [removeKey, releaseSlot, hother]

theorem reclaim_new (hnew : l.windows.lookup key = none) (a : Readings) :
    (l.reclaim key a).windows.lookup key = none := by
  have hswept : (l.sweepExpired a.sweepClock).1.windows.lookup key = none := by
    simp [lookup_sweepExpired, hnew]
  rcases reclaim_cases l key a with heq | ⟨victim, gone, -, -, heq⟩
  · rwa [heq]
  · rw [heq]
    simp [removeKey, releaseSlot, hswept]

/-- A slot that was won is not yet used. -/
theorem Capped.winSlot (h : l.Capped) (key : String) (attempts : List Readings) :
    (RateLimiter.winSlot key l attempts).1.Capped ∧
    ((RateLimiter.winSlot key l attempts).2 = true →
      (RateLimiter.winSlot key l attempts).1.windows.size <
        (RateLimiter.winSlot key l attempts).1.tracked) := by
  induction attempts generalizing l with
  | nil => exact ⟨h, by simp [RateLimiter.winSlot]⟩
  | cons a attempts ih =>
    have hcovered := h.covered
    by_cases hroom : l.tracked < maxTrackedKeys
    · simp only [RateLimiter.winSlot, reserveSlot_some hroom]
      exact ⟨⟨by dsimp only; omega, hroom⟩, fun _ => Nat.lt_succ_of_le hcovered⟩
    · simp only [RateLimiter.winSlot, reserveSlot_none hroom]
      exact ih (h.reclaim key a)

theorem Capped.recordIn (h : l.Capped) {out : RateLimiter × RateLimitDecision}
    (hout : l.recordIn r = some out) : out.1.Capped := by
  obtain ⟨hsize, htracked⟩ := recordIn_keeps hout
  exact ⟨hsize ▸ htracked ▸ h.covered, htracked ▸ h.capped⟩

theorem Capped.checkAndRecordStatus (h : l.Capped) (r : Request) (readings : ℕ → Readings) :
    (l.checkAndRecordStatus r readings).1.Capped := by
  unfold RateLimiter.checkAndRecordStatus
  cases hrecord : l.recordIn r with
  | some out => exact h.recordIn hrecord
  | none =>
    obtain ⟨hcapped, hslot⟩ := h.winSlot r.key (attempts readings)
    dsimp only
    cases hwin : RateLimiter.winSlot r.key l (attempts readings) with
    | mk l' admitted =>
      rw [hwin] at hcapped hslot
      cases admitted with
      | false => exact hcapped
      | true =>
        have hlt := hslot rfl
        have hle := hcapped.capped
        dsimp only at hlt hle ⊢
        cases hrecord' : l'.recordIn r with
        | some out =>
          obtain ⟨hsize, htracked⟩ := recordIn_keeps hrecord'
          have hpos : out.1.tracked ≠ 0 := by omega
          constructor
          · simp only [releaseSlot, hpos, if_false]
            omega
          · simp only [releaseSlot, hpos, if_false]
            omega
        | none =>
          have hsize := recordIn_none hrecord'
          exact ⟨hsize.trans_le hlt, hle⟩

theorem Capped.handle (h : l.Capped) (e : Event) : (l.handle e).Capped := by
  cases e with
  | check r readings => exact h.checkAndRecordStatus r readings
  | sweep clock => exact h.sweepExpired clock
  | clear key => exact h.clear key

theorem capped_of_reaches (h : Reaches (· = new) RateLimiter.handle (fun _ _ => True) l) :
    l.Capped := by
  apply Reaches.invariant _ _ h
  · rintro _ rfl
    exact .new
  · exact fun l e hl _ => hl.handle e

/-- At most one attempt fails. -/
theorem winSlot_attempts (h : l.Capped) {readings : ℕ → Readings}
    (hiter : ∀ i, (readings i).Iterates) (hnew : l.windows.lookup key = none) :
    ∃ l' : RateLimiter, winSlot key l (attempts readings) =
        ({ l' with tracked := l'.tracked + 1 }, true) ∧
      (l' = l ∧ failedAttempts key l (attempts readings) = [] ∨
        l' = l.reclaim key (readings 0) ∧
          failedAttempts key l (attempts readings) = [readings 0]) := by
  have hattempts : attempts readings = [readings 0, readings 1, readings 2] := rfl
  rw [hattempts]
  by_cases hroom : l.tracked < maxTrackedKeys
  · refine ⟨l, ?_, .inl ⟨rfl, ?_⟩⟩
    · simp only [winSlot, reserveSlot_some hroom]
    · simp only [failedAttempts, reserveSlot_some hroom]
  · have hnext := h.reclaim_room (hiter 0) hnew
    refine ⟨l.reclaim key (readings 0), ?_, .inr ⟨rfl, ?_⟩⟩
    · simp only [winSlot, reserveSlot_none hroom, reserveSlot_some hnext]
    · simp only [failedAttempts, reserveSlot_none hroom, reserveSlot_some hnext]

/-- A call on a new key makes a bucket for it, in what at most one reclaim left. -/
theorem checkAndRecordStatus_new (h : l.Capped) {readings : ℕ → Readings}
    (hiter : ∀ i, (readings i).Iterates) (hnew : l.windows.lookup r.key = none) :
    ∃ l' : RateLimiter,
      l.checkAndRecordStatus r readings =
        RateLimiter.createBucket { l' with tracked := l'.tracked + 1 } r ∧
      l'.windows.lookup r.key = none ∧
      (l' = l ∧ failedAttempts r.key l (attempts readings) = [] ∨
        l' = l.reclaim r.key (readings 0) ∧
          failedAttempts r.key l (attempts readings) = [readings 0]) := by
  obtain ⟨l', hwin, hcases⟩ := winSlot_attempts h hiter hnew
  have hnew' : l'.windows.lookup r.key = none := by
    rcases hcases with ⟨rfl, -⟩ | ⟨rfl, -⟩
    · exact hnew
    · exact reclaim_new hnew _
  have hfirst : l.recordIn r = none := by simp [RateLimiter.recordIn, hnew]
  have hsecond : RateLimiter.recordIn { l' with tracked := l'.tracked + 1 } r = none := by
    simp [RateLimiter.recordIn, hnew']
  refine ⟨l', ?_, hnew', hcases⟩
  simp only [checkAndRecordStatus, hfirst, hwin, hsecond]

theorem createBucket_sheds {l₀ : RateLimiter} {failed : List Readings} {shed : List String}
    (h : Sheds l₀ l failed shed) (hnew : l₀.windows.lookup r.key = none) (tracked : ℕ) :
    Sheds l₀ (RateLimiter.createBucket { l with tracked := tracked } r).1 failed shed := by
  intro key window hwindow
  have hkey : key ≠ r.key := by
    rintro rfl
    rw [hnew] at hwindow
    cases hwindow
  rcases h key window hwindow with hshed | hexpired | ⟨dropped, kept, hsplit, hkept, hdropped⟩
  · exact .inl hshed
  · exact .inr (.inl hexpired)
  · refine .inr (.inr ⟨dropped, kept, hsplit, ?_, hdropped⟩)
    simpa [createBucket, hkey] using hkept

theorem Sheds.refl (l : RateLimiter) (failed : List Readings) : Sheds l l failed [] :=
  fun _ window hwindow => .inr (.inr ⟨[], window, rfl, hwindow, by simp⟩)

end Attempts

/-- After any completed calls, in whatever order their clocks run: the counter covers the keys and
both are within the cap; a new key with a limit is let in after at most one failed attempt, which
costs at most one bucket with a timestamp in the window, and not the new one. -/
theorem tracked_keys_sequential {l : RateLimiter}
    (h : Reaches (· = new) handle (fun _ _ => True) l) :
    l.windows.size ≤ l.tracked ∧ l.windows.size ≤ maxTrackedKeys ∧
    ∀ r readings, (∀ i, (readings i).Iterates) → l.windows.lookup r.key = none →
      let out := l.checkAndRecordStatus r readings
      let failed := failedAttempts r.key l (attempts readings)
      (1 ≤ r.limit → out.2.allowed = true ∧ out.1.windows.lookup r.key = some [r.now]) ∧
      failed.length ≤ 1 ∧
      ∃ shed : List String, shed.length ≤ failed.length ∧ r.key ∉ shed ∧
        Sheds l out.1 failed shed := by
  have hcapped := capped_of_reaches h
  refine ⟨hcapped.covered, hcapped.covered.trans hcapped.capped, ?_⟩
  intro r readings hiter hnew
  obtain ⟨l', hout, hnew', hcases⟩ := checkAndRecordStatus_new hcapped hiter hnew
  dsimp only
  rw [hout]
  refine ⟨?_, ?_, ?_⟩
  · intro hlimit
    have hpos : 0 < r.limit := hlimit
    simp [createBucket, pruneAndRecord, prune, hpos]
  · rcases hcases with ⟨-, hfailed⟩ | ⟨-, hfailed⟩ <;> simp [hfailed]
  · rcases hcases with ⟨rfl, hfailed⟩ | ⟨rfl, hfailed⟩
    · exact ⟨[], by simp, by simp, createBucket_sheds (Sheds.refl l' _) hnew _⟩
    · obtain ⟨shed, hlength, hkey, hsheds⟩ := reclaim_sheds l r.key (readings 0)
      rw [hfailed]
      exact ⟨shed, hlength, hkey, createBucket_sheds hsheds hnew _⟩

/-- An iteration in the order of the table. -/
def inTableOrder (clock : ℕ) : Readings :=
  ⟨clock, clock, fun windows => windows.select fun _ _ => true⟩

theorem inTableOrder_iterates (clock : ℕ) : (inTableOrder clock).Iterates := by
  intro windows e
  simpa [inTableOrder] using Table.mem_select windows (fun _ _ => true) e.1 e.2

def clearedThenChecked : List Event :=
  [.check ⟨"first", 1, 1000⟩ fun _ => inTableOrder 1000, .clear "first",
    .check ⟨"second", 2, 2000⟩ fun _ => inTableOrder 2000]

theorem tracked_keys_sequential_cleared :
    (clearedThenChecked.foldl handle new).windows.size ≤
      (clearedThenChecked.foldl handle new).tracked ∧
    ((clearedThenChecked.foldl handle new).checkAndRecordStatus ⟨"third", 1, 3000⟩
      fun _ => inTableOrder 3000).2.allowed = true := by
  have hstart : Reaches (· = new) handle (fun _ _ => True) new := .start rfl
  have hallowed : Allowed handle (fun _ _ => True) new clearedThenChecked :=
    ⟨trivial, trivial, trivial, trivial⟩
  obtain ⟨hcovered, -, hnew⟩ := tracked_keys_sequential (hstart.run hallowed)
  have hthird := hnew ⟨"third", 1, 3000⟩ (fun _ => inTableOrder 3000)
    (fun _ => inTableOrder_iterates 3000) (by decide +kernel)
  exact ⟨hcovered, (hthird.1 le_rfl).1⟩

end RateLimiter
end Auth
end OptionChainBackend
