import Mathlib.Algebra.BigOperators.Intervals
import OptionChainBackend.Auth.Sequential

/-!
A call of the limiter that no other call interrupts, operation by operation, ends where the
sequential call ends.
-/
namespace OptionChainBackend
namespace Auth
open Foundation RateLimiter

section Sweeps
variable (shardOf : String → ℕ) (shardCount : ℕ)

/-- A sweep takes its operations with nobody else moving. -/
abbrev Sweeps (c c' : RateLimiter × SweepPoint) : Prop :=
  Relation.ReflTransGen (fun c c' => c.2.step shardOf shardCount c.1 = c') c c'

variable {shardOf : String → ℕ} {shardCount : ℕ} {l : RateLimiter}

/-- A running total over the shards. -/
theorem sweeps_total {p : ℕ → ℕ → SweepPoint} {done : ℕ → SweepPoint}
    (hstep : ∀ shard sum, (p shard sum).step shardOf shardCount l =
      if shard < shardCount then (l, p (shard + 1) (sum + l.shardLen shardOf shard))
      else (l, done sum)) (shard sum : ℕ) :
    Sweeps shardOf shardCount (l, p shard sum)
      (l, done (sum + ∑ i ∈ Finset.Ico shard shardCount, l.shardLen shardOf i)) := by
  by_cases hlt : shard < shardCount
  · have hrest := sweeps_total hstep (shard + 1) (sum + l.shardLen shardOf shard)
    rw [Finset.sum_eq_sum_Ico_succ_bot hlt, ← add_assoc]
    exact .head (by rw [hstep, if_pos hlt]) hrest
  · rw [Finset.Ico_eq_empty (by omega), Finset.sum_empty, add_zero]
    exact .single (by rw [hstep, if_neg hlt])
termination_by shardCount - shard

/-- The shards together hold every key. -/
theorem sum_shardLen (hshard : ∀ key, shardOf key < shardCount) (l : RateLimiter) :
    ∑ i ∈ Finset.Ico 0 shardCount, l.shardLen shardOf i = l.windows.size := by
  unfold shardLen Table.size
  induction l.windows.keys with
  | nil => simp
  | cons key keys ih =>
    have hone : ∑ i ∈ Finset.Ico 0 shardCount, (if shardOf key = i then 1 else 0) = 1 := by
      simp [hshard key]
    calc ∑ i ∈ Finset.Ico 0 shardCount, ((key :: keys).filter fun key => shardOf key = i).length
        = ∑ i ∈ Finset.Ico 0 shardCount, ((keys.filter fun key => shardOf key = i).length +
            if shardOf key = i then 1 else 0) := by
          apply Finset.sum_congr rfl
          intro i _
          by_cases hi : shardOf key = i <;> simp [hi]
      _ = (key :: keys).length := by rw [Finset.sum_add_distrib, ih, hone, List.length_cons]

/-- `windows.len()`, one shard after the other. -/
theorem sweeps_len (hshard : ∀ key, shardOf key < shardCount) (p : ℕ → ℕ → SweepPoint)
    (done : ℕ → SweepPoint) (hstep : ∀ shard sum, (p shard sum).step shardOf shardCount l =
      if shard < shardCount then (l, p (shard + 1) (sum + l.shardLen shardOf shard))
      else (l, done sum)) :
    Sweeps shardOf shardCount (l, p 0 0) (l, done l.windows.size) := by
  have htotal := sweeps_total hstep 0 0
  rwa [sum_shardLen hshard, zero_add] at htotal

/-- What a sweep keeps of a bucket. -/
def sweptBucket (start : ℕ) (window : Window) : Option Window :=
  if (prune start window).isEmpty then none else some (prune start window)

/-- The map with the shards from `shard` on swept. -/
theorem sweeps_retain (l : RateLimiter) (start before shard : ℕ) :
    Sweeps shardOf shardCount (l, .retaining start before shard)
      ({ l with windows := l.windows.retain fun key window =>
          if shard ≤ shardOf key ∧ shardOf key < shardCount then sweptBucket start window
          else some window }, .recounting before 0 0) := by
  by_cases hlt : shard < shardCount
  · have hrest := sweeps_retain (l.retainShard shardOf start shard) start before (shard + 1)
    have hboth : ∀ key window,
        (if shard ≤ shardOf key ∧ shardOf key < shardCount then sweptBucket start window
          else some window) =
        (if shardOf key = shard then sweptBucket start window else some window).bind fun window =>
          if shard + 1 ≤ shardOf key ∧ shardOf key < shardCount then sweptBucket start window
          else some window := by
      intro key window
      by_cases hkey : shardOf key = shard
      · cases sweptBucket start window <;> simp [hkey, hlt]
      · have hiff : shard ≤ shardOf key ↔ shard + 1 ≤ shardOf key := by omega
        simp [hkey, hiff]
    simp only [hboth, ← Table.retain_retain]
    refine .head ?_ hrest
    simp only [SweepPoint.step, if_pos hlt]
  · have hall : ∀ key window, (if shard ≤ shardOf key ∧ shardOf key < shardCount then
        sweptBucket start window else some window) = some window := by
      intro key window
      rw [if_neg (by omega)]
    simp only [hall, Table.retain_all]
    exact .single (by simp only [SweepPoint.step, if_neg hlt])
termination_by shardCount - shard

/-- The whole sweep, up to the store. -/
theorem sweeps_begin (hshard : ∀ key, shardOf key < shardCount) (l : RateLimiter) (now : ℕ) :
    Sweeps shardOf shardCount (l, .begin now)
      ({ l with windows := (l.sweepExpired now).1.windows },
        .storing (l.sweepExpired now).2 (l.sweepExpired now).1.windows.size) := by
  have hswept : (l.windows.retain fun key window =>
      if 0 ≤ shardOf key ∧ shardOf key < shardCount then sweptBucket (windowStart now) window
      else some window) = (l.sweepExpired now).1.windows := by
    simp only [Nat.zero_le, hshard, and_self, if_true]
    rfl
  have hbefore : Sweeps shardOf shardCount (l, .begin now)
      (l, .retaining (windowStart now) l.windows.size 0) :=
    sweeps_len hshard (.counting (windowStart now)) (.retaining (windowStart now) · 0) fun _ _ => rfl
  have hretain : Sweeps shardOf shardCount (l, .retaining (windowStart now) l.windows.size 0)
      ({ l with windows := (l.sweepExpired now).1.windows }, .recounting l.windows.size 0 0) := by
    rw [← hswept]
    exact sweeps_retain l (windowStart now) l.windows.size 0
  refine hbefore.trans (hretain.trans ?_)
  refine (sweeps_len hshard (.recounting l.windows.size) (fun sum =>
    .resizing (l.windows.size - sum) 0 0) fun _ _ => rfl).trans ?_
  exact sweeps_len hshard (.resizing (l.sweepExpired now).2) (.storing (l.sweepExpired now).2)
    fun _ _ => rfl

end Sweeps

section Calls
variable (shardOf : String → ℕ) (shardCount : ℕ)

/-- A call takes its operations with nobody else moving. -/
abbrev Runs (c c' : RateLimiter × Call) : Prop :=
  Relation.ReflTransGen
    (fun c c' => ∃ clock met, c.2.step shardOf shardCount c.1 clock met = c') c c'

variable {shardOf : String → ℕ} {shardCount : ℕ} {l l' : RateLimiter} {r : Request}

/-- The operations of a sweep are those of the call that runs it, until the store. -/
theorem runs_of_sweeps (call : SweepPoint → Call)
    (hcall : ∀ l p clock met, (∀ removed size, p ≠ .storing removed size) →
      (call p).step shardOf shardCount l clock met =
        ((p.step shardOf shardCount l).1, call (p.step shardOf shardCount l).2))
    {c c' : RateLimiter × SweepPoint} (h : Sweeps shardOf shardCount c c') :
    Runs shardOf shardCount (c.1, call c.2) (c'.1, call c'.2) := by
  induction h with
  | refl => exact .refl
  | tail _ hstep ih =>
    subst hstep
    rename_i d _
    obtain ⟨l, p⟩ := d
    by_cases hstoring : ∃ removed size, p = .storing removed size
    · obtain ⟨removed, size, rfl⟩ := hstoring
      exact ih
    · refine ih.tail ⟨0, [], ?_⟩
      exact hcall l p 0 [] fun removed size he => hstoring ⟨removed, size, he⟩

variable (hshard : ∀ key, shardOf key < shardCount)
include hshard

/-- `sweep_expired` alone. -/
theorem runs_sweep (l : RateLimiter) (now : ℕ) : Runs shardOf shardCount (l, .sweep (.begin now))
    ((l.sweepExpired now).1, .swept (l.sweepExpired now).2) := by
  have hsweeps := runs_of_sweeps Call.sweep (fun l p clock met hp => by
    cases p with
    | storing removed size => exact absurd rfl (hp removed size)
    | _ => rfl) (sweeps_begin hshard l now)
  exact hsweeps.tail ⟨0, [], rfl⟩

/-- A failed attempt to win a slot: sweep, and evict when nothing was swept. -/
theorem runs_reclaim (l : RateLimiter) (r : Request) (tries : ℕ) (a : Readings) :
    Runs shardOf shardCount (l, .reclaim r tries (.begin a.sweepClock))
      (l.reclaim r.key a, .retry r tries) := by
  have hsweeps := runs_of_sweeps (Call.reclaim r tries) (fun l p clock met hp => by
    cases p with
    | storing removed size => exact absurd rfl (hp removed size)
    | _ => rfl) (sweeps_begin hshard l a.sweepClock)
  unfold RateLimiter.reclaim
  dsimp only
  by_cases hnone : (l.sweepExpired a.sweepClock).2 = 0
  · rw [if_pos hnone]
    have hstored := hsweeps.tail (c := ((l.sweepExpired a.sweepClock).1, Call.sample r tries))
      ⟨0, [], by simp only [Call.step, hnone, if_true]; rfl⟩
    refine hstored.trans ?_
    unfold evictIdlestOfSample
    cases hvictim : idlest (windowStart a.evictClock) r.key
        (a.iter (l.sweepExpired a.sweepClock).1.windows) with
    | none =>
      refine .single ⟨a.evictClock, a.iter (l.sweepExpired a.sweepClock).1.windows, ?_⟩
      simp only [Call.step, hvictim]
    | some victim =>
      refine .head ⟨a.evictClock, a.iter (l.sweepExpired a.sweepClock).1.windows, rfl⟩ ?_
      simp only [Call.step, hvictim]
      cases hlookup : (l.sweepExpired a.sweepClock).1.windows.lookup victim with
      | none =>
        refine .single ⟨0, [], ?_⟩
        simp only [hlookup]
      | some window =>
        refine .head ⟨0, [], rfl⟩ ?_
        simp only [hlookup]
        exact .single ⟨0, [], rfl⟩
  · rw [if_neg hnone]
    refine hsweeps.tail ⟨0, [], ?_⟩
    simp only [Call.step, hnone, if_false]
    rfl

/-- The attempts to win a slot. -/
theorem runs_winSlot (l : RateLimiter) (r : Request) (attempts : List Readings) :
    Runs shardOf shardCount (l, .retry r attempts.length) ((winSlot r.key l attempts).1,
      if (winSlot r.key l attempts).2 = true then .enter r else .checked (rejection r.now)) := by
  induction attempts generalizing l with
  | nil => exact .refl
  | cons a attempts ih =>
    cases hslot : l.reserveSlot with
    | some l' =>
      refine .single ⟨0, [], ?_⟩
      simp [Call.retry, Call.step, winSlot, hslot]
    | none =>
      have hfirst : Runs shardOf shardCount (l, .retry r (a :: attempts).length)
          (l, .reclaim r attempts.length (.begin a.sweepClock)) := by
        refine .single ⟨a.sweepClock, [], ?_⟩
        simp [Call.retry, Call.step, hslot]
      refine hfirst.trans ((runs_reclaim hshard l r attempts.length a).trans ?_)
      simpa only [winSlot, hslot] using ih (l.reclaim r.key a)

/-- `check_and_record_status` alone. -/
theorem runs_check (l : RateLimiter) (r : Request) (readings : ℕ → Readings) :
    Runs shardOf shardCount (l, .lookup r) ((l.checkAndRecordStatus r readings).1,
      .checked (l.checkAndRecordStatus r readings).2) := by
  unfold RateLimiter.checkAndRecordStatus
  cases hrecord : l.recordIn r with
  | some out =>
    refine .single ⟨0, [], ?_⟩
    simp only [Call.step, hrecord]
  | none =>
    have hfirst : Runs shardOf shardCount (l, .lookup r) (l, .retry r 3) := by
      refine .single ⟨0, [], ?_⟩
      simp only [Call.step, hrecord]
      rfl
    refine hfirst.trans ((runs_winSlot hshard l r (attempts readings)).trans ?_)
    cases hwin : winSlot r.key l (attempts readings) with
    | mk l' admitted =>
      cases admitted with
      | false => exact .refl
      | true =>
        simp only [if_true]
        cases hrecord' : l'.recordIn r with
        | some out =>
          refine .head ⟨0, [], rfl⟩ ?_
          simp only [Call.step, hrecord']
          exact .single ⟨0, [], rfl⟩
        | none =>
          refine .single ⟨0, [], ?_⟩
          simp only [Call.step, hrecord']

end Calls
end Auth
end OptionChainBackend
