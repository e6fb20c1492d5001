import OptionChainBackend.Auth.RateLimiter
import OptionChainBackend.Foundation.Pool
import OptionChainBackend.Foundation.Runs

/-!
The cap on tracked keys under concurrency. Calls of `check_and_record_status` and `sweep_expired`
run in any interleaving of their operations on the map and on the counter. As long as every sweep
stores a size that is still right, the counter counts the keys and the slots in flight.
-/
namespace OptionChainBackend
namespace Auth
open Foundation RateLimiter

/-- Where a `sweep_expired` stands; `before` and `removed` are its local variables, `sum` a
running total of `windows.len()`, which visits one shard at a time. -/
inductive SweepPoint where
  | counting (start shard sum : ℕ)
  | retaining (start before shard : ℕ)
  | recounting (before shard sum : ℕ)
  | resizing (removed shard sum : ℕ)
  | storing (removed size : ℕ)

/-- Where a call stands; `tries` counts the admission attempts that are left. -/
inductive Call where
  | lookup (r : Request)
  | reserve (r : Request) (tries : ℕ)
  | reclaim (r : Request) (tries : ℕ) (p : SweepPoint)
  | sample (r : Request) (tries : ℕ)
  | evict (r : Request) (tries : ℕ) (victim : String)
  | release (r : Request) (tries : ℕ)
  | enter (r : Request)
  | refund (decision : RateLimitDecision)
  | checked (decision : RateLimitDecision)
  | sweep (p : SweepPoint)
  | swept (removed : ℕ)

def SweepPoint.begin (now : ℕ) : SweepPoint := .counting (windowStart now) 0 0

/-- The next admission attempt, or the rejection after the last one. -/
def Call.retry (r : Request) : ℕ → Call
  | 0 => .checked (rejection r.now)
  | tries + 1 => .reserve r tries

section Steps
variable (shardOf : String → ℕ) (shardCount : ℕ)

/-- One operation of a sweep, up to the store. -/
def SweepPoint.step (l : RateLimiter) : SweepPoint → RateLimiter × SweepPoint
  | .counting start shard sum =>
    if shard < shardCount then (l, .counting start (shard + 1) (sum + l.shardLen shardOf shard))
    else (l, .retaining start sum 0)
  | .retaining start before shard =>
    if shard < shardCount then
      (l.retainShard shardOf start shard, .retaining start before (shard + 1))
    else (l, .recounting before 0 0)
  | .recounting before shard sum =>
    if shard < shardCount then (l, .recounting before (shard + 1) (sum + l.shardLen shardOf shard))
    else (l, .resizing (before - sum) 0 0)
  | .resizing removed shard sum =>
    if shard < shardCount then (l, .resizing removed (shard + 1) (sum + l.shardLen shardOf shard))
    else (l, .storing removed sum)
  | .storing removed size => (l, .storing removed size)

/-- One operation of a call; `clock` is what `now_millis` reads and `met` what an iteration over
the map meets, if it takes place now. -/
def Call.step (l : RateLimiter) (clock : ℕ) (met : List (String × Window)) :
    Call → RateLimiter × Call
  | .lookup r =>
    match l.recordIn r with
    | some (l, decision) => (l, .checked decision)
    | none => (l, .reserve r 2)
  | .reserve r tries =>
    match l.reserveSlot with
    | some l => (l, .enter r)
    | none => (l, .reclaim r tries (.begin clock))
  | .reclaim r tries (.storing removed size) =>
    (l.storeTracked size, if removed = 0 then .sample r tries else .retry r tries)
  | .reclaim r tries p => ((p.step shardOf shardCount l).1,
      .reclaim r tries (p.step shardOf shardCount l).2)
  | .sample r tries =>
    match idlest (windowStart clock) r.key met with
    | some victim => (l, .evict r tries victim)
    | none => (l, .retry r tries)
  | .evict r tries victim =>
    match l.windows.lookup victim with
    | some _ => (l.removeKey victim, .release r tries)
    | none => (l, .retry r tries)
  | .release r tries => (l.releaseSlot, .retry r tries)
  -- the shard stays locked between the two operations on an occupied entry
  | .enter r =>
    match l.recordIn r with
    | some (l, decision) => (l, .refund decision)
    | none => ((l.createBucket r).1, .checked (l.createBucket r).2)
  | .refund decision => (l.releaseSlot, .checked decision)
  | .checked decision => (l, .checked decision)
  | .sweep (.storing removed size) => (l.storeTracked size, .swept removed)
  | .sweep p => ((p.step shardOf shardCount l).1, .sweep (p.step shardOf shardCount l).2)
  | .swept removed => (l, .swept removed)

/-- The limiter and every call made so far. -/
abbrev Gateway := Pool RateLimiter Call

/-- A call begins, or call `i` makes its next operation. -/
inductive Move where
  | check (r : Request)
  | sweep (now : ℕ)
  | step (i clock : ℕ) (met : List (String × Window))

def Gateway.move (g : Gateway) : Move → Gateway
  | .check r => g.start (.lookup r)
  | .sweep now => g.start (.sweep (.begin now))
  | .step i clock met => g.advance i fun l c => c.step shardOf shardCount l clock met

end Steps

/-- A slot the counter holds for the call and the map does not show: won and not yet used, or
evicted and not yet given back. -/
def Call.slots : Call → ℕ
  | .enter _ | .refund _ | .release _ _ => 1
  | _ => 0

def Call.Returned : Call → Prop
  | .checked _ | .swept _ => True
  | _ => False

/-- The size the call is about to store in the counter. -/
def Call.stores : Call → Option ℕ
  | .reclaim _ _ (.storing _ size) | .sweep (.storing _ size) => some size
  | _ => none

/-- Its sweep has dropped keys the counter still counts, perhaps. -/
def Call.Sweeping : Call → Prop
  | .reclaim _ _ (.counting ..) | .sweep (.counting ..) => False
  | .reclaim .. | .sweep _ => True
  | _ => False

namespace Gateway

/-- The keys in the map and the slots in flight. -/
def taken (g : Gateway) : ℕ := g.shared.windows.size + g.held Call.slots

def Quiescent (g : Gateway) : Prop := ∀ c ∈ g.calls, c.Returned

/-- Nobody is calling, and the counter is the number of keys. -/
structure Start (g : Gateway) : Prop where
  idle : g.calls = []
  counted : g.shared.tracked = g.shared.windows.size
  capped : g.shared.tracked ≤ maxTrackedKeys

/-- A sweep stores a size only while it is the number of keys and slots in flight. -/
def Timely (g : Gateway) : Move → Prop
  | .step i _ _ => ∀ c ∈ g.calls[i]?, ∀ size ∈ c.stores, size = g.taken
  | _ => True

/-- The counter counts what is taken, and more only while a sweep has yet to store. -/
structure Counted (g : Gateway) : Prop where
  le : g.taken ≤ g.shared.tracked
  eq : (∃ c ∈ g.calls, c.Sweeping) ∨ g.taken = g.shared.tracked
  capped : g.shared.tracked ≤ maxTrackedKeys

end Gateway

/-- What one operation of a call does to the keys, the slots and the counter. -/
inductive Effect (l l' : RateLimiter) (c c' : Call) : Prop where
  | keep (htaken : l'.windows.size + c'.slots = l.windows.size + c.slots)
      (htracked : l'.tracked = l.tracked) (hsweeping : c.Sweeping → c'.Sweeping)
  | win (hroom : l.tracked < maxTrackedKeys) (htracked : l'.tracked = l.tracked + 1)
      (hsize : l'.windows.size = l.windows.size) (hslots : c.slots = 0 ∧ c'.slots = 1)
      (hsweeping : ¬ c.Sweeping)
  | giveBack (htracked : l'.tracked = if l.tracked = 0 then usizeMax else l.tracked - 1)
      (hsize : l'.windows.size = l.windows.size) (hslots : c.slots = 1 ∧ c'.slots = 0)
      (hsweeping : ¬ c.Sweeping)
  | drop (htracked : l'.tracked = l.tracked) (hsize : l'.windows.size ≤ l.windows.size)
      (hslots : c.slots = 0 ∧ c'.slots = 0) (hsweeping : c'.Sweeping)
  | store (n : ℕ) (hstores : c.stores = some n) (htracked : l'.tracked = n)
      (hsize : l'.windows.size = l.windows.size) (hslots : c.slots = 0 ∧ c'.slots = 0)

section Effects
variable (shardOf : String → ℕ) (shardCount : ℕ) {l : RateLimiter} {r : Request}

theorem recordIn_keeps {out : RateLimiter × RateLimitDecision} (h : l.recordIn r = some out) :
    out.1.windows.size = l.windows.size ∧ out.1.tracked = l.tracked := by
  obtain ⟨window, hw, rfl⟩ := Option.map_eq_some_iff.mp h
  exact ⟨Table.size_insert_old hw _, rfl⟩

theorem recordIn_none (h : l.recordIn r = none) :
    (l.createBucket r).1.windows.size = l.windows.size + 1 :=
  Table.size_insert_new (Option.map_eq_none_iff.mp h) _

theorem retry_slots (r : Request) (tries : ℕ) :
    (Call.retry r tries).slots = 0 := by
  cases tries <;> rfl

/-- A sweep short of its store only drops keys. -/
theorem sweepStep_effect (l : RateLimiter) (p : SweepPoint) :
    (p.step shardOf shardCount l).1.tracked = l.tracked ∧
    ((p.step shardOf shardCount l).1.windows.size = l.windows.size ∨
      (p.step shardOf shardCount l).1.windows.size ≤ l.windows.size ∧
      ∃ start before shard, (p.step shardOf shardCount l).2 = .retaining start before shard) := by
  cases p with
  | retaining start before shard =>
    unfold SweepPoint.step
    dsimp only
    split_ifs
    · exact ⟨rfl, .inr ⟨Table.size_retain_le _ _, start, before, shard + 1, rfl⟩⟩
    · exact ⟨rfl, .inl rfl⟩
  | storing removed size => exact ⟨rfl, .inl rfl⟩
  | counting start shard sum | recounting before shard sum | resizing removed shard sum =>
    unfold SweepPoint.step
    dsimp only
    split_ifs <;> exact ⟨rfl, .inl rfl⟩

/-- A sweep that has begun to drop keys goes on until it stores. -/
theorem sweepStep_counting {p : SweepPoint} (h : ∀ start shard sum, p ≠ .counting start shard sum)
    (start shard sum : ℕ) : (p.step shardOf shardCount l).2 ≠ .counting start shard sum := by
  cases p with
  | counting start shard sum => exact absurd rfl (h start shard sum)
  | storing removed size => exact h start shard sum
  | retaining _ _ _ | recounting _ _ _ | resizing _ _ _ =>
    unfold SweepPoint.step
    dsimp only
    split_ifs <;> simp

theorem sweeping_reclaim {tries : ℕ} {p : SweepPoint} : (Call.reclaim r tries p).Sweeping ↔
    ∀ start shard sum, p ≠ .counting start shard sum := by
  cases p <;> simp [Call.Sweeping]

theorem sweeping_sweep {p : SweepPoint} : (Call.sweep p).Sweeping ↔
    ∀ start shard sum, p ≠ .counting start shard sum := by
  cases p <;> simp [Call.Sweeping]

theorem step_effect (l : RateLimiter) (clock : ℕ) (met : List (String × Window)) (c : Call) :
    Effect l (c.step shardOf shardCount l clock met).1 c
      (c.step shardOf shardCount l clock met).2 := by
  have hreclaim : ∀ r tries p, Effect l (p.step shardOf shardCount l).1 (.reclaim r tries p)
      (.reclaim r tries (p.step shardOf shardCount l).2) := by
    intro r tries p
    obtain ⟨htracked, hsize | ⟨hle, start, before, shard, hnext⟩⟩ :=
      sweepStep_effect shardOf shardCount l p
    · apply Effect.keep (by simp only [hsize]; rfl) htracked
      rw [sweeping_reclaim, sweeping_reclaim]
      exact sweepStep_counting shardOf shardCount
    · apply Effect.drop htracked hle ⟨rfl, rfl⟩
      rw [hnext]
      trivial
  have hsweep : ∀ p, Effect l (p.step shardOf shardCount l).1 (.sweep p)
      (.sweep (p.step shardOf shardCount l).2) := by
    intro p
    obtain ⟨htracked, hsize | ⟨hle, start, before, shard, hnext⟩⟩ :=
      sweepStep_effect shardOf shardCount l p
    · apply Effect.keep (by simp only [hsize]; rfl) htracked
      rw [sweeping_sweep, sweeping_sweep]
      exact sweepStep_counting shardOf shardCount
    · apply Effect.drop htracked hle ⟨rfl, rfl⟩
      rw [hnext]
      trivial
  cases c with
  | lookup r =>
    cases h : l.recordIn r with
    | none =>
      simp only [Call.step, h]
      exact .keep rfl rfl False.elim
    | some out =>
      obtain ⟨hsize, htracked⟩ := recordIn_keeps h
      simp only [Call.step, h]
      exact .keep (congrArg (· + 0) hsize) htracked False.elim
  | reserve r tries =>
    simp only [Call.step, reserveSlot]
    by_cases hroom : l.tracked < maxTrackedKeys
    · simp only [hroom, if_true]
      exact .win hroom rfl rfl ⟨rfl, rfl⟩ id
    · simp only [hroom, if_false]
      exact .keep rfl rfl False.elim
  | reclaim r tries p =>
    cases p with
    | storing removed size =>
      refine .store size rfl rfl rfl ⟨rfl, ?_⟩
      show (if removed = 0 then Call.sample r tries else Call.retry r tries).slots = 0
      split_ifs
      · rfl
      · exact retry_slots r tries
    | counting _ _ _ | retaining _ _ _ | recounting _ _ _ | resizing _ _ _ => exact hreclaim r tries _
  | sample r tries =>
    cases h : idlest (windowStart clock) r.key met with
    | some victim =>
      simp only [Call.step, h]
      exact .keep rfl rfl False.elim
    | none =>
      simp only [Call.step, h]
      exact .keep (congrArg (_ + ·) (retry_slots r tries)) rfl False.elim
  | evict r tries victim =>
    cases h : l.windows.lookup victim with
    | some window =>
      simp only [Call.step, h]
      exact .keep (Table.size_erase h) rfl False.elim
    | none =>
      simp only [Call.step, h]
      exact .keep (congrArg (_ + ·) (retry_slots r tries)) rfl False.elim
  | release r tries => exact .giveBack rfl rfl ⟨rfl, retry_slots r tries⟩ id
  | enter r =>
    cases h : l.recordIn r with
    | none =>
      simp only [Call.step, h]
      exact .keep (recordIn_none h) rfl False.elim
    | some out =>
      obtain ⟨hsize, htracked⟩ := recordIn_keeps h
      simp only [Call.step, h]
      exact .keep (congrArg (· + 1) hsize) htracked False.elim
  | refund decision => exact .giveBack rfl rfl ⟨rfl, rfl⟩ id
  | checked decision => exact .keep rfl rfl id
  | sweep p =>
    cases p with
    | storing removed size => exact .store size rfl rfl rfl ⟨rfl, rfl⟩
    | counting _ _ _ | retaining _ _ _ | recounting _ _ _ | resizing _ _ _ => exact hsweep _
  | swept removed => exact .keep rfl rfl id

end Effects

namespace Gateway
variable {shardOf : String → ℕ} {shardCount : ℕ} {g : Gateway}

theorem move_step (g : Gateway) (i clock : ℕ) (met : List (String × Window)) :
    g.move shardOf shardCount (.step i clock met) =
      Pool.advance g i fun l c => c.step shardOf shardCount l clock met := rfl

theorem Counted.start {c : Call} (h : g.Counted) (hslots : c.slots = 0) :
    Counted (Pool.start g c) := by
  have htaken : taken (Pool.start g c) = g.taken := by
    unfold taken
    rw [Pool.held_start, hslots]
    rfl
  constructor
  · rw [htaken]
    exact h.le
  · rw [htaken]
    rcases h.eq with ⟨d, hd, hsweeping⟩ | heq
    · exact .inl ⟨d, List.mem_append_left _ hd, hsweeping⟩
    · exact .inr heq
  · exact h.capped

/-- One operation, seen as its effect. -/
theorem Counted.advance {f : RateLimiter → Call → RateLimiter × Call} {i : ℕ} {c : Call}
    (h : g.Counted) (hc : g.calls[i]? = some c)
    (heffect : Effect g.shared (f g.shared c).1 c (f g.shared c).2)
    (htimely : ∀ size ∈ c.stores, size = g.taken) : Counted (Pool.advance g i f) := by
  have hheld := Pool.held_advance hc f Call.slots
  have hown : c.slots ≤ g.held Call.slots := Pool.le_held hc Call.slots
  have hshared : (Pool.advance g i f).shared = (f g.shared c).1 := by
    rw [Pool.advance_some hc]
  obtain ⟨hle, heq, hcap⟩ := h
  have hexists : (c.Sweeping → (f g.shared c).2.Sweeping) → (∃ d ∈ g.calls, d.Sweeping) →
      ∃ d ∈ (Pool.advance g i f).calls, d.Sweeping := fun hkeep hs =>
    Pool.exists_advance hc hs hkeep
  unfold taken at hle heq htimely
  constructor
  case le =>
    unfold taken
    rw [hshared]
    cases heffect with
    | keep htaken htracked _ => omega
    | win _ htracked hsize hslots _ => omega
    | giveBack htracked hsize hslots _ =>
      rw [if_neg (by omega)] at htracked
      omega
    | drop htracked hsize hslots _ => omega
    | store n hstores htracked hsize hslots =>
      have hn := htimely n hstores
      omega
  case eq =>
    unfold taken
    rw [hshared]
    cases heffect with
    | keep htaken htracked hsweeping =>
      rcases heq with hs | heq
      · exact .inl (hexists hsweeping hs)
      · exact .inr (by omega)
    | win _ htracked hsize hslots hnot =>
      rcases heq with hs | heq
      · exact .inl (hexists (fun hsw => absurd hsw hnot) hs)
      · exact .inr (by omega)
    | giveBack htracked hsize hslots hnot =>
      rw [if_neg (by omega)] at htracked
      rcases heq with hs | heq
      · exact .inl (hexists (fun hsw => absurd hsw hnot) hs)
      · exact .inr (by omega)
    | drop htracked hsize hslots hsweeping => exact .inl ⟨_, Pool.mem_advance hc, hsweeping⟩
    | store n hstores htracked hsize hslots =>
      have hn := htimely n hstores
      exact .inr (by omega)
  case capped =>
    rw [hshared]
    cases heffect with
    | keep _ htracked _ => omega
    | win hroom htracked _ _ _ => omega
    | giveBack htracked _ hslots _ =>
      rw [if_neg (by omega)] at htracked
      omega
    | drop htracked _ _ _ => omega
    | store n hstores htracked _ _ =>
      have hn := htimely n hstores
      omega

theorem Counted.move (h : g.Counted) (m : Move) (hok : g.Timely m) :
    (g.move shardOf shardCount m).Counted := by
  cases m with
  | check r => exact h.start rfl
  | sweep now => exact h.start rfl
  | step i clock met =>
    rw [move_step]
    cases hc : g.calls[i]? with
    | none =>
      rw [Pool.advance_none hc]
      exact h
    | some c =>
      apply h.advance hc
      · exact step_effect shardOf shardCount g.shared clock met c
      · exact hok c hc

theorem Start.balanced (h : g.Start) : g.Counted := by
  have htaken : g.taken = g.shared.windows.size := by
    unfold taken Pool.held
    rw [h.idle]
    rfl
  have heq : g.taken = g.shared.tracked := htaken.trans h.counted.symm
  exact ⟨heq.le, .inr heq, h.capped⟩

/-- In every run whose sweeps store a size that is still right, once all calls have returned the
map is within the cap and the counter is its size. -/
theorem tracked_keys_capped
    (h : Reaches Start (move shardOf shardCount) Timely g) (hq : g.Quiescent) :
    g.shared.windows.size ≤ maxTrackedKeys ∧ g.shared.tracked = g.shared.windows.size := by
  have hcounted : g.Counted := by
    apply Reaches.invariant _ _ h
    · exact fun g hg => hg.balanced
    · exact fun g m hg hok => hg.move m hok
  have hslots : g.held Call.slots = 0 := by
    apply Pool.held_eq_zero
    intro c hc
    have hreturned := hq c hc
    cases c <;> first | rfl | exact hreturned.elim
  have htaken : g.taken = g.shared.windows.size := by
    unfold taken
    rw [hslots]
    rfl
  have heq : g.taken = g.shared.tracked := by
    rcases hcounted.eq with ⟨c, hc, hsweeping⟩ | heq
    · have hreturned := hq c hc
      cases c <;> first | exact hsweeping.elim | exact hreturned.elim
    · exact heq
  have hcap := hcounted.capped
  omega

instance : DecidablePred Call.Returned
  | .checked _ | .swept _ => .isTrue trivial
  | .lookup _ | .reserve .. | .reclaim .. | .sample .. | .evict .. | .release .. | .enter _
  | .refund _ | .sweep _ => .isFalse id

instance (g : Gateway) : DecidablePred g.Timely
  | .check _ | .sweep _ => .isTrue trivial
  | .step i _ _ => inferInstanceAs (Decidable (∀ c ∈ g.calls[i]?, ∀ size ∈ c.stores, size = g.taken))

instance (g : Gateway) : Decidable g.Quiescent :=
  inferInstanceAs (Decidable (∀ c ∈ g.calls, c.Returned))

/-- A key is admitted; a sweep drops it once its request has left the window. -/
def admitThenSweep : List Move :=
  .check ⟨"key", 5, 0⟩ :: List.replicate 3 (.step 0 0 []) ++
    .sweep 200000 :: List.replicate 9 (.step 1 0 [])

theorem tracked_keys_capped_one :
    (admitThenSweep.foldl (move (fun _ => 0) 1) ⟨new, []⟩).shared.windows.size ≤ maxTrackedKeys ∧
    (admitThenSweep.foldl (move (fun _ => 0) 1) ⟨new, []⟩).shared.tracked =
      (admitThenSweep.foldl (move (fun _ => 0) 1) ⟨new, []⟩).shared.windows.size := by
  have hstart : Start ⟨new, []⟩ := ⟨rfl, rfl, Nat.zero_le _⟩
  have hallowed : Allowed (move (fun _ => 0) 1) Timely ⟨new, []⟩ admitThenSweep := by
    decide +kernel
  apply tracked_keys_capped
  · exact (Reaches.start hstart).run hallowed
  · decide +kernel

end Gateway

section Stalled
open Gateway

/-- One while the call has not returned. -/
def Call.running : Call → ℕ
  | .checked _ | .swept _ => 0
  | _ => 1

/-- A call begins only while at most one other is running. -/
def Gateway.AtMostTwo (g : Gateway) : Move → Prop
  | .step _ _ _ => True
  | _ => g.held Call.running ≤ 1

theorem Gateway.atMostTwo_step (g : Gateway) (i clock : ℕ) (met : List (String × Window)) :
    g.AtMostTwo (.step i clock met) := trivial

variable {shardOf : String → ℕ} {shardCount : ℕ} {g : Gateway}

theorem Call.running_of_returned {c : Call} (h : c.Returned) : c.running = 0 := by
  cases c <;> first | rfl | exact h.elim

theorem move_last (l : RateLimiter) (calls : List Call) (c : Call) :
    move shardOf shardCount ⟨l, calls ++ [c]⟩ (.step calls.length 0 []) =
      ⟨(c.step shardOf shardCount l 0 []).1, calls ++ [(c.step shardOf shardCount l 0 []).2]⟩ := by
  rw [move_step, Pool.advance_last]

/-- A call on a new key, run on its own while there is room. -/
theorem admit_key (h : Reaches Start (move shardOf shardCount) AtMostTwo g) {r : Request}
    (hrunning : g.held Call.running ≤ 1) (hfree : g.shared.windows.lookup r.key = none)
    (hroom : g.shared.tracked < maxTrackedKeys) :
    ∃ decision window, Reaches Start (move shardOf shardCount) AtMostTwo
      ⟨⟨g.shared.windows.insert r.key window, g.shared.tracked + 1⟩,
        g.calls ++ [.checked decision]⟩ := by
  have hlookup : ∀ n, RateLimiter.recordIn ⟨g.shared.windows, n⟩ r = none := by
    intro n
    simp [recordIn, hfree]
  have hbegun : Reaches Start (move shardOf shardCount) AtMostTwo
      ⟨g.shared, g.calls ++ [.lookup r]⟩ :=
    h.next (show AtMostTwo g (.check r) from hrunning)
  have hmissed := hbegun.next (atMostTwo_step _ g.calls.length 0 [])
  rw [move_last] at hmissed
  simp only [Call.step, hlookup g.shared.tracked] at hmissed
  have hwon := hmissed.next (atMostTwo_step _ g.calls.length 0 [])
  rw [move_last] at hwon
  simp only [Call.step, reserveSlot, hroom, if_true] at hwon
  have hentered := hwon.next (atMostTwo_step _ g.calls.length 0 [])
  rw [move_last] at hentered
  simp only [Call.step, hlookup (g.shared.tracked + 1)] at hentered
  exact ⟨_, _, hentered⟩

/-- Calls on new keys, one after the other. -/
theorem admit_keys {keys : List String} (hnodup : keys.Nodup)
    (h : Reaches Start (move shardOf shardCount) AtMostTwo g)
    (hrunning : g.held Call.running ≤ 1)
    (hfree : ∀ key ∈ keys, g.shared.windows.lookup key = none)
    (hroom : g.shared.tracked + keys.length ≤ maxTrackedKeys) :
    ∃ g' : Gateway, Reaches Start (move shardOf shardCount) AtMostTwo g' ∧
      g'.shared.windows.size = g.shared.windows.size + keys.length ∧
      g'.shared.tracked = g.shared.tracked + keys.length ∧
      (∀ key ∉ keys, g'.shared.windows.lookup key = g.shared.windows.lookup key) ∧
      ∃ calls, g'.calls = g.calls ++ calls ∧ ∀ c ∈ calls, c.Returned := by
  induction keys generalizing g with
  | nil => exact ⟨g, h, rfl, rfl, fun _ _ => rfl, [], by simp, by simp⟩
  | cons key keys ih =>
    rw [List.length_cons] at hroom
    obtain ⟨hnew, hnodup⟩ := List.nodup_cons.mp hnodup
    obtain ⟨decision, window, hnext⟩ := admit_key (r := ⟨key, 1, 0⟩) h hrunning
      (hfree key List.mem_cons_self) (by omega)
    have hrunning' : (⟨⟨g.shared.windows.insert key window, g.shared.tracked + 1⟩,
        g.calls ++ [.checked decision]⟩ : Gateway).held Call.running ≤ 1 := by
      simpa [Pool.held, Call.running] using hrunning
    obtain ⟨g', hg', hsize, htracked, hkept, calls, hcalls, hreturned⟩ := ih hnodup hnext hrunning'
      (by
        intro k hk
        have hne : k ≠ key := fun he => hnew (he ▸ hk)
        simpa [hne] using hfree k (List.mem_cons_of_mem _ hk))
      (by dsimp only; omega)
    dsimp only at hsize htracked hkept hcalls
    rw [Table.size_insert_new (hfree key List.mem_cons_self)] at hsize
    refine ⟨g', hg', by simp only [List.length_cons]; omega, by simp only [List.length_cons]; omega,
      ?_, .checked decision :: calls, by rw [hcalls]; simp, ?_⟩
    · intro k hk
      obtain ⟨hne, hk⟩ := not_or.mp (List.mem_cons.not.mp hk)
      rw [hkept k hk]
      simp [hne]
    · intro c hc
      rcases List.mem_cons.mp hc with rfl | hc
      · trivial
      · exact hreturned c hc

def floodKey (n : ℕ) : String := String.ofList (List.replicate n 'k')

theorem floodKey_injective : Function.Injective floodKey := by
  intro m n h
  have hlist : List.replicate m 'k' = List.replicate n 'k' := by
    simpa [floodKey] using congrArg String.toList h
  simpa using congrArg List.length hlist

/-- The keys numbered from `first` on. -/
def floodKeys (first count : ℕ) : List String :=
  (List.range count).map fun i => floodKey (first + i)

theorem floodKeys_nodup (first count : ℕ) : (floodKeys first count).Nodup := by
  refine List.Nodup.map ?_ List.nodup_range
  intro i j h
  have hsum := floodKey_injective h
  omega

theorem floodKeys_length (first count : ℕ) : (floodKeys first count).length = count := by
  simp [floodKeys]

/-- A sweep reads a size of 0 and stalls; `n` calls on new keys run one at a time; the sweep stores
its 0, and `n` more new keys are admitted. -/
theorem stalled_sweep {n : ℕ} (hn : n ≤ maxTrackedKeys)
    (hstalled : Reaches Start (move shardOf shardCount) AtMostTwo
      ⟨.new, [.sweep (.storing 0 0)]⟩) :
    ∃ g : Gateway, Reaches Start (move shardOf shardCount) AtMostTwo g ∧ g.Quiescent ∧
      g.shared.windows.size = n + n ∧ g.shared.tracked = n := by
  obtain ⟨filled, hfilled, hsize, htracked, hkept, calls, hcalls, hreturned⟩ :=
    admit_keys (floodKeys_nodup 0 n) hstalled (by decide) (fun _ _ => rfl)
      (by rwa [floodKeys_length, show (new.tracked + n) = n from Nat.zero_add n])
  rw [floodKeys_length] at hsize htracked
  have hsize0 : filled.shared.windows.size = n := hsize.trans (Nat.zero_add n)
  let reset : Gateway := ⟨{ filled.shared with tracked := 0 }, .swept 0 :: calls⟩
  have hreset : Reaches Start (move shardOf shardCount) AtMostTwo reset := by
    have hnext := hfilled.next (atMostTwo_step _ 0 0 [])
    have hstep : move shardOf shardCount filled (.step 0 0 []) = reset := by
      rw [move_step, Pool.advance_some (c := .sweep (.storing 0 0)) (by rw [hcalls]; rfl), hcalls]
      rfl
    rwa [hstep] at hnext
  have hidle : reset.held Call.running = 0 := by
    apply Pool.held_eq_zero
    intro c hc
    rcases List.mem_cons.mp hc with rfl | hc
    · rfl
    · exact Call.running_of_returned (hreturned c hc)
  obtain ⟨last, hlast, hsize', htracked', -, calls', hcalls', hreturned'⟩ :=
    admit_keys (floodKeys_nodup n n) hreset (hidle.le.trans (Nat.zero_le 1))
      (by
        intro key hkey
        obtain ⟨i, -, rfl⟩ := List.mem_map.mp hkey
        have hnew : floodKey (n + i) ∉ floodKeys 0 n := by
          intro hold
          obtain ⟨j, hj, he⟩ := List.mem_map.mp hold
          have hsum := floodKey_injective he
          have hlt := List.mem_range.mp hj
          omega
        exact hkept _ hnew)
      (by rwa [floodKeys_length, show (reset.shared.tracked + n) = n from Nat.zero_add n])
  rw [floodKeys_length] at hsize' htracked'
  refine ⟨last, hlast, ?_, ?_, htracked'.trans (Nat.zero_add n)⟩
  · intro c hc
    rw [hcalls'] at hc
    rcases List.mem_append.mp hc with hc | hc
    · rcases List.mem_cons.mp hc with rfl | hc
      · trivial
      · exact hreturned c hc
    · exact hreturned' c hc
  · rw [hsize', ← hsize0]

/-- Four shards, and a hash by length. -/
theorem sweep_stalls : Reaches Start (move (fun key => key.length % 4) 4) AtMostTwo
    ⟨.new, [.sweep (.storing 0 0)]⟩ := by
  have hstart : Start ⟨.new, []⟩ := ⟨rfl, rfl, Nat.zero_le _⟩
  have hbegun : Reaches Start (move (fun key => key.length % 4) 4) AtMostTwo
      ⟨.new, [.sweep (.begin 0)]⟩ :=
    (Reaches.start hstart).next (show AtMostTwo ⟨.new, []⟩ (.sweep 0) from Nat.zero_le _)
  have hallowed : Allowed (move (fun key => key.length % 4) 4) AtMostTwo
      ⟨.new, [.sweep (.begin 0)]⟩ (List.replicate 20 (.step 0 0 [])) := by
    repeat' constructor
  exact hbegun.run hallowed

theorem stalled_sweep_doubles_cap : ∃ g : Gateway,
    Reaches Start (move (fun key => key.length % 4) 4) AtMostTwo g ∧ g.Quiescent ∧
    g.shared.windows.size = maxTrackedKeys + maxTrackedKeys ∧ g.shared.tracked = maxTrackedKeys :=
  stalled_sweep le_rfl sweep_stalls

end Stalled
end Auth
end OptionChainBackend
