import OptionChainBackend.Auth.TrackedKeys
import OptionChainBackend.Foundation.Sliding

/-!
What the sliding window decides. While the cap is not reached and the calls take effect in the
order of their clock readings, every decision is the one of a limiter that never forgets a request,
however the calls and the sweeps are interleaved.
-/
namespace OptionChainBackend
namespace Auth
open Foundation RateLimiter

/-- A request and what was decided about it. -/
abbrev Decided := Request × RateLimitDecision

/-- The decisions about one key. -/
def ofKey (key : String) (log : List Decided) : List Decided := log.filter fun e => e.1.key = key

/-- When the requests of the key were admitted. -/
def admitted (key : String) (log : List Decided) : List ℕ :=
  ((ofKey key log).filter fun e => e.2.allowed).map fun e => e.1.now

/-- The times in the window that ends at `now`. -/
def inWindow (now : ℕ) (times : List ℕ) : ℕ :=
  times.countP fun t => windowStart now ≤ t ∧ t ≤ now

/-- The decision of a limiter that remembers every admission. -/
def idealDecision (times : List ℕ) (r : Request) : RateLimitDecision :=
  let recent := times.filter (windowStart r.now ≤ ·)
  let allowed := decide (recent.length < r.limit)
  let recent := if allowed then recent ++ [r.now] else recent
  { allowed := allowed
    remaining := r.limit - min recent.length (2 ^ 32 - 1)
    resetSecs := resetSecs (recent.head?.getD r.now) }

/-- Each decision is the ideal one after those before it. -/
def Ideal (log : List Decided) : Prop :=
  ∀ before e after, log = before ++ e :: after → e.2 = idealDecision (admitted e.1.key before) e.1

/-- What the ideal limiter decides about the requests of one key. -/
def ideal (key : String) (requests : List Request) : List Decided :=
  requests.foldl (fun log r => log ++ [(r, idealDecision (admitted key log) r)]) []

section Logs
variable {key : String} {log : List Decided} {e : Decided}

@[simp] theorem ofKey_append (key : String) (log log' : List Decided) :
    ofKey key (log ++ log') = ofKey key log ++ ofKey key log' := List.filter_append _ _

theorem ofKey_self (h : e.1.key = key) : ofKey key [e] = [e] := by
  simp [ofKey, h]

theorem ofKey_other (h : e.1.key ≠ key) : ofKey key [e] = [] := by
  simp [ofKey, h]

theorem admitted_append (key : String) (log : List Decided) (e : Decided) :
    admitted key (log ++ [e]) =
      if e.1.key = key ∧ e.2.allowed then admitted key log ++ [e.1.now] else admitted key log := by
  by_cases hkey : e.1.key = key
  · cases hallowed : e.2.allowed <;> simp [admitted, ofKey_self hkey, hkey, hallowed]
  · simp [admitted, ofKey_other hkey, hkey]

@[simp] theorem ofKey_ofKey (key : String) (log : List Decided) :
    ofKey key (ofKey key log) = ofKey key log := by
  simp [ofKey, List.filter_filter]

@[simp] theorem admitted_ofKey (key : String) (log : List Decided) :
    admitted key (ofKey key log) = admitted key log := by
  simp [admitted]

theorem mem_admitted {t : ℕ} (h : t ∈ admitted key log) : ∃ e ∈ log, e.1.now = t := by
  obtain ⟨e, he, rfl⟩ := List.mem_map.mp h
  exact ⟨e, List.mem_of_mem_filter (List.mem_of_mem_filter he), rfl⟩

theorem admitted_sorted (h : (log.map fun e => e.1.now).Pairwise (· ≤ ·)) (key : String) :
    (admitted key log).Pairwise (· ≤ ·) := by
  have hsub : (admitted key log).Sublist (log.map fun e => e.1.now) :=
    (List.filter_sublist.trans List.filter_sublist).map _
  exact List.Pairwise.sublist hsub h

theorem Ideal.nil : Ideal [] := by
  intro before e after h
  simp at h

theorem Ideal.append (h : Ideal log) (he : e.2 = idealDecision (admitted e.1.key log) e.1) :
    Ideal (log ++ [e]) := by
  intro before e' after hsplit
  rcases List.eq_nil_or_concat after with rfl | ⟨after, last, rfl⟩
  · obtain ⟨rfl, hlast⟩ := List.append_inj' hsplit rfl
    rw [List.singleton_inj] at hlast
    rw [← hlast]
    exact he
  · have hinit : log ++ [e] = (before ++ e' :: after) ++ [last] := by simpa using hsplit
    exact h before e' after (List.append_inj' hinit rfl).1

theorem Ideal.earlier {later : List Decided} (h : Ideal (log ++ later)) : Ideal log := by
  intro before e after hsplit
  exact h before e (after ++ later) (by simp [hsplit])

/-- What is decided about a key depends on the requests for that key. -/
theorem Ideal.ofKey_eq (h : Ideal log) (key : String) :
    ofKey key log = ideal key ((ofKey key log).map Prod.fst) := by
  induction log using List.reverseRecOn with
  | nil => rfl
  | append_singleton log e ih =>
    have hlog := ih h.earlier
    by_cases hkey : e.1.key = key
    · have he := h log e [] rfl
      subst hkey
      rw [ofKey_append, ofKey_self rfl, List.map_append, ideal, List.foldl_append, ← ideal, ← hlog]
      simp [← he]
    · simpa [ofKey_other hkey] using hlog

theorem idealDecision_allowed (times : List ℕ) (r : Request) :
    (idealDecision times r).allowed ↔ times.countP (windowStart r.now ≤ ·) < r.limit := by
  simp [idealDecision, List.countP_eq_length_filter]

/-- With one limit on the key, no window holds more admissions than that. -/
theorem Ideal.sparse (h : Ideal log) {limit : ℕ} (hlimit : ∀ e ∈ ofKey key log, e.1.limit = limit) :
    Sparse limit rateLimitWindowMs (admitted key log) := by
  induction log using List.reverseRecOn with
  | nil => exact Sparse.nil
  | append_singleton log e ih =>
    rw [ofKey_append] at hlimit
    have hlog := ih h.earlier fun e he => hlimit e (List.mem_append_left _ he)
    rw [admitted_append]
    split_ifs with he
    · obtain ⟨rfl, hallowed⟩ := he
      have hlast : e.1.limit = limit := hlimit e (by simp [ofKey_self])
      rw [h log e [] rfl, idealDecision_allowed, hlast, windowStart] at hallowed
      apply hlog.append
      convert hallowed
    · exact hlog

theorem inWindow_le {limit : ℕ} {times : List ℕ} (h : Sparse limit rateLimitWindowMs times)
    (now : ℕ) : inWindow now times ≤ limit := by
  apply h.count_le (windowStart now)
  intro t ht
  have hin : windowStart now ≤ t ∧ t ≤ now := of_decide_eq_true ht
  unfold windowStart at hin ⊢
  omega

/-- The decision in terms of the admissions in the window before it and after it. -/
theorem idealDecision_counts {times : List ℕ} {r : Request} (hpast : ∀ t ∈ times, t ≤ r.now)
    (hroom : inWindow r.now times ≤ r.limit) (hlimit : r.limit < 2 ^ 32) :
    ((idealDecision times r).allowed ↔ inWindow r.now times < r.limit) ∧
    (idealDecision times r).remaining = r.limit - inWindow r.now
      (if (idealDecision times r).allowed then times ++ [r.now] else times) := by
  have hcount : (times.filter (windowStart r.now ≤ ·)).length = inWindow r.now times := by
    rw [← List.countP_eq_length_filter]
    apply List.countP_congr
    intro t ht
    simp [hpast t ht]
  have hnow : inWindow r.now (times ++ [r.now]) = inWindow r.now times + 1 := by
    simp [inWindow, windowStart]
  constructor
  · simp [idealDecision, hcount]
  · by_cases hlt : inWindow r.now times < r.limit
    · simp only [idealDecision, hcount, hlt, decide_true, if_true, List.length_append,
        List.length_singleton, hnow]
      omega
    · simp only [idealDecision, hcount, hlt, decide_false, Bool.false_eq_true, if_false]
      omega

end Logs

/-- The timestamps of the key's bucket, none without one. -/
def RateLimiter.window (l : RateLimiter) (key : String) : Window := (l.windows.lookup key).getD []

/-- What the next operation of a call decides, and about which request. -/
def Call.decides (l : RateLimiter) : Call → Option Decided
  | .lookup r => (l.recordIn r).map fun out => (r, out.2)
  | .enter r => some (r, ((l.recordIn r).map Prod.snd).getD (l.createBucket r).2)
  | _ => none

/-- The window start up to which the next operation of a call drops timestamps. -/
def Call.drops : Call → ℕ
  | .reclaim _ _ (.retaining start _ _) | .sweep (.retaining start _ _) => start
  | _ => 0

def Call.Reserving : Call → Prop
  | .reserve .. => True
  | _ => False

/-- The call has not found the limiter at its cap. -/
def Call.Smooth : Call → Prop
  | .lookup _ | .reserve .. | .enter _ | .refund _ | .checked _ | .sweep _ | .swept _ => True
  | _ => False

/-- The decision a call is about to return, or has returned. -/
def Call.answer : Call → Option RateLimitDecision
  | .refund decision | .checked decision => some decision
  | _ => none

section Windows
variable {l : RateLimiter} {key : String} {times : List ℕ} {window : Window} {start floor : ℕ}

theorem prune_eq_filter (h : Remembers times window start) (htimes : times.Pairwise (· ≤ ·)) :
    prune start window = times.filter (start ≤ ·) := h.dropWhile_eq_filter htimes

theorem remembers_prune (h : Remembers times window floor) (hstart : start ≤ floor) :
    Remembers times (prune start window) floor := h.dropWhile hstart

theorem window_of_lookup (h : l.windows.lookup key = some window) :
    l.window key = window := by
  simp [RateLimiter.window, h]

theorem window_of_none (h : l.windows.lookup key = none) : l.window key = [] := by
  simp [RateLimiter.window, h]

/-- Recording a request changes the window of its key alone. -/
theorem window_record {r : Request} (h : l.window r.key = window)
    (tracked : ℕ) (key : String) :
    RateLimiter.window ⟨l.windows.insert r.key
        (pruneAndRecord window r.now (windowStart r.now) r.limit).1, tracked⟩ key =
      if key = r.key
        then (pruneAndRecord (l.window key) r.now (windowStart r.now) r.limit).1
        else l.window key := by
  by_cases hkey : key = r.key
  · subst hkey
    simp [RateLimiter.window, ← h]
  · simp [RateLimiter.window, hkey]

theorem window_retainShard (shardOf : String → ℕ) (l : RateLimiter) (start shard : ℕ)
    (key : String) :
    (l.retainShard shardOf start shard).window key =
      if shardOf key = shard then prune start (l.window key) else l.window key := by
  simp only [RateLimiter.window, retainShard, Table.lookup_retain]
  cases l.windows.lookup key with
  | none => simp [prune]
  | some window =>
    by_cases hshard : shardOf key = shard
    · by_cases hempty : prune start window = []
      · simp [hshard, hempty]
      · simp [hshard, hempty]
    · simp [hshard]

/-- A request is recorded in the window of its key, which may be that of no bucket. -/
theorem decides_window {c : Call} {e : Decided} (shardOf : String → ℕ) (shardCount clock : ℕ)
    (met : List (String × Window)) (h : c.decides l = some e) :
    e.2 = (pruneAndRecord (l.window e.1.key) e.1.now (windowStart e.1.now) e.1.limit).2 ∧
    (∀ key, (c.step shardOf shardCount l clock met).1.window key =
      if key = e.1.key
        then (pruneAndRecord (l.window key) e.1.now (windowStart e.1.now) e.1.limit).1
        else l.window key) ∧
    (c.step shardOf shardCount l clock met).2.answer = some e.2 := by
  cases c with
  | lookup r =>
    obtain ⟨out, hout, rfl⟩ := Option.map_eq_some_iff.mp h
    obtain ⟨window, hwindow, rfl⟩ := Option.map_eq_some_iff.mp hout
    have hold := window_of_lookup hwindow
    refine ⟨by simp only [hold], ?_, by simp only [Call.step, hout, Call.answer]⟩
    simpa only [Call.step, hout] using window_record hold l.tracked
  | enter r =>
    cases hrecord : l.recordIn r with
    | some out =>
      obtain ⟨window, hwindow, rfl⟩ := Option.map_eq_some_iff.mp hrecord
      have hold := window_of_lookup hwindow
      simp only [Call.decides, hrecord, Option.map_some, Option.getD_some, Option.some.injEq] at h
      subst h
      refine ⟨by simp only [hold], ?_, by simp only [Call.step, hrecord, Call.answer]⟩
      simpa only [Call.step, hrecord] using window_record hold l.tracked
    | none =>
      have hold := window_of_none (Option.map_eq_none_iff.mp hrecord)
      simp only [Call.decides, hrecord, Option.map_none, Option.getD_none, Option.some.injEq] at h
      subst h
      refine ⟨by simp only [hold]; rfl, ?_, by simp only [Call.step, hrecord, Call.answer]⟩
      simpa only [Call.step, hrecord, createBucket] using window_record hold l.tracked
  | _ => simp [Call.decides] at h

/-- An operation that decides nothing prunes some windows, or none. -/
theorem idle_window {c : Call} (shardOf : String → ℕ) (shardCount clock : ℕ)
    (met : List (String × Window)) (hsmooth : c.Smooth) (h : c.decides l = none)
    (hroom : c.Reserving → l.tracked < maxTrackedKeys) :
    (∀ key, (c.step shardOf shardCount l clock met).1.window key = l.window key ∨
      (c.step shardOf shardCount l clock met).1.window key = prune c.drops (l.window key)) ∧
    (c.step shardOf shardCount l clock met).2.answer = c.answer := by
  cases c with
  | lookup r =>
    have hnone : l.recordIn r = none := Option.map_eq_none_iff.mp h
    simp [Call.step, hnone, Call.answer]
  | reserve r tries =>
    have hlt : l.tracked < maxTrackedKeys := hroom trivial
    simp only [Call.step, reserveSlot, hlt, if_true]
    exact ⟨fun _ => .inl rfl, rfl⟩
  | enter r => simp [Call.decides] at h
  | refund decision | checked decision | swept removed => exact ⟨fun _ => .inl rfl, rfl⟩
  | sweep p =>
    cases p with
    | storing removed size => exact ⟨fun _ => .inl rfl, rfl⟩
    | retaining start before shard =>
      refine ⟨?_, rfl⟩
      intro key
      simp only [Call.step, SweepPoint.step, Call.drops]
      by_cases hshard : shard < shardCount
      · rw [if_pos hshard]
        by_cases hkey : shardOf key = shard
        · exact .inr (by rw [window_retainShard, if_pos hkey])
        · exact .inl (by rw [window_retainShard, if_neg hkey])
      · exact .inl (by rw [if_neg hshard])
    | counting start shard sum | recounting before shard sum | resizing removed shard sum =>
      refine ⟨?_, rfl⟩
      intro key
      simp only [Call.step, SweepPoint.step]
      split_ifs <;> simp
  | _ => exact hsmooth.elim

theorem step_smooth {c : Call} (shardOf : String → ℕ) (shardCount clock : ℕ)
    (met : List (String × Window)) (hsmooth : c.Smooth)
    (hroom : c.Reserving → l.tracked < maxTrackedKeys) :
    (c.step shardOf shardCount l clock met).2.Smooth := by
  cases c with
  | lookup r | enter r =>
    simp only [Call.step]
    cases l.recordIn r <;> trivial
  | reserve r tries =>
    have hlt : l.tracked < maxTrackedKeys := hroom trivial
    simp only [Call.step, reserveSlot, hlt, if_true]
    trivial
  | refund decision | checked decision | swept removed => trivial
  | sweep p => cases p <;> trivial
  | _ => exact hsmooth.elim

end Windows

/-- A gateway, the decisions its calls have taken, oldest first, and the latest window start up to
which a sweep has dropped timestamps. -/
structure Audit where
  gateway : Gateway
  log : List Decided
  dropped : ℕ

namespace Audit
variable (shardOf : String → ℕ) (shardCount : ℕ)

def new : Audit := ⟨⟨.new, []⟩, [], 0⟩

/-- The call that makes the next operation. -/
def mover (a : Audit) : Move → Option Call
  | .step i _ _ => a.gateway.calls[i]?
  | _ => none

def move (a : Audit) (m : Move) : Audit :=
  { gateway := a.gateway.move shardOf shardCount m
    log := a.log ++ ((a.mover m).bind fun c => c.decides a.gateway.shared).toList
    dropped := max a.dropped (((a.mover m).map Call.drops).getD 0) }

/-- The cap is not reached, and decisions and sweeps take effect in the order of their clocks. -/
def InOrder (a : Audit) (m : Move) : Prop :=
  ∀ c ∈ a.mover m, (c.Reserving → a.gateway.shared.tracked < maxTrackedKeys) ∧
    ∀ e ∈ c.decides a.gateway.shared,
      (∀ earlier ∈ a.log, earlier.1.now ≤ e.1.now) ∧ a.dropped ≤ windowStart e.1.now

/-- A window start that no pruning so far has gone beyond. -/
def Floor (a : Audit) (floor : ℕ) : Prop :=
  a.dropped ≤ floor ∧ ∀ e ∈ a.log, windowStart e.1.now ≤ floor

/-- What the windows still hold suffices for the ideal decisions. -/
structure Exact (a : Audit) : Prop where
  sorted : (a.log.map fun e => e.1.now).Pairwise (· ≤ ·)
  ideal : Ideal a.log
  kept : ∀ key floor, a.Floor floor →
    Remembers (admitted key a.log) (a.gateway.shared.window key) floor
  smooth : ∀ c ∈ a.gateway.calls, c.Smooth
  answered : ∀ c ∈ a.gateway.calls, ∀ decision ∈ c.answer, ∃ r, (r, decision) ∈ a.log

section Steps
variable {shardOf : String → ℕ} {shardCount : ℕ} {a : Audit}

theorem Exact.new : Exact new where
  sorted := .nil
  ideal := .nil
  kept := fun _ floor _ => .refl _ floor
  smooth := by simp [Audit.new]
  answered := by simp [Audit.new]

/-- A call begins. -/
theorem Exact.start (h : a.Exact) {c : Call} (hsmooth : c.Smooth) (hanswer : c.answer = none) :
    Exact ⟨Pool.start a.gateway c, a.log, a.dropped⟩ where
  sorted := h.sorted
  ideal := h.ideal
  kept := h.kept
  smooth := by
    intro d hd
    rcases List.mem_append.mp hd with hd | hd
    · exact h.smooth d hd
    · rwa [List.mem_singleton.mp hd]
  answered := by
    intro d hd decision hdecision
    rcases List.mem_append.mp hd with hd | hd
    · exact h.answered d hd decision hdecision
    · simp [List.mem_singleton.mp hd, hanswer] at hdecision

/-- The window that a decision reads holds the admissions it has to count. -/
theorem Exact.decision (h : a.Exact) {r : Request} (hlater : ∀ e ∈ a.log, e.1.now ≤ r.now)
    (hdropped : a.dropped ≤ windowStart r.now) :
    (pruneAndRecord (a.gateway.shared.window r.key) r.now (windowStart r.now) r.limit).2 =
      idealDecision (admitted r.key a.log) r := by
  have hfloor : a.Floor (windowStart r.now) :=
    ⟨hdropped, fun e he => Nat.sub_le_sub_right (hlater e he) _⟩
  have hpruned : prune (windowStart r.now) (a.gateway.shared.window r.key) =
      (admitted r.key a.log).filter (windowStart r.now ≤ ·) :=
    prune_eq_filter (h.kept r.key _ hfloor) (admitted_sorted h.sorted r.key)
  simp only [pruneAndRecord, hpruned, idealDecision]

/-- An operation that decides about a request. -/
theorem Exact.decide (h : a.Exact) {l' : RateLimiter} {r : Request} {calls : List Call}
    (hlater : ∀ e ∈ a.log, e.1.now ≤ r.now) (hdropped : a.dropped ≤ windowStart r.now)
    (hwindow : ∀ key, l'.window key =
      if key = r.key
        then (pruneAndRecord (a.gateway.shared.window key) r.now (windowStart r.now) r.limit).1
        else a.gateway.shared.window key)
    (hsmooth : ∀ c ∈ calls, c.Smooth) {decision : RateLimitDecision}
    (hdecision : decision =
      (pruneAndRecord (a.gateway.shared.window r.key) r.now (windowStart r.now) r.limit).2)
    (hanswered : ∀ c ∈ calls, ∀ d ∈ c.answer, d = decision ∨ ∃ r, (r, d) ∈ a.log) {dropped : ℕ}
    (hle : a.dropped ≤ dropped) :
    Exact ⟨⟨l', calls⟩, a.log ++ [(r, decision)], dropped⟩ where
  sorted := by
    rw [List.map_append, List.pairwise_append]
    refine ⟨h.sorted, List.pairwise_singleton _ _, ?_⟩
    simp only [List.map_singleton, List.mem_singleton, forall_eq]
    exact List.forall_mem_map.mpr hlater
  ideal := h.ideal.append (hdecision.trans (h.decision hlater hdropped))
  kept := by
    intro key floor hfloor
    have hold : a.Floor floor :=
      ⟨hle.trans hfloor.1, fun e he => hfloor.2 e (List.mem_append_left _ he)⟩
    have hstart : windowStart r.now ≤ floor := hfloor.2 (r, decision) (by simp)
    rw [hwindow, admitted_append]
    by_cases hkey : key = r.key
    · subst hkey
      have hkept := remembers_prune (h.kept r.key floor hold) hstart
      rw [if_pos rfl, hdecision]
      simp only [pruneAndRecord, true_and]
      split_ifs
      · exact hkept.append r.now
      · exact hkept
    · rw [if_neg hkey, if_neg fun hboth => hkey hboth.1.symm]
      exact h.kept key floor hold
  smooth := hsmooth
  answered := by
    intro c hc d hd
    rcases hanswered c hc d hd with rfl | ⟨r', hr'⟩
    · exact ⟨r, by simp⟩
    · exact ⟨r', List.mem_append_left _ hr'⟩

/-- An operation that at most prunes. -/
theorem Exact.idle (h : a.Exact) {l' : RateLimiter} {calls : List Call} {start : ℕ}
    (hwindow : ∀ key, l'.window key = a.gateway.shared.window key ∨
      l'.window key = prune start (a.gateway.shared.window key))
    (hsmooth : ∀ c ∈ calls, c.Smooth)
    (hanswered : ∀ c ∈ calls, ∀ d ∈ c.answer, ∃ r, (r, d) ∈ a.log) :
    Exact ⟨⟨l', calls⟩, a.log, max a.dropped start⟩ where
  sorted := h.sorted
  ideal := h.ideal
  kept := by
    intro key floor hfloor
    have hle := max_le_iff.mp hfloor.1
    have hkept := h.kept key floor ⟨hle.1, hfloor.2⟩
    rcases hwindow key with hkey | hkey
    · rwa [hkey]
    · rw [hkey]
      exact remembers_prune hkept hle.2
  smooth := hsmooth
  answered := hanswered

theorem Exact.move (h : a.Exact) (m : Move) (hok : a.InOrder m) :
    (a.move shardOf shardCount m).Exact := by
  cases m with
  | check r =>
    simpa [Audit.move, mover, Gateway.move] using h.start (c := .lookup r) trivial rfl
  | sweep now =>
    simpa [Audit.move, mover, Gateway.move] using h.start (c := .sweep (.begin now)) trivial rfl
  | step i clock met =>
    cases hc : a.gateway.calls[i]? with
    | none =>
      have hkeep : a.gateway.move shardOf shardCount (.step i clock met) = a.gateway := by
        rw [Gateway.move_step, Pool.advance_none hc]
      simpa [Audit.move, mover, hc, hkeep] using h
    | some c =>
      obtain ⟨hroom, horder⟩ := hok c hc
      have hmem := List.mem_of_getElem? hc
      have hmove : a.gateway.move shardOf shardCount (.step i clock met) =
          ⟨(c.step shardOf shardCount a.gateway.shared clock met).1,
            a.gateway.calls.set i (c.step shardOf shardCount a.gateway.shared clock met).2⟩ := by
        rw [Gateway.move_step, Pool.advance_some hc]
      have hsmooth : ∀ d ∈ a.gateway.calls.set i
          (c.step shardOf shardCount a.gateway.shared clock met).2, d.Smooth := by
        intro d hd
        rcases List.mem_or_eq_of_mem_set hd with hd | rfl
        · exact h.smooth d hd
        · exact step_smooth shardOf shardCount clock met (h.smooth c hmem) hroom
      cases hdecides : c.decides a.gateway.shared with
      | none =>
        obtain ⟨hwindow, hanswer⟩ :=
          idle_window shardOf shardCount clock met (h.smooth c hmem) hdecides hroom
        have hidle := h.idle hwindow hsmooth (by
          intro d hd decision hdecision
          rcases List.mem_or_eq_of_mem_set hd with hd | rfl
          · exact h.answered d hd decision hdecision
          · rw [hanswer] at hdecision
            exact h.answered c hmem decision hdecision)
        simpa [Audit.move, mover, hc, hdecides, hmove] using hidle
      | some e =>
        obtain ⟨hlater, hdropped⟩ := horder e hdecides
        obtain ⟨hdecision, hwindow, hanswer⟩ :=
          decides_window shardOf shardCount clock met hdecides
        have hdecided := h.decide hlater hdropped hwindow hsmooth hdecision (by
          intro d hd decision hd'
          rcases List.mem_or_eq_of_mem_set hd with hd | rfl
          · exact .inr (h.answered d hd decision hd')
          · rw [hanswer, Option.mem_some_iff] at hd'
            exact .inl hd'.symm) (le_max_left a.dropped c.drops)
        simpa [Audit.move, mover, hc, hdecides, hmove] using hdecided

theorem exact_of_reaches
    (h : Reaches (· = new) (move shardOf shardCount) InOrder a) : a.Exact := by
  apply Reaches.invariant _ _ h
  · rintro _ rfl
    exact .new
  · exact fun a m ha hok => ha.move m hok

/-- With one limit on the key: no closed window holds more admissions than that, a request is
denied just when the window up to it holds as many, `remaining` is what the window still takes, and
the decisions depend on nothing but the requests for the key. Calls answer what was decided. -/
theorem sliding_window_exact (h : Reaches (· = new) (move shardOf shardCount) InOrder a)
    {key : String} {limit : ℕ} (hlimit : limit < 2 ^ 32)
    (hfixed : ∀ e ∈ ofKey key a.log, e.1.limit = limit) :
    Sparse limit rateLimitWindowMs (admitted key a.log) ∧
    (∀ before e after, a.log = before ++ e :: after → e.1.key = key →
      (e.2.allowed = false ↔ inWindow e.1.now (admitted key before) = limit) ∧
      inWindow e.1.now (admitted key (before ++ [e])) ≤ limit ∧
      e.2.remaining = limit - inWindow e.1.now (admitted key (before ++ [e]))) ∧
    (∀ shardOf' shardCount' a', Reaches (· = new) (move shardOf' shardCount') InOrder a' →
      (ofKey key a'.log).map Prod.fst = (ofKey key a.log).map Prod.fst →
      ofKey key a'.log = ofKey key a.log) ∧
    ∀ c ∈ a.gateway.calls, ∀ decision ∈ c.answer, ∃ r, (r, decision) ∈ a.log := by
  have hexact := exact_of_reaches h
  refine ⟨hexact.ideal.sparse hfixed, ?_, ?_, hexact.answered⟩
  · rintro before e after hlog rfl
    have hsorted := hexact.sorted
    have hideal := hexact.ideal
    rw [hlog] at hsorted hideal hfixed
    have hpast : ∀ t ∈ admitted e.1.key before, t ≤ e.1.now := by
      intro t ht
      obtain ⟨earlier, hearlier, rfl⟩ := mem_admitted ht
      rw [List.map_append, List.map_cons, List.pairwise_append] at hsorted
      exact hsorted.2.2 _ (List.mem_map_of_mem hearlier) _ List.mem_cons_self
    have hsparse : ∀ log later, before ++ e :: after = log ++ later →
        Sparse limit rateLimitWindowMs (admitted e.1.key log) := by
      intro log later hsplit
      rw [hsplit] at hideal hfixed
      apply hideal.earlier.sparse
      intro e' he'
      apply hfixed e'
      rw [ofKey_append]
      exact List.mem_append_left _ he'
    have hroom := inWindow_le (hsparse before (e :: after) rfl) e.1.now
    have hafter := inWindow_le (hsparse (before ++ [e]) after (by simp)) e.1.now
    obtain rfl : e.1.limit = limit := hfixed e (by simp [ofKey])
    obtain ⟨hallowed, hremaining⟩ := idealDecision_counts hpast hroom hlimit
    rw [← hideal before e after rfl] at hallowed hremaining
    refine ⟨?_, hafter, ?_⟩
    · rw [← Bool.not_eq_true, hallowed]
      omega
    · rw [hremaining, admitted_append]
      simp only [true_and]
  · intro shardOf' shardCount' a' ha' hrequests
    rw [hexact.ideal.ofKey_eq, (exact_of_reaches ha').ideal.ofKey_eq, hrequests]

end Steps

instance : DecidablePred Call.Reserving
  | .reserve .. => .isTrue trivial
  | .lookup _ | .reclaim .. | .sample .. | .evict .. | .release .. | .enter _ | .refund _
  | .checked _ | .sweep _ | .swept _ => .isFalse id

instance (a : Audit) : DecidablePred a.InOrder := fun m =>
  inferInstanceAs (Decidable (∀ c ∈ a.mover m, _))

/-- Four requests with a limit of 2. A sweep runs between the operations of the second, and the
third comes when the first is just still in the window. -/
def boundaryMoves : List Move :=
  .check ⟨"key", 2, 1000⟩ :: List.replicate 3 (.step 0 0 []) ++
    .check ⟨"key", 2, 2000⟩ :: .sweep 2000 :: List.replicate 9 (.step 2 0 []) ++ .step 1 0 [] ::
    .check ⟨"other", 1, 60000⟩ :: List.replicate 3 (.step 3 0 []) ++
    .check ⟨"key", 2, 61000⟩ :: .step 4 0 [] :: .check ⟨"key", 2, 61001⟩ :: [.step 5 0 []]

def boundaryRun : Audit := boundaryMoves.foldl (move (fun _ => 0) 1) new

theorem sliding_window_exact_boundary :
    Sparse 2 rateLimitWindowMs (admitted "key" boundaryRun.log) ∧
    ((ofKey "key" boundaryRun.log).map fun e => e.2.allowed) = [true, true, false, true] := by
  have hstart : Reaches (· = new) (move (fun _ => 0) 1) InOrder new := .start rfl
  have hallowed : Allowed (move (fun _ => 0) 1) InOrder new boundaryMoves := by decide +kernel
  have hfixed : ∀ e ∈ ofKey "key" boundaryRun.log, e.1.limit = 2 := by decide +kernel
  have hexact := sliding_window_exact (hstart.run hallowed) (by decide) hfixed
  exact ⟨hexact.1, by decide +kernel⟩

end Audit
end Auth
end OptionChainBackend
