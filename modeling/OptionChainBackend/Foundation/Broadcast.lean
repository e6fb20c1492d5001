import Mathlib.Algebra.Order.Group.Nat
import Mathlib.Data.List.Basic
import Mathlib.Data.List.Infix
import Mathlib.Data.List.Nodup

/-!
A broadcast channel that keeps its last messages only, and a reader that trusts the numbers of the
messages: a receiver that falls behind loses messages, and the reader notices by the numbers.
-/
namespace Foundation

variable {α σ : Type}

/-- What a receiver is told. -/
inductive Received (α : Type) where
  | item (a : α)
  | lagged (skipped : ℕ)
  | empty

namespace Broadcast
variable {capacity next next' : ℕ} {log got : List α} {a : α}

/-- The next message for a receiver that has read up to `next`, from a channel that keeps the last
`capacity` of all messages sent. A receiver that is too late is told so, and goes on with the
oldest message kept. -/
def recv (capacity : ℕ) (log : List α) (next : ℕ) : Received α × ℕ :=
  if next + capacity < log.length then
    (.lagged (log.length - capacity - next), log.length - capacity)
  else match log[next]? with
    | some a => (.item a, next + 1)
    | none => (.empty, next)

theorem recv_item (h : recv capacity log next = (.item a, next')) :
    log[next]? = some a ∧ next' = next + 1 := by
  unfold recv at h
  split_ifs at h
  · cases h
  · split at h
    · rename_i b hb
      cases h
      exact ⟨hb, rfl⟩
    · cases h

theorem recv_lagged {skipped : ℕ} (h : recv capacity log next = (.lagged skipped, next')) :
    next + skipped = next' := by
  unfold recv at h
  split_ifs at h with hlate
  · cases h
    omega
  · split at h <;> cases h

theorem recv_empty (h : recv capacity log next = (.empty, next')) : next' = next := by
  unfold recv at h
  split_ifs at h
  · cases h
  · split at h
    · cases h
    · cases h
      rfl

theorem recv_le (h : next ≤ log.length) : (recv capacity log next).2 ≤ log.length := by
  unfold recv
  split_ifs
  · exact Nat.sub_le _ _
  · split
    · rename_i hb
      exact (List.getElem?_eq_some_iff.mp hb).1
    · exact h

theorem le_recv (capacity : ℕ) (log : List α) (next : ℕ) : next ≤ (recv capacity log next).2 := by
  unfold recv
  split_ifs
  · show next ≤ log.length - capacity
    omega
  · split
    · exact Nat.le_succ next
    · exact Nat.le_refl next

/-- What was got so far is some of what was sent, in its order. -/
theorem got_item (hgot : got.Sublist (log.take next))
    (h : recv capacity log next = (.item a, next')) :
    (got ++ [a]).Sublist (log.take next') := by
  obtain ⟨ha, rfl⟩ := recv_item h
  rw [List.take_add_one, ha]
  exact hgot.append (.refl _)

theorem got_mono (hgot : got.Sublist (log.take next)) (h : next ≤ next') :
    got.Sublist (log.take next') :=
  hgot.trans (List.take_sublist_take_left h)

end Broadcast

/-- A reader of numbered messages: what it made of them, the number of the last, and whether none
was missing so far. -/
structure Reader (σ : Type) where
  state : σ
  last : ℕ
  intact : Bool

namespace Reader
variable {number : α → ℕ} {f : σ → α → σ} {r : Reader σ} {l l' : List α} {next : ℕ}

/-- Old numbers are passed over; the next one is applied; any other shows that some are missing. -/
def hear (number : α → ℕ) (f : σ → α → σ) (r : Reader σ) (a : α) : Reader σ :=
  if r.intact = false ∨ number a ≤ r.last then r
  else if number a = r.last + 1 then ⟨f r.state a, number a, true⟩
  else { r with intact := false }

theorem hear_broken (h : r.intact = false) (l : List α) : l.foldl (hear number f) r = r := by
  induction l with
  | nil => rfl
  | cons a l ih =>
    have hskip : hear number f r a = r := if_pos (.inl h)
    rw [List.foldl_cons, hskip, ih]

/-- What a reader makes of new messages in ascending order: it stays intact when their numbers have
no gap, and then it applied them all. -/
theorem hear_all (hi : r.intact = true) (hsorted : (l.map number).Pairwise (· < ·))
    (hnew : ∀ a ∈ l, r.last < number a) :
    ((l.foldl (hear number f) r).intact = true ↔
        l.map number = List.range' (r.last + 1) l.length) ∧
      ((l.foldl (hear number f) r).intact = true →
        (l.foldl (hear number f) r).state = l.foldl f r.state ∧
        (l.foldl (hear number f) r).last = r.last + l.length) := by
  induction l generalizing r with
  | nil => exact ⟨by simp [hi], fun _ => ⟨rfl, rfl⟩⟩
  | cons a l ih =>
    obtain ⟨hmin, hrest⟩ := List.pairwise_cons.mp hsorted
    have hlt := hnew a List.mem_cons_self
    rw [List.foldl_cons]
    by_cases ha : number a = r.last + 1
    · have hstep : hear number f r a = ⟨f r.state a, number a, true⟩ := by
        unfold hear
        rw [if_neg (by simp [hi]; omega), if_pos ha]
      rw [hstep]
      obtain ⟨hiff, hmade⟩ := ih (r := ⟨f r.state a, number a, true⟩) rfl hrest
        fun b hb => hmin _ (List.mem_map_of_mem hb)
      refine ⟨hiff.trans ?_, fun hin => ?_⟩
      · rw [List.map_cons, List.length_cons, List.range'_succ, ← ha]
        simp
      · obtain ⟨hstate, hlast⟩ := hmade hin
        refine ⟨hstate, hlast.trans ?_⟩
        show number a + l.length = r.last + (l.length + 1)
        omega
    · have hstep : hear number f r a = { r with intact := false } := by
        unfold hear
        rw [if_neg (by simp [hi]; omega), if_neg ha]
      rw [hstep, hear_broken rfl]
      refine ⟨⟨fun h => by simp at h, fun h => ?_⟩, fun h => by simp at h⟩
      rw [List.map_cons, List.length_cons, List.range'_succ] at h
      exact absurd (List.cons.inj h).1 ha

/-- Of messages in ascending order, those up to the last number change nothing. -/
theorem hear_new (hsorted : (l.map number).Pairwise (· < ·)) : l.foldl (hear number f) r =
    (l.filter fun a => r.last < number a).foldl (hear number f) r := by
  induction l with
  | nil => rfl
  | cons a l ih =>
    obtain ⟨hmin, hrest⟩ := List.pairwise_cons.mp hsorted
    by_cases ha : r.last < number a
    · have hall : (a :: l).filter (fun b => r.last < number b) = a :: l := by
        rw [List.filter_eq_self]
        intro b hb
        rcases List.mem_cons.mp hb with rfl | hb
        · exact decide_eq_true ha
        · exact decide_eq_true (ha.trans (hmin _ (List.mem_map_of_mem hb)))
      rw [hall]
    · have hskip : hear number f r a = r := if_pos (.inr (Nat.not_lt.mp ha))
      rw [List.foldl_cons, hskip, List.filter_cons_of_neg (by simpa using ha)]
      exact ih hrest

/-- A range holds no more ascending numbers than it is long. -/
theorem length_le_range {ns : List ℕ} {n m : ℕ} (hsorted : ns.Pairwise (· < ·))
    (hrange : ∀ k ∈ ns, n ≤ k ∧ k < m) : ns.length ≤ m - n := by
  induction ns generalizing n with
  | nil => exact Nat.zero_le _
  | cons k ns ih =>
    obtain ⟨hmin, hrest⟩ := List.pairwise_cons.mp hsorted
    have htail : ns.length ≤ m - (k + 1) := by
      apply ih hrest
      intro j hj
      exact ⟨hmin j hj, (hrange j (List.mem_cons_of_mem k hj)).2⟩
    obtain ⟨hlow, hhigh⟩ := hrange k List.mem_cons_self
    rw [List.length_cons]
    omega

/-- Ascending numbers that fill their range are the whole range. -/
theorem eq_range' {ns : List ℕ} {n : ℕ} (hsorted : ns.Pairwise (· < ·))
    (hrange : ∀ k ∈ ns, n ≤ k ∧ k < n + ns.length) : ns = List.range' n ns.length := by
  induction ns generalizing n with
  | nil => rfl
  | cons k ns ih =>
    obtain ⟨hmin, hrest⟩ := List.pairwise_cons.mp hsorted
    have hwithin : ∀ j ∈ ns, k + 1 ≤ j ∧ j < n + (ns.length + 1) := by
      intro j hj
      exact ⟨hmin j hj, (hrange j (List.mem_cons_of_mem k hj)).2⟩
    have hlength := length_le_range hrest hwithin
    have hfirst := (hrange k List.mem_cons_self).1
    obtain rfl : k = n := by
      cases ns with
      | nil =>
        have hlast := (hrange k List.mem_cons_self).2
        simp at hlast
        omega
      | cons j ns =>
        rw [List.length_cons] at hlength
        omega
    rw [List.length_cons, List.range'_succ, ← ih hrest]
    intro j hj
    have hj' := hwithin j hj
    omega

/-- A reader of some of the messages `l'` sent after number `r.last`, all before `next`, is intact
and up to date exactly when it got them all and their numbers have no gap. -/
theorem up_to_date_iff (hi : r.intact = true) (hsorted : (l'.map number).Pairwise (· < ·))
    (hrange : ∀ a ∈ l', r.last < number a ∧ number a < next) (hsub : l.Sublist l') :
    (l.foldl (hear number f) r).intact = true ∧
        (l.foldl (hear number f) r).last + 1 = next ↔
      l = l' ∧ r.last + l'.length + 1 = next := by
  have hwithin : ∀ k ∈ l'.map number, r.last + 1 ≤ k ∧ k < next := by
    intro k hk
    obtain ⟨a, ha, rfl⟩ := List.mem_map.mp hk
    exact hrange a ha
  obtain ⟨hiff, hmade⟩ := hear_all (f := f) hi (hsorted.sublist (hsub.map number))
    fun a ha => (hrange a (hsub.subset ha)).1
  constructor
  · rintro ⟨hin, hlast⟩
    rw [(hmade hin).2] at hlast
    have hlength := length_le_range hsorted hwithin
    rw [List.length_map] at hlength
    have hall : l = l' := hsub.eq_of_length_le (by omega)
    exact ⟨hall, hall ▸ hlast⟩
  · rintro ⟨rfl, hlast⟩
    have hin : (l.foldl (hear number f) r).intact = true := by
      apply hiff.mpr
      have hfill : l.map number = List.range' (r.last + 1) (l.map number).length := by
        apply eq_range' hsorted
        intro k hk
        rw [List.length_map]
        have hk' := hwithin k hk
        omega
      rwa [List.length_map] at hfill
    refine ⟨hin, ?_⟩
    rw [(hmade hin).2]
    exact hlast

end Reader

/-- What a receiver heard, and how many messages it lost. -/
structure Receiver (α : Type) where
  next : ℕ
  got : List α
  lost : ℕ

namespace Receiver
variable {capacity : ℕ} {log₀ log log' : List α} {r : Receiver α}

/-- A receiver gets what is sent from here on. -/
def subscribe (log : List α) : Receiver α := ⟨log.length, [], 0⟩

def recv (capacity : ℕ) (log : List α) (r : Receiver α) : Option α × Receiver α :=
  match Broadcast.recv capacity log r.next with
  | (.item a, next) => (some a, { r with next := next, got := r.got ++ [a] })
  | (.lagged skipped, next) => (none, { r with next := next, lost := r.lost + skipped })
  | (.empty, next) => (none, { r with next := next })

/-- Of what was sent since `log₀` it heard some, in order, and it lost the rest of what it has read
past. -/
structure Hears (log₀ log : List α) (r : Receiver α) : Prop where
  since : log₀ <+: log
  read : r.next ≤ log.length
  got : (log₀ ++ r.got).Sublist (log.take r.next)
  counted : log₀.length + r.got.length + r.lost = r.next

theorem hears_subscribe (log : List α) : (subscribe log).Hears log log where
  since := List.prefix_refl log
  read := Nat.le_refl _
  got := by simp [subscribe]
  counted := rfl

theorem Hears.grow (h : r.Hears log₀ log) (hlog : log <+: log') : r.Hears log₀ log' where
  since := h.since.trans hlog
  read := h.read.trans hlog.length_le
  got := by
    obtain ⟨more, rfl⟩ := hlog
    rw [List.take_append_of_le_length h.read]
    exact h.got
  counted := h.counted

theorem recv_got (capacity : ℕ) (log : List α) (r : Receiver α) :
    (r.recv capacity log).2.got = r.got ++ (r.recv capacity log).1.toList := by
  unfold recv
  split <;> simp

theorem Hears.recv (h : r.Hears log₀ log) : (r.recv capacity log).2.Hears log₀ log := by
  have hle : (Broadcast.recv capacity log r.next).2 ≤ log.length := Broadcast.recv_le h.read
  have hge := Broadcast.le_recv capacity log r.next
  have hcounted := h.counted
  unfold Receiver.recv
  cases hr : Broadcast.recv capacity log r.next with
  | mk got next =>
    rw [hr] at hle hge
    cases got with
    | item a =>
      obtain ⟨ha, rfl⟩ := Broadcast.recv_item hr
      refine ⟨h.since, hle, ?_, ?_⟩
      · rw [← List.append_assoc]
        exact Broadcast.got_item h.got hr
      · dsimp only
        rw [List.length_append, List.length_singleton]
        omega
    | lagged skipped =>
      have hskipped := Broadcast.recv_lagged hr
      refine ⟨h.since, hle, Broadcast.got_mono h.got hge, ?_⟩
      dsimp only
      omega
    | empty =>
      have hsame := Broadcast.recv_empty hr
      refine ⟨h.since, hle, Broadcast.got_mono h.got hge, ?_⟩
      dsimp only
      omega

theorem Hears.some (h : r.Hears log₀ log) : r.got.Sublist (log.drop log₀.length) := by
  obtain ⟨more, rfl⟩ := h.since
  rw [List.drop_left]
  exact List.append_sublist_append_left _ |>.mp (h.got.trans (List.take_sublist _ _))

/-- A receiver that lost nothing heard everything it has read past. -/
theorem Hears.all (h : r.Hears log₀ log) (hl : r.lost = 0) : log₀ ++ r.got = log.take r.next := by
  apply h.got.eq_of_length_le
  rw [List.length_take, List.length_append]
  have hcounted := h.counted
  omega

end Receiver

end Foundation
