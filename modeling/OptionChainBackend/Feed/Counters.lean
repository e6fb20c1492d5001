import OptionChainBackend.Api.State
import OptionChainBackend.Foundation.Pool
import OptionChainBackend.Foundation.Runs

/-!
The sequence counters under concurrency. A call of `next_sequence` looks its counter up, creates it
if it is not there, and increments it; other calls may come between any two of these. What the
calls for a symbol were given is always what its counter has counted.
-/
namespace OptionChainBackend
open Foundation

/-- Where a call of `next_sequence` stands. -/
inductive SequenceCall where
  | lookup (symbol : String)
  | insert (symbol : String)
  | increment (symbol : String)
  | done (symbol : String) (n : ℕ)
  deriving DecidableEq, Repr

namespace SequenceCall

def symbol : SequenceCall → String
  | .lookup symbol => symbol
  | .insert symbol => symbol
  | .increment symbol => symbol
  | .done symbol _ => symbol

/-- What a completed call for `symbol` returned. -/
def result (symbol : String) : SequenceCall → Option ℕ
  | .done s n => if s = symbol then some n else none
  | _ => none

/-- The fast path goes from the lookup to the increment, the slow path by way of
`or_insert_with`. -/
def step (sequences : Table String ℕ) : SequenceCall → Table String ℕ × SequenceCall
  | .lookup symbol =>
    match sequences.lookup symbol with
    | some _ => (sequences, .increment symbol)
    | none => (sequences, .insert symbol)
  | .insert symbol =>
    match sequences.lookup symbol with
    | some _ => (sequences, .increment symbol)
    | none => (sequences.insert symbol 0, .increment symbol)
  | .increment symbol =>
    match sequences.lookup symbol with
    | some n => (sequences.insert symbol (n + 1), .done symbol n)
    | none => (sequences, .increment symbol)
  | .done symbol n => (sequences, .done symbol n)

end SequenceCall

/-- The counters, and every call made so far. -/
abbrev Counters := Pool (Table String ℕ) SequenceCall

/-- A call begins, or the call at an index makes its next step. -/
inductive CounterMove where
  | call (symbol : String) | go (i : ℕ)
  deriving DecidableEq, Repr

namespace Counters

def new : Counters := ⟨∅, []⟩

def move (s : Counters) : CounterMove → Counters
  | .call symbol => s.start (.lookup symbol)
  | .go i => s.advance i SequenceCall.step

/-- `current_sequence`. -/
def currentSequence (s : Counters) (symbol : String) : ℕ := (s.shared.lookup symbol).getD 0

/-- What the completed calls for `symbol` returned. -/
def returned (s : Counters) (symbol : String) : List ℕ :=
  s.results (SequenceCall.result symbol)

/-- Each of the numbers up to the number of completed calls was returned once, and a call only ever
touches its own symbol. -/
structure GapFree (s : Counters) : Prop where
  exact : ∀ symbol, (s.returned symbol).Perm (List.range (s.returned symbol).length)
  current : ∀ symbol, s.currentSequence symbol = (s.returned symbol).length
  apart : ∀ i c symbol, s.calls[i]? = some c → c.symbol ≠ symbol →
    (s.move (.go i)).returned symbol = s.returned symbol ∧
      (s.move (.go i)).shared.lookup symbol = s.shared.lookup symbol
  alone : ∀ c ∈ s.calls, ∀ sequences : Table String ℕ,
    sequences.lookup c.symbol = s.shared.lookup c.symbol →
      (c.step sequences).2 = (c.step s.shared).2 ∧
        (c.step sequences).1.lookup c.symbol = (c.step s.shared).1.lookup c.symbol

/-- The numbers returned are those counted, and only a counter that exists is incremented. -/
structure Counted (s : Counters) : Prop where
  numbers : ∀ symbol, (s.returned symbol).Perm (List.range (s.currentSequence symbol))
  found : ∀ symbol, .increment symbol ∈ s.calls → (s.shared.lookup symbol).isSome

end Counters

namespace SequenceCall
variable {t t' : Table String ℕ} {c : SequenceCall} {symbol : String} {n : ℕ}

theorem step_other (h : c.symbol ≠ symbol) : (c.step t).1.lookup symbol = t.lookup symbol := by
  cases c with
  | lookup s =>
    unfold step
    cases hl : t.lookup s <;> simp [hl]
  | insert s =>
    have hne : symbol ≠ s := Ne.symm h
    unfold step
    cases hl : t.lookup s <;> simp [hl, hne]
  | increment s =>
    have hne : symbol ≠ s := Ne.symm h
    unfold step
    cases hl : t.lookup s <;> simp [hl, hne]
  | done s n => simp [step]

theorem step_symbol (t : Table String ℕ) (c : SequenceCall) : (c.step t).2.symbol = c.symbol := by
  cases c with
  | lookup s | insert s | increment s =>
    unfold step
    cases hl : t.lookup s <;> simp [hl, SequenceCall.symbol]
  | done s n => simp [step, SequenceCall.symbol]

theorem symbol_of_result (h : c.result symbol = some n) : c.symbol = symbol := by
  cases c with
  | done s k =>
    simp only [result] at h
    split_ifs at h with hs
    exact hs
  | lookup _ | insert _ | increment _ => cases h

theorem step_local (h : t.lookup c.symbol = t'.lookup c.symbol) :
    (c.step t).2 = (c.step t').2 ∧ (c.step t).1.lookup c.symbol = (c.step t').1.lookup c.symbol := by
  cases c with
  | lookup s | insert s | increment s =>
    simp only [SequenceCall.symbol] at h
    cases hl : t'.lookup s <;> simp [step, SequenceCall.symbol, h, hl]
  | done s n =>
    simp only [SequenceCall.symbol] at h
    simp [step, SequenceCall.symbol, h]

/-- Short of the increment, no number is drawn and no counter loses its value. -/
theorem step_quiet (h : c ≠ .increment c.symbol) (symbol : String) :
    ((c.step t).1.lookup symbol).getD 0 = (t.lookup symbol).getD 0 ∧
      ((t.lookup symbol).isSome → ((c.step t).1.lookup symbol).isSome) ∧
      (c.step t).2.result symbol = c.result symbol := by
  cases c with
  | lookup s =>
    unfold step
    cases hl : t.lookup s <;> simp [hl, result]
  | insert s =>
    unfold step
    cases hl : t.lookup s with
    | some n => simp [result, hl]
    | none =>
      by_cases hs : symbol = s
      · subst hs
        simp [result, hl]
      · simp [result, hl, hs]
  | increment s => exact absurd rfl h
  | done s n => simp [step]

/-- After the counter was looked up or made, it is there. -/
theorem step_found (h : (c.step t).2 = .increment symbol) (hc : c ≠ .increment symbol) :
    ((c.step t).1.lookup symbol).isSome := by
  cases c with
  | lookup s =>
    simp only [step] at h ⊢
    cases hl : t.lookup s with
    | some n =>
      rw [hl] at h
      obtain rfl := SequenceCall.increment.inj h
      simp [hl]
    | none =>
      rw [hl] at h
      cases h
  | insert s =>
    simp only [step] at h ⊢
    cases hl : t.lookup s with
    | some n =>
      rw [hl] at h
      obtain rfl := SequenceCall.increment.inj h
      simp [hl]
    | none =>
      rw [hl] at h
      obtain rfl := SequenceCall.increment.inj h
      simp
  | increment s =>
    simp only [step] at h
    cases hl : t.lookup s with
    | some n =>
      rw [hl] at h
      cases h
    | none =>
      rw [hl] at h
      exact absurd h hc
  | done s n => cases h

end SequenceCall

namespace Counters
variable {s : Counters} {i : ℕ} {c : SequenceCall} {symbol : String}

theorem Counted.start (h : s.Counted) (symbol : String) : (s.move (.call symbol)).Counted where
  numbers symbol' := by
    have hsame : (s.move (.call symbol)).returned symbol' = s.returned symbol' :=
      Pool.results_start rfl
    rw [hsame]
    exact h.numbers symbol'
  found symbol' hmem := by
    simp only [move, Pool.start, List.mem_append, List.mem_singleton, reduceCtorEq,
      or_false] at hmem
    exact h.found symbol' hmem

/-- The increment of a counter draws the number it had. -/
theorem Counted.draw (h : s.Counted) (hi : s.calls[i]? = some (.increment symbol)) :
    (s.move (.go i)).Counted := by
  obtain ⟨n, hn⟩ := Option.isSome_iff_exists.mp (h.found symbol (List.mem_of_getElem? hi))
  have hstep : SequenceCall.step s.shared (.increment symbol) =
      (s.shared.insert symbol (n + 1), .done symbol n) := by simp [SequenceCall.step, hn]
  have hcurrent : ∀ symbol', (s.move (.go i)).currentSequence symbol' =
      if symbol' = symbol then n + 1 else s.currentSequence symbol' := by
    intro symbol'
    unfold currentSequence move
    dsimp only
    rw [Pool.advance_some hi, hstep, Table.lookup_insert_eq]
    split_ifs <;> simp
  constructor
  · intro symbol'
    have hold := h.numbers symbol'
    rw [hcurrent]
    by_cases hs : symbol' = symbol
    · subst hs
      have hnow : s.currentSequence symbol' = n := by simp [currentSequence, hn]
      rw [if_pos rfl, List.range_succ]
      rw [hnow] at hold
      have hdrawn : ((s.move (.go i)).returned symbol').Perm (n :: s.returned symbol') :=
        Pool.results_advance_perm hi rfl (by rw [hstep]; simp [SequenceCall.result])
      exact hdrawn.trans ((hold.cons n).trans (List.perm_append_singleton n _).symm)
    · have hsame : (s.move (.go i)).returned symbol' = s.returned symbol' :=
        Pool.results_advance hi (by rw [hstep]; simp [SequenceCall.result, Ne.symm hs])
      rw [if_neg hs, hsame]
      exact hold
  · intro symbol' hmem
    unfold move at hmem ⊢
    dsimp only at hmem ⊢
    rw [Pool.advance_some hi, hstep] at hmem ⊢
    rw [Table.lookup_insert_eq]
    split_ifs
    · simp
    · rcases List.mem_or_eq_of_mem_set hmem with hmem | hmem
      · exact h.found symbol' hmem
      · cases hmem

/-- Any other step. -/
theorem Counted.prepare (h : s.Counted) (hi : s.calls[i]? = some c) (hc : c ≠ .increment c.symbol) :
    (s.move (.go i)).Counted := by
  have hquiet := c.step_quiet (t := s.shared) hc
  constructor
  · intro symbol'
    have hsame : (s.move (.go i)).returned symbol' = s.returned symbol' :=
      Pool.results_advance hi (hquiet symbol').2.2
    have hcurrent : (s.move (.go i)).currentSequence symbol' = s.currentSequence symbol' := by
      unfold currentSequence move
      dsimp only
      rw [Pool.advance_some hi]
      exact (hquiet symbol').1
    rw [hsame, hcurrent]
    exact h.numbers symbol'
  · intro symbol' hmem
    unfold move at hmem ⊢
    dsimp only at hmem ⊢
    rw [Pool.advance_some hi] at hmem ⊢
    rcases List.mem_or_eq_of_mem_set hmem with hmem | hmem
    · exact (hquiet symbol').2.1 (h.found symbol' hmem)
    · apply SequenceCall.step_found hmem.symm
      rintro rfl
      exact hc rfl

theorem Counted.move (h : s.Counted) (m : CounterMove) : (s.move m).Counted := by
  cases m with
  | call symbol => exact h.start symbol
  | go i =>
    cases hi : s.calls[i]? with
    | none =>
      unfold Counters.move
      dsimp only
      rw [Pool.advance_none hi]
      exact h
    | some c =>
      by_cases hc : c = .increment c.symbol
      · exact h.draw (hc ▸ hi)
      · exact h.prepare hi hc

theorem Counted.length_returned (h : s.Counted) (symbol : String) :
    (s.returned symbol).length = s.currentSequence symbol := by
  rw [(h.numbers symbol).length_eq, List.length_range]

/-- A counter never runs ahead of the calls: the `u64` of the source holds `2 ^ 64` of them. -/
theorem Counted.le_calls (h : s.Counted) (symbol : String) :
    s.currentSequence symbol ≤ s.calls.length := by
  rw [← h.length_returned symbol]
  exact List.length_filterMap_le _ _

theorem Counted.noGap (h : s.Counted) : s.GapFree := by
  constructor
  · intro symbol
    rw [h.length_returned]
    exact h.numbers symbol
  · exact fun symbol => (h.length_returned symbol).symm
  · intro i c symbol hi hne
    constructor
    · apply Pool.results_advance hi
      cases hc : c.result symbol with
      | none =>
        cases hr : (c.step s.shared).2.result symbol with
        | none => rfl
        | some n =>
          have hsym := c.step_symbol s.shared
          exact absurd (hsym.symm.trans (SequenceCall.symbol_of_result hr)) hne
      | some n => exact absurd (SequenceCall.symbol_of_result hc) hne
    · unfold Counters.move
      dsimp only
      rw [Pool.advance_some hi]
      exact SequenceCall.step_other hne
  · exact fun c _ sequences hseq => SequenceCall.step_local hseq

/-- A call that nobody disturbs is the one step that the requests take it for. -/
theorem nextSequence_alone (f : Subscriptions) (symbol : String) :
    [.call symbol, .go 0, .go 0, .go 0].foldl move ⟨f.sequences, []⟩ =
      (⟨(f.nextSequence symbol).2.sequences, [.done symbol (f.nextSequence symbol).1]⟩ :
        Counters) := by
  cases hl : f.sequences.lookup symbol <;>
    simp [Counters.move, Pool.start, Pool.advance, SequenceCall.step, Subscriptions.nextSequence,
      hl, AList.insert_insert]

/-- However the calls interleave, the numbers they return have no gap and no repetition. -/
theorem gapFree (h : Reaches (· = new) move (fun _ _ => True) s) : s.GapFree := by
  apply Counted.noGap
  apply Reaches.invariant (P := Counted) _ _ h
  · rintro s rfl
    exact ⟨fun symbol => by simp [new, returned, Pool.results, currentSequence],
      fun symbol hmem => by cases hmem⟩
  · exact fun s m hs _ => hs.move m

/-- Two calls that both find no counter, and one for another symbol. -/
def race : List CounterMove :=
  [.call "A", .call "A", .call "B", .go 0, .go 1, .go 0, .go 2, .go 0, .go 1, .go 2, .go 1, .go 2]

theorem race_gapFree : GapFree (race.foldl move new) := by
  have hstart : Reaches (· = new) move (fun _ _ => True) new := .start rfl
  exact gapFree (hstart.run (by decide))

example : returned (race.foldl move new) "A" = [0, 1] := by decide +kernel

end Counters
end OptionChainBackend
