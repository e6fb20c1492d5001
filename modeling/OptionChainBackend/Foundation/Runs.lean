import Mathlib.Logic.Basic

/-! Runs of a machine whose steps are labelled, and the invariant rule for them. -/
namespace Foundation

variable {σ ι : Type}

/-- The states reached from a state of `init` by steps that each meet `ok`. -/
inductive Reaches (init : σ → Prop) (step : σ → ι → σ) (ok : σ → ι → Prop) : σ → Prop
  | start {s : σ} (h : init s) : Reaches init step ok s
  | next {s : σ} {i : ι} (h : Reaches init step ok s) (hok : ok s i) :
      Reaches init step ok (step s i)

namespace Reaches
variable {init : σ → Prop} {step : σ → ι → σ} {ok ok' : σ → ι → Prop} {P : σ → Prop}

/-- What holds at the start and is kept by every allowed step holds in every state reached. -/
theorem invariant (h0 : ∀ s, init s → P s) (hstep : ∀ s i, P s → ok s i → P (step s i))
    {s : σ} (h : Reaches init step ok s) : P s := by
  induction h with
  | start h => exact h0 _ h
  | next _ hok ih => exact hstep _ _ ih hok

/-- Dropping conditions on the steps reaches at least the same states. -/
theorem mono (hok : ∀ s i, ok s i → ok' s i) {s : σ} (h : Reaches init step ok s) :
    Reaches init step ok' s := by
  induction h with
  | start h => exact .start h
  | next _ hi ih => exact .next ih (hok _ _ hi)

end Reaches

/-- Each of the steps meets `ok` when its turn comes. -/
def Allowed (step : σ → ι → σ) (ok : σ → ι → Prop) : σ → List ι → Prop
  | _, [] => True
  | s, i :: is => ok s i ∧ Allowed step ok (step s i) is

instance Allowed.decidable (step : σ → ι → σ) (ok : σ → ι → Prop) [∀ s i, Decidable (ok s i)] :
    ∀ s is, Decidable (Allowed step ok s is)
  | _, [] => .isTrue trivial
  | s, i :: is => @instDecidableAnd _ _ _ (Allowed.decidable step ok (step s i) is)

theorem Reaches.run {init : σ → Prop} {step : σ → ι → σ} {ok : σ → ι → Prop} {s : σ}
    (h : Reaches init step ok s) {is : List ι} (hok : Allowed step ok s is) :
    Reaches init step ok (is.foldl step s) := by
  induction is generalizing s with
  | nil => exact h
  | cons i is ih => exact ih (h.next hok.1) hok.2

/-- What the turn of `i` brings about and every turn keeps holds once `i` has had its turn. -/
theorem foldl_establishes {f : σ → ι → σ} {K P : σ → Prop} {i : ι}
    (hK : ∀ s j, K s → K (f s j)) (hkeep : ∀ s j, K s → P s → P (f s j))
    (hset : ∀ s, K s → P (f s i)) {s : σ} (h : K s) {is : List ι} (hi : i ∈ is) :
    P (is.foldl f s) := by
  induction is generalizing s with
  | nil => cases hi
  | cons j is ih =>
    by_cases hmem : i ∈ is
    · exact ih (hK s j h) hmem
    · have hij : i = j := by simpa [hmem] using hi
      subst hij
      apply List.foldlRecOn (motive := fun s => K s ∧ P s) is f ⟨hK s i h, hset s h⟩ _ |>.2
      intro s hs j _
      exact ⟨hK s j hs.1, hkeep s j hs.1 hs.2⟩

end Foundation
