import OptionChainBackend.Api.Grounded

/-!
How expirations come to be listed: every handler that creates one has parsed it from a segment,
and the engine creates none.
-/
namespace OptionChainBackend
open Foundation Upstream MarketMaker Exchange

/-- Some accepted segment parses to `e`. -/
def ExpirationDate.Written (e : ExpirationDate) : Prop :=
  ∃ expStr, parseExpiration expStr = .ok e

/-- Every expiration listed since is one of some segment. -/
def Opens {B : Type} (x x' : Exchange B) : Prop :=
  ∀ u, ∀ e ∈ x'.expirations u, e ∈ x.expirations u ∨ e.Written

namespace Opens
variable {B : Type} {x x' x'' : Exchange B}

theorem of_eq (h : x'.toCatalog = x.toCatalog) : Opens x x' := by
  intro u e he
  rw [h] at he
  exact .inl he

theorem refl (x : Exchange B) : Opens x x := .of_eq rfl

theorem trans (h : Opens x x') (h' : Opens x' x'') : Opens x x'' := by
  intro u e he
  rcases h' u e he with he | he
  · exact h u e he
  · exact .inr he

variable [Upstream B]

omit [Upstream B] in
theorem getOrCreate (x : Exchange B) (u : String) : Opens x (x.getOrCreate u) := by
  unfold Exchange.getOrCreate
  split_ifs <;> exact fun _ _ he => .inl he

theorem getOrCreateStrike (x : Exchange B) (u : String) (e : ExpirationDate) (strike : ℕ) :
    Opens x (x.getOrCreateStrike u e strike) := by
  unfold Exchange.getOrCreateStrike
  split_ifs <;> exact fun _ _ he => .inl he

theorem getOrCreateExpiration [LawfulUpstream B] (x : Exchange B) (u : String)
    {e : ExpirationDate} (h : e.Written) : Opens x (x.getOrCreateExpiration u e) := by
  unfold Exchange.getOrCreateExpiration
  split_ifs
  · exact .refl x
  · intro u' e' he
    dsimp only at he
    by_cases hu : u' = u
    · subst hu
      rw [Function.update_self] at he
      rcases List.mem_cons.mp ((LawfulUpstream.enlist_perm _ _).mem_iff.mp he) with rfl | he
      · exact .inr h
      · exact .inl he
    · rw [Function.update_of_ne hu] at he
      exact .inl he

theorem openBook [LawfulUpstream B] (x : Exchange B) {a : OptionAddr}
    (h : a.expiration.Written) : Opens x (x.openBook a) :=
  ((getOrCreate x _).trans (getOrCreateExpiration _ _ h)).trans (getOrCreateStrike _ _ _ _)

theorem remove (x : Exchange B) (u : String) : Opens x (x.remove u) := by
  intro u' e he
  unfold Exchange.remove at he
  dsimp only at he
  by_cases hu : u' = u
  · subst hu
    rw [Function.update_self] at he
    cases he
  · rw [Function.update_of_ne hu] at he
    exact .inl he

/-- A restore opens the books of the stored strings, which it parses. -/
theorem restoreInfos [LawfulUpstream B] (x : Exchange B) (infos : List OrderbookSnapshotInfo) :
    Opens x (AppState.restoreInfos x infos).2 := by
  unfold AppState.restoreInfos
  apply List.foldlRecOn
    (motive := fun acc : AppState.RestoreTally × Exchange B => Opens x acc.2)
  · exact .refl x
  · intro acc hacc info _
    refine hacc.trans ?_
    unfold AppState.restoreInfo
    split
    · exact .refl _
    · split
      · exact getOrCreate _ _
      · exact openBook _ ⟨_, ‹_›⟩
      · rename_i e style he hstyle
        dsimp only
        split <;>
          · rename_i hr
            exact (openBook _ ⟨_, he⟩).trans (.of_eq (congrArg (·.2.toCatalog) hr).symm)

end Opens
end OptionChainBackend
