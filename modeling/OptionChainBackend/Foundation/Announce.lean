import OptionChainBackend.Foundation.Pool

/-!
Calls that change a shared value and announce it in a later step. Read from the value when it is
told, the last announcement is right once no call owes one. Told from what the call wrote itself,
it is right as long as no two calls that write overlap.
-/
namespace Foundation

variable {σ γ α : Type}

section Reading
variable (view : σ → α) (told : σ → List α) (owes : γ → Prop) (init : α)

/-- What one step of a call does: nothing to the value; a change that the call owes an announcement
for; or the announcement of the value as it is. -/
inductive Announces (s : σ) (c : γ) (s' : σ) (c' : γ) : Prop
  | quiet (hv : view s' = view s) (ht : told s' = told s) (ho : owes c → owes c')
  | write (ho : owes c')
  | tell (hv : view s' = view s) (ht : told s' = told s ++ [view s])

/-- The last announcement is the value, unless some call owes another. -/
def Pool.Announced (p : Pool σ γ) : Prop :=
  (∃ c ∈ p.calls, owes c) ∨ (told p.shared).getLastD init = view p.shared

end Reading

namespace Pool
variable {view : σ → α} {told : σ → List α} {owes : γ → Prop} {init : α} {p : Pool σ γ}
  {f : σ → γ → σ × γ} {i : ℕ}

theorem Announced.start (h : p.Announced view told owes init) (c : γ) :
    (p.start c).Announced view told owes init := by
  rcases h with ⟨d, hd, ho⟩ | h
  · exact .inl ⟨d, List.mem_append_left _ hd, ho⟩
  · exact .inr h

theorem Announced.advance (h : p.Announced view told owes init)
    (hstep : ∀ c, p.calls[i]? = some c →
      Announces view told owes p.shared c (f p.shared c).1 (f p.shared c).2) :
    (p.advance i f).Announced view told owes init := by
  cases hc : p.calls[i]? with
  | none =>
    rw [advance_none hc]
    exact h
  | some c =>
    have hshared : (p.advance i f).shared = (f p.shared c).1 := by rw [advance_some hc]
    cases hstep c hc with
    | quiet hv ht ho =>
      rcases h with h | h
      · exact .inl (exists_advance hc h ho)
      · refine .inr ?_
        rw [hshared, hv, ht]
        exact h
    | write ho => exact .inl ⟨_, mem_advance hc, ho⟩
    | tell hv ht =>
      refine .inr ?_
      rw [hshared, hv, ht]
      simp

theorem Announced.settled (h : p.Announced view told owes init) (hnone : ∀ c ∈ p.calls, ¬ owes c) :
    (told p.shared).getLastD init = view p.shared := by
  rcases h with ⟨c, hc, ho⟩ | h
  · exact absurd ho (hnone c hc)
  · exact h

end Pool

section Echo
variable (view : σ → Option α) (told : σ → List α) (owes : γ → Option α)

/-- What one step of a call does: nothing to the value; a change; or the announcement of what the
call wrote. -/
inductive Echoes (s : σ) (c : γ) (s' : σ) (c' : γ) : Prop
  | quiet (hv : view s' = view s) (ht : told s' = told s) (ho : owes c' = owes c)
  | write (v : α) (hc : owes c = none) (hv : view s' = some v) (ht : told s' = told s)
      (ho : owes c' = some v)
  | tell (v : α) (hc : owes c = some v) (hv : view s' = view s) (ht : told s' = told s ++ [v])
      (ho : owes c' = none)

/-- A value that was written was announced, or will be; without one there was nothing to say. -/
structure Pool.Echoed (p : Pool σ γ) : Prop where
  written : ∀ v, view p.shared = some v → v ∈ told p.shared ∨ v ∈ p.results owes
  silent : view p.shared = none → told p.shared = [] ∧ p.results owes = []

/-- One call at most owes an announcement, and then of the value; otherwise it was told last. -/
def Pool.InTurn (p : Pool σ γ) : Prop :=
  p.results owes = [] ∧ (told p.shared).getLast? = view p.shared ∨
    ∃ v, p.results owes = [v] ∧ view p.shared = some v

end Echo

namespace Pool
variable {view : σ → Option α} {told : σ → List α} {owes : γ → Option α} {p : Pool σ γ}
  {f : σ → γ → σ × γ} {i : ℕ} {c : γ}

/-- An operation by which a call gives its result away. -/
theorem results_advance_perm' {g : γ → Option α} {b : α} (h : p.calls[i]? = some c)
    (hc : g c = some b) (hb : g (f p.shared c).2 = none) :
    (p.results g).Perm (b :: (p.advance i f).results g) := by
  rw [advance_some h]
  have hlt := (List.getElem?_eq_some_iff.mp h).1
  have hback : (p.calls.set i (f p.shared c).2).set i c = p.calls := by
    rw [List.set_set]
    obtain ⟨hlt, rfl⟩ := List.getElem?_eq_some_iff.mp h
    exact List.set_getElem_self hlt
  have hperm : (((p.calls.set i (f p.shared c).2).set i c).filterMap g).Perm
      (b :: (p.calls.set i (f p.shared c).2).filterMap g) :=
    filterMap_set_perm (List.getElem?_set_self hlt) hb hc
  rwa [hback] at hperm

theorem Echoed.start (h : p.Echoed view told owes) (hc : owes c = none) :
    (p.start c).Echoed view told owes := by
  refine ⟨?_, ?_⟩
  · rw [results_start hc]
    exact h.written
  · rw [results_start hc]
    exact h.silent

theorem Echoed.advance (h : p.Echoed view told owes)
    (hstep : ∀ c, p.calls[i]? = some c →
      Echoes view told owes p.shared c (f p.shared c).1 (f p.shared c).2) :
    (p.advance i f).Echoed view told owes := by
  cases hc : p.calls[i]? with
  | none =>
    rw [advance_none hc]
    exact h
  | some c =>
    have hshared : (p.advance i f).shared = (f p.shared c).1 := by rw [advance_some hc]
    cases hstep c hc with
    | quiet hv ht ho =>
      refine ⟨?_, ?_⟩
      · rw [hshared, hv, ht, results_advance hc ho]
        exact h.written
      · rw [hshared, hv, ht, results_advance hc ho]
        exact h.silent
    | write v hnone hv ht ho =>
      refine ⟨fun w hw => .inr ?_, fun hw => ?_⟩
      · rw [hshared, hv] at hw
        obtain rfl := Option.some.inj hw
        exact (results_advance_perm hc hnone ho).mem_iff.mpr List.mem_cons_self
      · rw [hshared, hv] at hw
        cases hw
    | tell v hsome hv ht ho =>
      have hperm := results_advance_perm' hc hsome ho
      refine ⟨fun w hw => ?_, fun hw => ?_⟩
      · rw [hshared, hv] at hw
        rw [hshared, ht]
        rcases h.written w hw with hw | hw
        · exact .inl (List.mem_append_left _ hw)
        · rcases List.mem_cons.mp (hperm.mem_iff.mp hw) with rfl | hw
          · exact .inl (List.mem_append_right _ List.mem_cons_self)
          · exact .inr hw
      · rw [hshared, hv] at hw
        have hempty := (h.silent hw).2
        rw [hempty] at hperm
        exact absurd hperm.length_eq (by simp)

theorem InTurn.start (h : p.InTurn view told owes) (hc : owes c = none) :
    (p.start c).InTurn view told owes := by
  unfold InTurn
  rw [results_start hc]
  exact h

/-- A call writes only while no other owes its announcement. -/
theorem InTurn.advance (h : p.InTurn view told owes)
    (hstep : ∀ c, p.calls[i]? = some c →
      Echoes view told owes p.shared c (f p.shared c).1 (f p.shared c).2)
    (hturn : ∀ c v, p.calls[i]? = some c → owes c = none → owes (f p.shared c).2 = some v →
      p.results owes = []) :
    (p.advance i f).InTurn view told owes := by
  cases hc : p.calls[i]? with
  | none =>
    rw [advance_none hc]
    exact h
  | some c =>
    have hshared : (p.advance i f).shared = (f p.shared c).1 := by rw [advance_some hc]
    unfold InTurn
    rw [hshared]
    cases hstep c hc with
    | quiet hv ht ho =>
      rw [hv, ht, results_advance hc ho]
      exact h
    | write v hnone hv ht ho =>
      have hperm := results_advance_perm hc hnone ho
      rw [hturn c v hc hnone ho] at hperm
      exact .inr ⟨v, List.perm_singleton.mp hperm, hv⟩
    | tell v hsome hv ht ho =>
      have hperm := results_advance_perm' hc hsome ho
      rcases h with ⟨hempty, -⟩ | ⟨w, hone, hw⟩
      · rw [hempty] at hperm
        exact absurd hperm.length_eq (by simp)
      · rw [hone] at hperm
        obtain ⟨rfl, hrest⟩ := List.cons.inj (List.singleton_perm.mp hperm)
        refine .inl ⟨hrest.symm, ?_⟩
        rw [hv, ht, hw]
        simp

end Pool
end Foundation
