import OptionChainBackend.Simulation.Config

/-!
The random walks of `simulation.rs`. Each asset walks along a generated path, one entry a tick, and
a path that is used up is generated anew. A generation that fails puts the walk to sleep for a
number of ticks, so the next one is neither early nor forgotten.
-/
namespace OptionChainBackend
open Foundation MarketMaker

/-- `DORMANT_RETRY_TICKS`. -/
def dormantRetryTicks : ℕ := 600

structure AssetSimulation (F : Type) where
  currentIndex : ℕ
  prices : List F
  dormantTicksRemaining : ℕ

inductive StepOutcome (F : Type) where
  | price (dollars : F) | needsRegen | dormant | noSim

structure PriceUpdate where
  symbol : String
  priceCents : ℕ
  previousPriceCents : ℕ
  timestampMs : ℕ
  deriving DecidableEq, Repr

/-- What came back from the blocking task that runs `generate_price_path`. -/
inductive Generated (F : Type) where
  | path (prices : List F) | error | panicked | cancelled

/-- Prices are in cents. `sent` is what was broadcast. `reads` is history: each index at which a
path was read, with the length of that path. -/
structure PriceSimulator (F : Type) where
  prices : Table String ℕ
  simulations : Table String (AssetSimulation F)
  sent : List PriceUpdate
  reads : List (ℕ × ℕ)

namespace PriceSimulator
variable {F : Type}

def getPrice (p : PriceSimulator F) (symbol : String) : Option ℕ := p.prices.lookup symbol

def setPrice (p : PriceSimulator F) (now : ℕ) (symbol : String) (priceCents : ℕ) :
    PriceSimulator F :=
  let previous := (p.getPrice symbol).getD priceCents
  { p with
    prices := p.prices.insert symbol priceCents
    sent := p.sent ++ [⟨symbol, priceCents, previous, now⟩] }

def setSimulation (p : PriceSimulator F) (symbol : String) (sim : AssetSimulation F) :
    PriceSimulator F := { p with simulations := p.simulations.insert symbol sim }

/-- `sim.prices.get(i)`. -/
def readPath (p : PriceSimulator F) (sim : AssetSimulation F) (i : ℕ) :
    Option F × PriceSimulator F :=
  (sim.prices[i]?, { p with reads := p.reads ++ [(i, sim.prices.length)] })

def advanceStep (p : PriceSimulator F) (symbol : String) : StepOutcome F × PriceSimulator F :=
  match p.simulations.lookup symbol with
  | none => (.noSim, p)
  | some sim =>
    if 0 < sim.dormantTicksRemaining then
      let sim := { sim with dormantTicksRemaining := sim.dormantTicksRemaining - 1 }
      let p := p.setSimulation symbol sim
      if sim.dormantTicksRemaining = 0 then (.needsRegen, p) else (.dormant, p)
    else
      let sim := { sim with currentIndex := sim.currentIndex + 1 }
      let p := p.setSimulation symbol sim
      if sim.prices.length ≤ sim.currentIndex then (.needsRegen, p)
      else
        match p.readPath sim sim.currentIndex with
        | (some dollars, p) => (.price dollars, p)
        | (none, p) => (.needsRegen, p)

def markDormant (p : PriceSimulator F) (symbol : String) : PriceSimulator F :=
  match p.simulations.lookup symbol with
  | some sim => p.setSimulation symbol { sim with dormantTicksRemaining := dormantRetryTicks }
  | none => p

variable [F64 F]

/-- A walk value in cents; the price there is, when the value has none. -/
def walkCents (p : PriceSimulator F) (symbol : String) (dollars : F) : ℕ :=
  (centsOf (F64.max dollars (F64.ofRat (1 / 100)))).getD ((p.getPrice symbol).getD 0)

def storeWalkPrice (p : PriceSimulator F) (now : ℕ) (symbol : String) (dollars : F) :
    ℕ × PriceSimulator F :=
  (p.walkCents symbol dollars, p.setPrice now symbol (p.walkCents symbol dollars))

/-- The stored price, or the configured one, or 0. -/
def lastKnown (p : PriceSimulator F) (asset : AssetConfig F) : ℕ :=
  ((p.getPrice asset.symbol).or (centsOf asset.initialPrice)).getD 0

/-- The generation itself has been run, with the result `generated`. -/
def regenerate (p : PriceSimulator F) (now : ℕ) (asset : AssetConfig F)
    (generated : Generated F) : ℕ × PriceSimulator F :=
  let currentPrice := p.lastKnown asset
  match generated with
  | .error => (currentPrice, p.markDormant asset.symbol)
  | .panicked => (currentPrice, p.markDormant asset.symbol)
  | .cancelled => (currentPrice, p)
  | .path prices =>
    if prices.length < 2 then (currentPrice, p.markDormant asset.symbol)
    else
      match p.simulations.lookup asset.symbol with
      | none => (currentPrice, p)
      | some sim =>
        let sim := { sim with prices := prices, currentIndex := 1 }
        match (p.setSimulation asset.symbol sim).readPath sim 1 with
        | (some dollars, p) => p.storeWalkPrice now asset.symbol dollars
        | (none, p) => (currentPrice, p)

/-- One tick of an asset. -/
def getNextPrice (p : PriceSimulator F) (now : ℕ) (asset : AssetConfig F)
    (generated : Generated F) : ℕ × PriceSimulator F :=
  match p.advanceStep asset.symbol with
  | (.price dollars, p) => p.storeWalkPrice now asset.symbol dollars
  | (.needsRegen, p) => p.regenerate now asset generated
  | (.dormant, p) => (p.lastKnown asset, p)
  | (.noSim, p) => (p.lastKnown asset, p)

/-- `process_tick`, without the market maker: every asset has its tick. -/
def processTick (p : PriceSimulator F) (now : ℕ) (assets : List (AssetConfig F))
    (generated : String → Generated F) : PriceSimulator F :=
  assets.foldl (fun p asset => (p.getNextPrice now asset (generated asset.symbol)).2) p

end PriceSimulator

/-- What else is done to the simulator: the ticks of the assets, and prices set from outside. -/
inductive WalkAction (F : Type) where
  | tick (now : ℕ) (asset : AssetConfig F) (generated : Generated F)
  | setPrice (now : ℕ) (symbol : String) (priceCents : ℕ)

namespace WalkAction
variable {F : Type}

def ticks : WalkAction F → Option String
  | .tick _ asset _ => some asset.symbol
  | .setPrice _ _ _ => none

def act [F64 F] (p : PriceSimulator F) : WalkAction F → PriceSimulator F
  | .tick now asset generated => (p.getNextPrice now asset generated).2
  | .setPrice now symbol priceCents => p.setPrice now symbol priceCents

end WalkAction

/-- A tick of `symbol`, the actions that came before it since the last one, and what a generation
would have given. -/
structure Round (F : Type) (symbol : String) where
  elsewhere : List (WalkAction F)
  now : ℕ
  generated : Generated F
  apart : ∀ a ∈ elsewhere, a.ticks ≠ some symbol

/-- The simulator under its one driver. -/
structure Drive (F : Type) where
  asset : AssetConfig F
  start : PriceSimulator F
  rounds : ℕ → Round F asset.symbol

namespace Drive
variable {F : Type} [F64 F] (d : Drive F)

/-- The simulator after `n` ticks of the asset. -/
def run : ℕ → PriceSimulator F
  | 0 => d.start
  | n + 1 => (((d.rounds n).elsewhere.foldl WalkAction.act (run n)).getNextPrice (d.rounds n).now
      d.asset (d.rounds n).generated).2

/-- The simulator that tick `n` finds. -/
def before (n : ℕ) : PriceSimulator F := (d.rounds n).elsewhere.foldl WalkAction.act (d.run n)

/-- Tick `n` runs a generation. -/
def Attempts (n : ℕ) : Prop := ((d.before n).advanceStep d.asset.symbol).1 = .needsRegen

/-- Tick `n` leaves the price as it was, and tells nobody. -/
structure Silent (n : ℕ) : Prop where
  price : (d.run (n + 1)).getPrice d.asset.symbol = (d.before n).getPrice d.asset.symbol
  sent : (d.run (n + 1)).sent = (d.before n).sent

/-- Tick `n` makes `dollars` the price, and sends it out. -/
structure Emits (n : ℕ) (dollars : F) : Prop where
  price : (d.run (n + 1)).getPrice d.asset.symbol =
    some ((d.before n).walkCents d.asset.symbol dollars)
  sent : ∃ previous, (d.run (n + 1)).sent = (d.before n).sent ++
    [⟨d.asset.symbol, (d.before n).walkCents d.asset.symbol dollars, previous, (d.rounds n).now⟩]

end Drive

/-- A generation that yields no path to walk on. -/
def Generated.Failed {F : Type} : Generated F → Prop
  | .path prices => prices.length < 2
  | .error => True
  | .panicked => True
  | .cancelled => False

/-- What is promised of the ticks after a generation, and of every read of a path. -/
structure Drive.Regenerates {F : Type} [F64 F] (d : Drive F) : Prop where
  failed : ∀ n, d.Attempts n → (d.rounds n).generated.Failed →
    d.Silent n ∧ (∀ k, 0 < k → k < dormantRetryTicks → ¬ d.Attempts (n + k) ∧ d.Silent (n + k)) ∧
      d.Attempts (n + dormantRetryTicks)
  walked : ∀ n path, d.Attempts n → (d.rounds n).generated = .path path → 2 ≤ path.length →
    (∀ k dollars, path[k + 1]? = some dollars → d.Emits (n + k) dollars) ∧
      (∀ k, 0 < k → k + 1 < path.length → ¬ d.Attempts (n + k)) ∧
      d.Attempts (n + (path.length - 1))
  inBounds : ∀ n, ∀ read ∈ (d.run (n + 1)).reads, read ∈ (d.before n).reads ∨ read.1 < read.2

namespace PriceSimulator
variable {F : Type} {p q : PriceSimulator F} {symbol other : String} {i k : ℕ} {path : List F}
  {dollars : F} {sim : AssetSimulation F}

@[simp] theorem setSimulation_lookup :
    (p.setSimulation other sim).simulations.lookup symbol =
      if symbol = other then some sim else p.simulations.lookup symbol := by
  simp [setSimulation]

@[simp] theorem setSimulation_prices : (p.setSimulation other sim).prices = p.prices := rfl

@[simp] theorem setSimulation_sent : (p.setSimulation other sim).sent = p.sent := rfl

@[simp] theorem setSimulation_reads : (p.setSimulation other sim).reads = p.reads := rfl

section Advance

theorem advanceStep_asleep (h : p.simulations.lookup symbol = some ⟨i, path, k + 2⟩) :
    p.advanceStep symbol = (.dormant, p.setSimulation symbol ⟨i, path, k + 1⟩) := by
  simp [advanceStep, h]

theorem advanceStep_wakes (h : p.simulations.lookup symbol = some ⟨i, path, 1⟩) :
    p.advanceStep symbol = (.needsRegen, p.setSimulation symbol ⟨i, path, 0⟩) := by
  simp [advanceStep, h]

theorem advanceStep_used (h : p.simulations.lookup symbol = some ⟨i, path, 0⟩)
    (hi : path.length ≤ i + 1) :
    p.advanceStep symbol = (.needsRegen, p.setSimulation symbol ⟨i + 1, path, 0⟩) := by
  simp [advanceStep, h, hi]

theorem advanceStep_walks (h : p.simulations.lookup symbol = some ⟨i, path, 0⟩)
    (hv : path[i + 1]? = some dollars) :
    p.advanceStep symbol = (.price dollars,
      (p.setSimulation symbol ⟨i + 1, path, 0⟩ |>.readPath ⟨i + 1, path, 0⟩ (i + 1)).2) := by
  have hi : ¬ path.length ≤ i + 1 := by
    obtain ⟨hlt, -⟩ := List.getElem?_eq_some_iff.mp hv
    omega
  simp [advanceStep, h, hi, readPath, hv]

/-- What a step may do to the simulator, with the outcome it answers. -/
inductive Advanced (p : PriceSimulator F) (symbol : String) :
    StepOutcome F × PriceSimulator F → Prop
  | missing : Advanced p symbol (.noSim, p)
  | asleep (sim : AssetSimulation F) : Advanced p symbol (.dormant, p.setSimulation symbol sim)
  | due (i : ℕ) (path : List F) :
      Advanced p symbol (.needsRegen, p.setSimulation symbol ⟨i, path, 0⟩)
  | walked (i : ℕ) (path : List F) (dollars : F) (hv : path[i + 1]? = some dollars) :
      Advanced p symbol (.price dollars,
        (p.setSimulation symbol ⟨i + 1, path, 0⟩ |>.readPath ⟨i + 1, path, 0⟩ (i + 1)).2)

theorem advanceStep_cases (p : PriceSimulator F) (symbol : String) :
    Advanced p symbol (p.advanceStep symbol) := by
  cases hl : p.simulations.lookup symbol with
  | none =>
    rw [advanceStep, hl]
    exact .missing
  | some sim =>
    obtain ⟨i, path, d⟩ := sim
    match d with
    | k + 2 =>
      rw [advanceStep_asleep hl]
      exact .asleep _
    | 1 =>
      rw [advanceStep_wakes hl]
      exact .due i path
    | 0 =>
      by_cases hi : path.length ≤ i + 1
      · rw [advanceStep_used hl hi]
        exact .due (i + 1) path
      · obtain ⟨dollars, hv⟩ : ∃ dollars, path[i + 1]? = some dollars :=
          ⟨_, List.getElem?_eq_getElem (not_le.mp hi)⟩
        rw [advanceStep_walks hl hv]
        exact .walked i path dollars hv

/-- Where a generation is due, the walk is awake and nothing else has moved. -/
theorem advanceStep_needsRegen (h : p.advanceStep symbol = (.needsRegen, q)) :
    ∃ i path, q = p.setSimulation symbol ⟨i, path, 0⟩ := by
  have hcases := advanceStep_cases p symbol
  rw [h] at hcases
  cases hcases with
  | due i path => exact ⟨i, path, rfl⟩

/-- The steps that read a path read it within its bounds. -/
theorem advanceStep_reads (p : PriceSimulator F) (symbol : String) :
    ∀ read ∈ (p.advanceStep symbol).2.reads, read ∈ p.reads ∨ read.1 < read.2 := by
  intro read hread
  have hcases := advanceStep_cases p symbol
  generalize p.advanceStep symbol = out at hcases hread
  cases hcases with
  | missing | asleep _ | due _ _ => exact .inl hread
  | walked i path dollars hv =>
    rcases List.mem_append.mp hread with hread | hread
    · exact .inl hread
    · obtain rfl := List.mem_singleton.mp hread
      exact .inr (List.getElem?_eq_some_iff.mp hv).1

theorem advanceStep_other (hne : symbol ≠ other) :
    (p.advanceStep other).2.simulations.lookup symbol = p.simulations.lookup symbol := by
  have hcases := advanceStep_cases p other
  generalize p.advanceStep other = out at hcases
  cases hcases with
  | missing => simp
  | asleep _ | due _ _ => simp [hne]
  | walked _ _ _ _ => simp [readPath, hne]

end Advance

section Tick
variable [F64 F] {now : ℕ} {asset : AssetConfig F} {generated : Generated F}

@[simp] theorem storeWalkPrice_simulations :
    (p.storeWalkPrice now symbol dollars).2.simulations = p.simulations := rfl

@[simp] theorem storeWalkPrice_reads :
    (p.storeWalkPrice now symbol dollars).2.reads = p.reads := rfl

omit [F64 F] in
theorem markDormant_same (p : PriceSimulator F) (symbol : String) :
    (p.markDormant symbol).prices = p.prices ∧
    (p.markDormant symbol).sent = p.sent ∧ (p.markDormant symbol).reads = p.reads := by
  unfold markDormant
  cases p.simulations.lookup symbol <;> simp

omit [F64 F] in
theorem markDormant_other (hne : symbol ≠ other) :
    (p.markDormant other).simulations.lookup symbol = p.simulations.lookup symbol := by
  unfold markDormant
  cases p.simulations.lookup other <;> simp [hne]

theorem regenerate_failed (h : generated.Failed) :
    (p.regenerate now asset generated).2 = p.markDormant asset.symbol := by
  cases generated with
  | path prices =>
    have hlen : prices.length < 2 := h
    simp [regenerate, hlen]
  | error => simp [regenerate]
  | panicked => simp [regenerate]
  | cancelled => cases h

theorem regenerate_path (now : ℕ) (h : p.simulations.lookup asset.symbol = some sim)
    (hv : path[1]? = some dollars) :
    (p.regenerate now asset (.path path)).2 =
      (((p.setSimulation asset.symbol { sim with prices := path, currentIndex := 1 }).readPath
        { sim with prices := path, currentIndex := 1 } 1).2.storeWalkPrice now asset.symbol
          dollars).2 := by
  have hlen : ¬ path.length < 2 := by
    obtain ⟨hlt, -⟩ := List.getElem?_eq_some_iff.mp hv
    omega
  simp [regenerate, hlen, h, readPath, hv]

/-- What `regenerate` may do: nothing, go to sleep, or take the first step of a new path. -/
theorem regenerate_cases (p : PriceSimulator F) (now : ℕ) (asset : AssetConfig F)
    (generated : Generated F) : (p.regenerate now asset generated).2 = p ∨
    (p.regenerate now asset generated).2 = p.markDormant asset.symbol ∨
    ∃ sim path dollars, generated = .path path ∧ p.simulations.lookup asset.symbol = some sim ∧
      path[1]? = some dollars ∧ (p.regenerate now asset generated).2 =
        (((p.setSimulation asset.symbol { sim with prices := path, currentIndex := 1 }).readPath
          { sim with prices := path, currentIndex := 1 } 1).2.storeWalkPrice now asset.symbol
            dollars).2 := by
  cases generated with
  | path prices =>
    by_cases hlen : prices.length < 2
    · exact .inr (.inl (regenerate_failed hlen))
    · obtain ⟨dollars, hv⟩ : ∃ dollars, prices[1]? = some dollars :=
        ⟨_, List.getElem?_eq_getElem (by omega)⟩
      cases hl : p.simulations.lookup asset.symbol with
      | none => simp [regenerate, hlen, hl]
      | some sim => exact .inr (.inr ⟨sim, prices, _, rfl, rfl, hv, regenerate_path now hl hv⟩)
  | error => exact .inr (.inl (regenerate_failed trivial))
  | panicked => exact .inr (.inl (regenerate_failed trivial))
  | cancelled => simp [regenerate]

/-- What the parts of a tick keep, the tick keeps. -/
theorem getNextPrice_rule {P : PriceSimulator F → Prop} (hstep : P (p.advanceStep asset.symbol).2)
    (hstore : ∀ q dollars, P q → P (q.storeWalkPrice now asset.symbol dollars).2)
    (hsleep : ∀ q, P q → P (q.markDormant asset.symbol))
    (hpath : ∀ q sim, P q → 1 < sim.prices.length →
      P ((q.setSimulation asset.symbol sim).readPath sim 1).2) :
    P (p.getNextPrice now asset generated).2 := by
  unfold getNextPrice
  split <;> rename_i q hq <;> rw [hq] at hstep
  · exact hstore q _ hstep
  · rcases regenerate_cases q now asset generated with h | h | ⟨sim, path, dollars, -, -, hv, h⟩
    · rw [h]
      exact hstep
    · rw [h]
      exact hsleep q hstep
    · rw [h]
      exact hstore _ _ (hpath q _ hstep (List.getElem?_eq_some_iff.mp hv).1)
  · exact hstep
  · exact hstep

theorem getNextPrice_reads : ∀ read ∈ (p.getNextPrice now asset generated).2.reads,
    read ∈ p.reads ∨ read.1 < read.2 := by
  apply getNextPrice_rule
    (P := fun q : PriceSimulator F => ∀ read ∈ q.reads, read ∈ p.reads ∨ read.1 < read.2)
  · exact advanceStep_reads p asset.symbol
  · exact fun q dollars hq => hq
  · intro q hq
    rw [(markDormant_same q asset.symbol).2.2]
    exact hq
  · intro q sim hq hlen read hread
    rcases List.mem_append.mp hread with hread | hread
    · exact hq read hread
    · obtain rfl := List.mem_singleton.mp hread
      exact .inr hlen

theorem getNextPrice_other (hne : symbol ≠ asset.symbol) :
    (p.getNextPrice now asset generated).2.simulations.lookup symbol =
      p.simulations.lookup symbol := by
  apply getNextPrice_rule
    (P := fun q : PriceSimulator F => q.simulations.lookup symbol = p.simulations.lookup symbol)
  · exact advanceStep_other hne
  · exact fun q dollars hq => hq
  · exact fun q hq => (markDormant_other hne).trans hq
  · intro q sim hq _
    simpa [readPath, hne] using hq

end Tick

end PriceSimulator

section Elsewhere
variable {F : Type} [F64 F] {p : PriceSimulator F} {symbol : String} {a : WalkAction F}

theorem WalkAction.act_other (h : a.ticks ≠ some symbol) :
    (a.act p).simulations.lookup symbol = p.simulations.lookup symbol := by
  cases a with
  | tick now asset generated =>
    exact PriceSimulator.getNextPrice_other fun hs => h (congrArg some hs.symm)
  | setPrice now other cents => rfl

end Elsewhere

namespace Drive
variable {F : Type} [F64 F] {d : Drive F} {n i k : ℕ} {path : List F} {dollars : F}

/-- What the driver does elsewhere leaves the walk alone. -/
theorem before_lookup : (d.before n).simulations.lookup d.asset.symbol =
    (d.run n).simulations.lookup d.asset.symbol := by
  apply List.foldlRecOn (motive := fun p : PriceSimulator F =>
    p.simulations.lookup d.asset.symbol = (d.run n).simulations.lookup d.asset.symbol)
    (d.rounds n).elsewhere _ rfl
  intro p hp a ha
  rw [WalkAction.act_other ((d.rounds n).apart a ha), hp]

theorem run_succ : d.run (n + 1) =
    ((d.before n).getNextPrice (d.rounds n).now d.asset (d.rounds n).generated).2 := rfl

section Tick

theorem asleep (h : (d.run n).simulations.lookup d.asset.symbol = some ⟨i, path, k + 2⟩) :
    ¬ d.Attempts n ∧ d.Silent n ∧
      (d.run (n + 1)).simulations.lookup d.asset.symbol = some ⟨i, path, k + 1⟩ := by
  rw [← before_lookup] at h
  have hstep := PriceSimulator.advanceStep_asleep h
  refine ⟨by simp [Attempts, hstep], ⟨?_, ?_⟩, ?_⟩ <;>
    simp [run_succ, PriceSimulator.getNextPrice, PriceSimulator.getPrice, hstep]

theorem wakes (h : (d.run n).simulations.lookup d.asset.symbol = some ⟨i, path, 1⟩) :
    d.Attempts n := by
  rw [← before_lookup] at h
  simp [Attempts, PriceSimulator.advanceStep_wakes h]

theorem used (h : (d.run n).simulations.lookup d.asset.symbol = some ⟨i, path, 0⟩)
    (hi : path.length ≤ i + 1) : d.Attempts n := by
  rw [← before_lookup] at h
  simp [Attempts, PriceSimulator.advanceStep_used h hi]

theorem emits_of_store {q : PriceSimulator F} (hrun : d.run (n + 1) =
      (q.storeWalkPrice (d.rounds n).now d.asset.symbol dollars).2)
    (hprices : q.prices = (d.before n).prices) (hsent : q.sent = (d.before n).sent) :
    d.Emits n dollars := by
  have hcents : q.walkCents d.asset.symbol dollars =
      (d.before n).walkCents d.asset.symbol dollars := by
    simp [PriceSimulator.walkCents, PriceSimulator.getPrice, hprices]
  constructor
  · rw [hrun, ← hcents]
    simp [PriceSimulator.storeWalkPrice, PriceSimulator.setPrice, PriceSimulator.getPrice]
  · refine ⟨(q.getPrice d.asset.symbol).getD (q.walkCents d.asset.symbol dollars), ?_⟩
    rw [hrun, ← hcents, ← hsent]
    rfl

theorem walks (h : (d.run n).simulations.lookup d.asset.symbol = some ⟨i, path, 0⟩)
    (hv : path[i + 1]? = some dollars) : ¬ d.Attempts n ∧ d.Emits n dollars ∧
      (d.run (n + 1)).simulations.lookup d.asset.symbol = some ⟨i + 1, path, 0⟩ := by
  rw [← before_lookup] at h
  have hstep := PriceSimulator.advanceStep_walks h hv
  refine ⟨by simp [Attempts, hstep], ?_, ?_⟩
  · apply emits_of_store
    · rw [run_succ, PriceSimulator.getNextPrice, hstep]
    · rfl
    · rfl
  · simp [run_succ, PriceSimulator.getNextPrice, hstep, PriceSimulator.readPath]

theorem attempt_fails (h : d.Attempts n) (hg : (d.rounds n).generated.Failed) :
    d.Silent n ∧ ∃ i path, (d.run (n + 1)).simulations.lookup d.asset.symbol =
      some ⟨i, path, dormantRetryTicks⟩ := by
  obtain ⟨q, hq⟩ : ∃ q, (d.before n).advanceStep d.asset.symbol = (.needsRegen, q) :=
    ⟨_, Prod.ext h rfl⟩
  obtain ⟨i, path, rfl⟩ := PriceSimulator.advanceStep_needsRegen hq
  have hrun : d.run (n + 1) =
      ((d.before n).setSimulation d.asset.symbol ⟨i, path, 0⟩).markDormant d.asset.symbol := by
    rw [run_succ, PriceSimulator.getNextPrice, hq]
    exact PriceSimulator.regenerate_failed hg
  obtain ⟨hprices, hsent, -⟩ := PriceSimulator.markDormant_same
    ((d.before n).setSimulation d.asset.symbol ⟨i, path, 0⟩) d.asset.symbol
  refine ⟨⟨?_, ?_⟩, i, path, ?_⟩
  · rw [hrun, PriceSimulator.getPrice, hprices]
    rfl
  · rw [hrun, hsent]
    rfl
  · simp [hrun, PriceSimulator.markDormant]

theorem attempt_walks (h : d.Attempts n) (hg : (d.rounds n).generated = .path path)
    (hv : path[1]? = some dollars) : d.Emits n dollars ∧
      (d.run (n + 1)).simulations.lookup d.asset.symbol = some ⟨1, path, 0⟩ := by
  obtain ⟨q, hq⟩ : ∃ q, (d.before n).advanceStep d.asset.symbol = (.needsRegen, q) :=
    ⟨_, Prod.ext h rfl⟩
  obtain ⟨i, old, rfl⟩ := PriceSimulator.advanceStep_needsRegen hq
  have hl : ((d.before n).setSimulation d.asset.symbol ⟨i, old, 0⟩).simulations.lookup
      d.asset.symbol = some ⟨i, old, 0⟩ := by simp
  have hrun := PriceSimulator.regenerate_path (d.rounds n).now hl hv
  rw [← hg] at hrun
  constructor
  · apply emits_of_store
    · rw [run_succ, PriceSimulator.getNextPrice, hq]
      exact hrun
    · rfl
    · rfl
  · rw [run_succ, PriceSimulator.getNextPrice, hq]
    dsimp only
    rw [hrun]
    simp [PriceSimulator.readPath]

end Tick

section Run

/-- A walk put to sleep for `k + 1` ticks. -/
theorem sleeps (h : (d.run n).simulations.lookup d.asset.symbol = some ⟨i, path, k + 1⟩) :
    (∀ j < k, ¬ d.Attempts (n + j) ∧ d.Silent (n + j)) ∧ d.Attempts (n + k) := by
  induction k generalizing n with
  | zero => exact ⟨by simp, wakes h⟩
  | succ k ih =>
    obtain ⟨hnot, hsilent, hnext⟩ := asleep h
    obtain ⟨hrest, hwakes⟩ := ih hnext
    constructor
    · intro j hj
      cases j with
      | zero => exact ⟨hnot, hsilent⟩
      | succ j =>
        rw [← Nat.add_assoc, Nat.add_right_comm]
        exact hrest j (by omega)
    · rw [← Nat.add_assoc, Nat.add_right_comm]
      exact hwakes

/-- A walk with `k` entries of its path ahead. -/
theorem walks_on (h : (d.run n).simulations.lookup d.asset.symbol = some ⟨i, path, 0⟩)
    (hk : path.length = i + 1 + k) :
    (∀ j dollars, path[i + 1 + j]? = some dollars → ¬ d.Attempts (n + j) ∧
      d.Emits (n + j) dollars) ∧ d.Attempts (n + k) := by
  induction k generalizing n i with
  | zero =>
    refine ⟨fun j dollars hv => ?_, used h hk.le⟩
    obtain ⟨hlt, -⟩ := List.getElem?_eq_some_iff.mp hv
    omega
  | succ k ih =>
    obtain ⟨first, hv⟩ : ∃ first, path[i + 1]? = some first :=
      ⟨_, List.getElem?_eq_getElem (by omega)⟩
    obtain ⟨hnot, hemits, hnext⟩ := walks h hv
    obtain ⟨hrest, hused⟩ := ih hnext (by omega)
    constructor
    · intro j dollars hj
      cases j with
      | zero =>
        obtain rfl : _ = dollars := Option.some.inj (hv.symm.trans hj)
        exact ⟨hnot, hemits⟩
      | succ j =>
        rw [← Nat.add_assoc, Nat.add_right_comm]
        exact hrest j dollars (by rw [← hj]; congr 1; omega)
    · rw [← Nat.add_assoc, Nat.add_right_comm]
      exact hused

end Run

/-- Whatever the generations come to: a failed one is repeated after the back-off and not before,
and the path of a successful one is walked to its end before the next. -/
theorem regenerates (d : Drive F) : d.Regenerates where
  failed n h hg := by
    obtain ⟨hsilent, i, path, hnext⟩ := attempt_fails h hg
    obtain ⟨hrest, hwakes⟩ := sleeps hnext
    refine ⟨hsilent, fun k hpos hk => ?_, ?_⟩
    · obtain ⟨j, rfl⟩ := Nat.exists_eq_add_of_lt hpos
      have hj := hrest j (by simp [dormantRetryTicks] at hk; omega)
      simpa [Nat.add_comm, Nat.add_left_comm] using hj
    · exact hwakes
  walked n path h hg hlen := by
    obtain ⟨first, hv⟩ : ∃ first, path[1]? = some first :=
      ⟨_, List.getElem?_eq_getElem (by omega)⟩
    obtain ⟨hemits, hnext⟩ := attempt_walks h hg hv
    obtain ⟨hrest, hused⟩ := walks_on (k := path.length - 2) hnext (by omega)
    have hafter : ∀ k, n + 1 + k = n + (k + 1) := fun k => by omega
    refine ⟨fun k dollars hk => ?_, fun k hpos hk => ?_, ?_⟩
    · cases k with
      | zero =>
        obtain rfl : _ = dollars := Option.some.inj (hv.symm.trans hk)
        exact hemits
      | succ k =>
        rw [← hafter]
        exact (hrest k dollars (by rw [← hk]; congr 1; omega)).2
    · obtain ⟨j, rfl⟩ : ∃ j, k = j + 1 := ⟨k - 1, by omega⟩
      obtain ⟨dollars, hj⟩ : ∃ dollars, path[1 + 1 + j]? = some dollars :=
        ⟨_, List.getElem?_eq_getElem (by omega)⟩
      rw [← hafter]
      exact (hrest j dollars hj).1
    · rw [hafter] at hused
      rwa [show path.length - 1 = path.length - 2 + 1 by omega]
  inBounds n := by
    rw [run_succ]
    exact PriceSimulator.getNextPrice_reads

end Drive

/-- The ticks of a simulator with its inputs: the clock, and what the generations come to. -/
structure Process (F : Type) where
  assets : List (AssetConfig F)
  start : PriceSimulator F
  clock : ℕ → ℕ
  generated : ℕ → String → Generated F

namespace Process
variable {F : Type} [F64 F]

def run (r : Process F) : ℕ → PriceSimulator F
  | 0 => r.start
  | n + 1 => (r.run n).processTick (r.clock n) r.assets (r.generated n)

omit [F64 F] in
/-- The ticks of some assets in round `n`. -/
def ticks (r : Process F) (n : ℕ) (assets : List (AssetConfig F)) : List (WalkAction F) :=
  assets.map fun asset => .tick (r.clock n) asset (r.generated n asset.symbol)

/-- One asset of a process, if no other has its symbol. -/
def drive (r : Process F) (asset : AssetConfig F) (front back : List (AssetConfig F))
    (hapart : ∀ other ∈ front ++ back, other.symbol ≠ asset.symbol) : Drive F where
  asset := asset
  start := r.start
  rounds n :=
    { elsewhere := (match n with
        | 0 => []
        | n + 1 => r.ticks n back) ++ r.ticks n front
      now := r.clock n
      generated := r.generated n asset.symbol
      apart := by
        have hticks : ∀ m assets, (∀ other ∈ assets, other ∈ front ++ back) →
            ∀ a ∈ r.ticks m assets, a.ticks ≠ some asset.symbol := by
          intro m assets hsub a ha
          obtain ⟨other, hother, rfl⟩ := List.mem_map.mp ha
          exact fun hs => hapart other (hsub other hother) (Option.some.inj hs)
        intro a ha
        rcases List.mem_append.mp ha with ha | ha
        · cases n with
          | zero => cases ha
          | succ n => exact hticks n back (fun _ h => List.mem_append_right _ h) a ha
        · exact hticks n front (fun _ h => List.mem_append_left _ h) a ha }

variable {r : Process F} {asset : AssetConfig F} {front back : List (AssetConfig F)}

theorem foldl_ticks (r : Process F) (n : ℕ) (assets : List (AssetConfig F))
    (p : PriceSimulator F) : (r.ticks n assets).foldl WalkAction.act p =
      p.processTick (r.clock n) assets (r.generated n) := by
  unfold ticks PriceSimulator.processTick
  rw [List.foldl_map]
  rfl

/-- The rounds of a process are the ticks of any one of its assets, and the rest of the round. -/
theorem run_eq_drive (hassets : r.assets = front ++ asset :: back)
    (hapart : ∀ other ∈ front ++ back, other.symbol ≠ asset.symbol) (n : ℕ) :
    r.run (n + 1) = ((r.drive asset front back hapart).run (n + 1)).processTick (r.clock n) back
      (r.generated n) := by
  have hround : ∀ m p, p.processTick (r.clock m) r.assets (r.generated m) =
      (((r.ticks m front).foldl WalkAction.act p).getNextPrice (r.clock m) asset
        (r.generated m asset.symbol)).2.processTick (r.clock m) back (r.generated m) := by
    intro m p
    rw [foldl_ticks, hassets]
    unfold PriceSimulator.processTick
    rw [List.foldl_append, List.foldl_cons]
  induction n with
  | zero => exact hround 0 r.start
  | succ n ih =>
    rw [run, ih, hround (n + 1), ← foldl_ticks r n back, ← List.foldl_append]
    rfl

end Process
end OptionChainBackend
