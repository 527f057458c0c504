import RbMonitor.Lib.RunLog

/-!
This module contains sections of code that run under a lock: one that is run step by step, while
others wait, does what it does when it is run at once.
-/

/-- Under the lock of a memory `μ` a section has a state `κ` of its own, and takes as many steps as
its input says. -/
structure LockedSection (μ κ ι ω ε : Type) where
  enter : μ → ι → κ
  length : ι → Nat
  step : ι → μ × κ → Nat → Except ε ((μ × κ) × ω)

namespace LockedSection

inductive Event (ι : Type) where
  | enter (i : ι)
  | step
  | leave

def Event.entered {ι : Type} : Event ι → Option ι
  | .enter i => some i
  | _ => none

/-- The memory, all that was put out, and the section that is run. -/
@[ext]
structure State (μ κ ι ω : Type) where
  mem : μ
  out : List ω
  inside : Option (ι × κ × Nat)

variable {μ κ ι ω ε : Type} (c : LockedSection μ κ ι ω ε)

/-- The section at once. -/
def whole (m : μ) (i : ι) : Except ε (μ × List ω) :=
  match runLog (c.step i) (m, c.enter m i) (List.range (c.length i)) with
  | .error e => .error e
  | .ok ((m, _), os) => .ok (m, os)

/-- The next step. A section that fails takes none. -/
def advance (s : State μ κ ι ω) : Event ι → Option (State μ κ ι ω)
  | .enter i =>
    match s.inside with
    | none => some { s with inside := some (i, c.enter s.mem i, 0) }
    | some _ => none
  | .step =>
    match s.inside with
    | none => none
    | some (i, k, n) =>
      if n < c.length i then
        match c.step i (s.mem, k) n with
        | .error _ => none
        | .ok ((m, k), o) => some { mem := m, out := s.out ++ [o], inside := some (i, k, n + 1) }
      else
        none
  | .leave =>
    match s.inside with
    | none => none
    | some (i, _, n) => if n = c.length i then some { s with inside := none } else none

/-- What was done so far is what the sections with these inputs do at once, the last of them maybe
up to one of its steps. -/
inductive Serial (m₀ : μ) : State μ κ ι ω → List ι → Prop
  | outside {m : μ} {inputs : List ι} {logs : List (List ω)}
      (hwhole : runLog c.whole m₀ inputs = .ok (m, logs))
    : Serial m₀ { mem := m, out := logs.flatten, inside := none } inputs
  | inside {m m' : μ} {k : κ} {n : Nat} {i : ι} {inputs : List ι} {logs : List (List ω)}
      {os : List ω} (hwhole : runLog c.whole m₀ inputs = .ok (m, logs)) (hn : n ≤ c.length i)
      (hrun : runLog (c.step i) (m, c.enter m i) (List.range n) = .ok ((m', k), os))
    : Serial m₀ { mem := m', out := logs.flatten ++ os, inside := some (i, k, n) } (inputs ++ [i])

variable {c} {m₀ : μ} {s s' : State μ κ ι ω} {e : Event ι} {inputs : List ι}

theorem Serial.advance (h : c.Serial m₀ s inputs) (hstep : c.advance s e = some s')
    : c.Serial m₀ s' (inputs ++ e.entered.toList) := by
  cases e with
  | enter i =>
    cases h with
    | outside hwhole =>
      cases hstep
      have hinside := Serial.inside hwhole (Nat.zero_le (c.length i)) (runLog_nil _)
      simpa [Event.entered] using hinside
    | inside hwhole hn hrun => cases hstep
  | step =>
    cases h with
    | outside hwhole => cases hstep
    | @inside m m' k n i inputs logs os hwhole hn hrun =>
      simp only [LockedSection.advance] at hstep
      split at hstep
      . next hlt =>
        cases hnext : c.step i (m', k) n with
        | error e =>
          rw [hnext] at hstep
          cases hstep
        | ok res =>
          rcases res with ⟨⟨m₁, k₁⟩, o⟩
          rw [hnext] at hstep
          cases hstep
          have hrun' : runLog (c.step i) (m, c.enter m i) (List.range (n + 1))
              = .ok ((m₁, k₁), os ++ [o]) := by
            rw [List.range_succ, runLog_append_eq_ok]
            refine ⟨_, os, [o], hrun, ?_, rfl⟩
            rw [runLog_cons_eq_ok]
            exact ⟨_, o, [], hnext, runLog_nil _, rfl⟩
          have hinside := Serial.inside hwhole hlt hrun'
          simpa [Event.entered] using hinside
      . cases hstep
  | leave =>
    cases h with
    | outside hwhole => cases hstep
    | @inside m m' k n i inputs logs os hwhole hn hrun =>
      simp only [LockedSection.advance] at hstep
      split at hstep
      . next heq =>
        cases hstep
        subst heq
        have hlast : runLog c.whole m₀ (inputs ++ [i]) = .ok (m', logs ++ [os]) := by
          rw [runLog_append_eq_ok]
          refine ⟨m, logs, [os], hwhole, ?_, rfl⟩
          rw [runLog_cons_eq_ok]
          refine ⟨m', os, [], ?_, runLog_nil _, rfl⟩
          rw [whole, hrun]
        have houtside := Serial.outside hlast
        simpa [Event.entered] using houtside
      . cases hstep

theorem Serial.exists_of_inside {i : ι} {k : κ} {n : Nat} (h : c.Serial m₀ s inputs)
    (hinside : s.inside = some (i, k, n))
    : n ≤ c.length i ∧ ∃ m before logs os, runLog c.whole m₀ before = .ok (m, logs)
        ∧ runLog (c.step i) (m, c.enter m i) (List.range n) = .ok ((s.mem, k), os) := by
  cases h with
  | outside hwhole => cases hinside
  | inside hwhole hn hrun =>
    cases hinside
    exact ⟨hn, _, _, _, _, hwhole, hrun⟩

end LockedSection
