import HookRelay.Lib.Lts

/-!
# Runs with a clock

A timed label says when its step is taken. The time of a step is no earlier than the one before it, which is the
only thing the clock adds: without its times, a timed run is a run.
-/

namespace Lts

variable {σ α τ : Type*} [LE τ] [DecidableLE τ]

/-- The system with a clock that does not go back. -/
def timed (step : σ → α → Option σ) (s : σ × τ) (a : τ × α) : Option (σ × τ) :=
  if s.2 ≤ a.1 then (step s.1 a.2).map (·, a.1) else none

variable {step : σ → α → Option σ} {s s' : σ × τ} {a : τ × α}

theorem timed_eq_some : timed step s a = some s' ↔ s.2 ≤ a.1 ∧ step s.1 a.2 = some s'.1 ∧ s'.2 = a.1 := by
  obtain ⟨t, now⟩ := s'
  simp only [timed, Option.ite_none_right_eq_some, Option.map_eq_some_iff, Prod.mk.injEq]
  constructor
  · rintro ⟨le, t', hs, rfl, rfl⟩
    exact ⟨le, hs, rfl⟩
  · rintro ⟨le, hs, rfl⟩
    exact ⟨le, t, hs, rfl, rfl⟩

theorem timed_step (h : timed step s a = some s') : step s.1 a.2 = some s'.1 := (timed_eq_some.1 h).2.1

end Lts
