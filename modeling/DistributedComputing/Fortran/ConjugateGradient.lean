import DistributedComputing.Foundations.ArrayLoops
import DistributedComputing.Foundations.ConjugateDirections
import DistributedComputing.Fortran.NumericUtils

/-!
# Linear conjugate gradients

A model of `conjugate_gradient_linear`, over an ordered field in place of `real(wp)`. Its two
divisions are checked, so that the routine returns only if it never divides by zero. The comparison
of `sqrt(r_dot_r)` with the tolerance is written without a square root, as in `norm2Lt`.

The invariant of the loop (`CgInvariant`) joins what is known of the recurrence
(`ConjugateDirections.Conjugate`) with what the variables stand for: `r` is the residual of `x`,
`r_dot_r` its square, and **the iterations done are at most the dimension of the space of
directions**. A round that goes on finds `r_dot_r` positive, so neither divisor is zero, and it
makes that space larger.
-/

namespace DistributedComputing

open Matrix Module ArrayLoops ConjugateDirections

variable {K : Type} [Field K] [LinearOrder K] {n : ℕ}

/-- The part of `cg_config_t` that the linear method uses. -/
structure CgConfig (K : Type) [Field K] where
  tolerance : K := decimal 1 6
  maxIterations : ℤ := 10000

/-- The values of `message`. -/
inductive CgMessage
  | converged
  | maxIterations
  deriving DecidableEq, Repr

/-- The part of `cg_result_t` that the linear method sets, with the square of `gradient_norm`, and
`x`. -/
structure CgResult (K : Type) (n : ℕ) where
  x : Fin n → K
  gradientNormSq : K
  iterations : ℤ
  converged : Bool
  message : Option CgMessage

/-- The variables of the loop. -/
structure CgState (K : Type) (n : ℕ) where
  x : Fin n → K
  r : Fin n → K
  p : Fin n → K
  rDotR : K
  iterations : ℤ := 0
  converged : Bool := false
  message : Option CgMessage := none

/-- A round of the loop. -/
def cgRound (A : Matrix (Fin n) (Fin n) K) (tolerance : K) (iter : ℤ) (s : CgState K n) :
    Option (Except (CgState K n) (CgState K n)) :=
  if 0 < tolerance ∧ s.rDotR < tolerance ^ 2 then
    some (.error { s with converged := true, message := some .converged })
  else do
    let Ap := A *ᵥ s.p
    let alpha ← divide (· ≠ 0) s.rDotR (s.p ⬝ᵥ Ap)
    let rNew := s.r - alpha • Ap
    let rDotRNew := sumSquares rNew
    let beta ← divide (· ≠ 0) rDotRNew s.rDotR
    some (.ok { s with
      x := s.x + alpha • s.p
      r := rNew
      p := rNew + beta • s.p
      rDotR := rDotRNew
      iterations := iter })

/-- The variables before the loop. -/
def cgStart (A : Matrix (Fin n) (Fin n) K) (b x0 : Fin n → K) : CgState K n where
  x := x0
  r := b - A *ᵥ x0
  p := b - A *ᵥ x0
  rDotR := sumSquares (b - A *ᵥ x0)

/-- What is returned after the loop. -/
def CgState.result (s : CgState K n) : CgResult K n where
  x := s.x
  gradientNormSq := s.rDotR
  iterations := s.iterations
  converged := s.converged
  message := if s.converged then s.message else some .maxIterations

/-- `conjugate_gradient_linear` -/
def conjugateGradientLinear (A : Matrix (Fin n) (Fin n) K) (b x0 : Fin n → K)
    (config : CgConfig K) : Option (CgResult K n) := do
  let out ← doLoop 1 config.maxIterations (leaving (cgRound A config.tolerance))
    (.ok (cgStart A b x0))
  match out with
  | .ok s => some s.result
  | .error s => some s.result

/-- **Before the round `iter`.** -/
structure CgInvariant (A : Matrix (Fin n) (Fin n) K) (b : Fin n → K) (iter : ℤ)
    (s : CgState K n) : Prop where
  residual : s.r = b - A *ᵥ s.x
  rDotR : s.rDotR = s.r ⬝ᵥ s.r
  iterations : s.iterations = iter - 1
  conjugate : ∃ U : Submodule K (Fin n → K), Conjugate A U s.r s.p ∧ iter - 1 ≤ finrank K U

omit [LinearOrder K] in
theorem cgInvariant_start (A : Matrix (Fin n) (Fin n) K) (b x0 : Fin n → K) :
    CgInvariant A b 1 (cgStart A b x0) where
  residual := rfl
  rDotR := sumSquares_eq_dotProduct _
  iterations := rfl
  conjugate := ⟨⊥, Conjugate.start A _, by omega⟩

omit [LinearOrder K] in
/-- There is no room for more than `n` directions. -/
theorem CgInvariant.le {A : Matrix (Fin n) (Fin n) K} {b : Fin n → K} {iter : ℤ} {s : CgState K n}
    (h : CgInvariant A b iter s) : iter - 1 ≤ n := by
  obtain ⟨U, -, hU⟩ := h.conjugate
  have hle := U.finrank_le
  rw [finrank_fin_fun] at hle
  omega

variable [IsStrictOrderedRing K]

/-- What a run that the test has left returns. -/
def CgConverged (A : Matrix (Fin n) (Fin n) K) (b : Fin n → K) (tolerance : K) (s : CgState K n) :
    Prop :=
  s.converged = true ∧ s.iterations ≤ n ∧ sumSquares (b - A *ᵥ s.x) < tolerance ^ 2

/-- **A round** does not divide by zero, and leaves the loop with a solution or keeps the
invariant. -/
theorem CgInvariant.round {A : Matrix (Fin n) (Fin n) K} {b : Fin n → K} {tolerance : K}
    (hsymm : A.IsSymm) (hpos : ∀ v, v ≠ 0 → 0 < v ⬝ᵥ (A *ᵥ v)) (htol : 0 < tolerance) {iter : ℤ}
    {s : CgState K n} (h : CgInvariant A b iter s) :
    Returns (cgRound A tolerance iter s)
      (Outcome (CgConverged A b tolerance) (CgInvariant A b (iter + 1))) := by
  obtain ⟨U, hU, hrank⟩ := h.conjugate
  rw [cgRound]
  split
  · next htest =>
    refine returns_some ⟨rfl, h.iterations.trans_le h.le, ?_⟩
    rw [← h.residual, sumSquares_eq_dotProduct, ← h.rDotR]
    exact htest.2
  next htest =>
  have hrr : 0 < s.rDotR :=
    (pow_pos htol 2).trans_le (not_lt.1 fun hlt => htest ⟨htol, hlt⟩)
  have hr : s.r ⬝ᵥ s.r ≠ 0 := h.rDotR ▸ hrr.ne'
  have hp : s.p ⬝ᵥ (A *ᵥ s.p) ≠ 0 := (hpos s.p (hU.direction_ne_zero hr)).ne'
  refine returns_divide hp (returns_divide hrr.ne' (returns_some ?_))
  refine ⟨?_, sumSquares_eq_dotProduct _, by show iter = _; omega, U ⊔ Submodule.span K {s.p},
    ?_, ?_⟩
  · show s.r - _ • (A *ᵥ s.p) = b - A *ᵥ (s.x + _ • s.p)
    rw [h.residual, mulVec_add, mulVec_smul, sub_sub]
  · exact hU.step hsymm hr hp (by rw [h.rDotR]) rfl (by rw [sumSquares_eq_dotProduct, h.rDotR])
  · have hlt := hU.finrank_lt hr
    omega

/-- **`conjugate_gradient_linear` solves a system with a symmetric positive definite matrix**: it
never divides by zero, and with room for one round more than there are unknowns it converges in at
most as many iterations as there are unknowns. -/
theorem conjugateGradientLinear_converges {A : Matrix (Fin n) (Fin n) K} (hsymm : A.IsSymm)
    (hpos : ∀ v, v ≠ 0 → 0 < v ⬝ᵥ (A *ᵥ v)) (b x0 : Fin n → K) {config : CgConfig K}
    (htol : 0 < config.tolerance) (hmax : n + 1 ≤ config.maxIterations) :
    Returns (conjugateGradientLinear A b x0 config) fun result =>
      result.converged = true ∧ result.iterations ≤ n ∧
        sumSquares (b - A *ᵥ result.x) < config.tolerance ^ 2 := by
  have hloop : Returns (doLoop 1 config.maxIterations (leaving (cgRound A config.tolerance))
      (.ok (cgStart A b x0))) (Outcome (CgConverged A b config.tolerance)
        (CgInvariant A b (config.maxIterations + 1))) :=
    returns_doLoop_leaving _ _ (by omega) (cgInvariant_start A b x0)
      fun iter s _ _ h => h.round hsymm hpos htol
  refine hloop.bind fun out hout => ?_
  rcases out with s | s
  · exact returns_some hout
  · -- all rounds would have added a direction each
    have hle := CgInvariant.le hout
    omega

/-- A system with two unknowns. -/
def cgMatrix : Matrix (Fin 2) (Fin 2) ℚ := !![2, 1; 1, 2]

theorem cgMatrix_pos (v : Fin 2 → ℚ) (hv : v ≠ 0) : 0 < v ⬝ᵥ (cgMatrix *ᵥ v) := by
  have hsquares : v ⬝ᵥ (cgMatrix *ᵥ v) = v ⬝ᵥ v + (v 0 + v 1) ^ 2 := by
    simp only [cgMatrix, mulVec, dotProduct, Fin.sum_univ_two, of_apply, cons_val_zero,
      cons_val_one]
    ring
  have hnonneg : 0 ≤ v ⬝ᵥ v := Finset.sum_nonneg fun i _ => mul_self_nonneg (v i)
  have hne : v ⬝ᵥ v ≠ 0 := mt dotProduct_self_eq_zero.1 hv
  rw [hsquares]
  exact add_pos_of_pos_of_nonneg (hnonneg.lt_of_ne' hne) (sq_nonneg _)

/-- From the origin both iterations are needed. -/
theorem conjugateGradientLinear_converges_two :
    (conjugateGradientLinear cgMatrix ![1, 0] 0 ⟨decimal 1 6, 3⟩).map (·.iterations) = some 2 ∧
      Returns (conjugateGradientLinear cgMatrix ![1, 0] 0 ⟨decimal 1 6, 3⟩) fun result =>
        result.converged = true ∧ result.iterations ≤ 2 ∧
          sumSquares (![1, 0] - cgMatrix *ᵥ result.x) < decimal 1 6 ^ 2 :=
  ⟨by with_unfolding_all decide,
    conjugateGradientLinear_converges (by decide) cgMatrix_pos ![1, 0] 0 (decimal_pos one_pos 6)
      le_rfl⟩

end DistributedComputing
