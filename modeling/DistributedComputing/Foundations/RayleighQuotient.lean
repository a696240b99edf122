import Mathlib.Analysis.Matrix.PosDef
import DistributedComputing.Foundations.ConjugateDirections
import DistributedComputing.Foundations.SecantUpdates

/-!
# Rayleigh quotients

The quotient `(v ⬝ᵥ A v) / (v ⬝ᵥ v)` of a symmetric matrix along the vectors `v`, `A v`, …

For a positive definite matrix it does not decrease (`quotient_le_quotient_mulVec`). The inequality
of Cauchy and Schwarz bounds the square of each of the moments `v ⬝ᵥ A v` and `v ⬝ᵥ A² v` by the
product of its neighbours. Where nothing is gained, the first of these is an equality, and `v` is an
eigenvector (`mulVec_eq_of_quotient_eq`).

Over the real numbers the quotient is at most the largest eigenvalue (`dot_mulVec_le`).
-/

namespace RayleighQuotient

open Matrix ConjugateDirections
open SecantUpdates (dot_self_nonneg dot_self_pos)

section Field

variable {K ι : Type} [Field K] [Fintype ι] {A : Matrix ι ι K} {v w : ι → K}

/-- The Rayleigh quotient. -/
def quotient (A : Matrix ι ι K) (v : ι → K) : K := (v ⬝ᵥ (A *ᵥ v)) / (v ⬝ᵥ v)

theorem quotient_of_unit (A : Matrix ι ι K) (hv : v ⬝ᵥ v = 1) :
    quotient A v = v ⬝ᵥ (A *ᵥ v) := by
  rw [quotient, hv, div_one]

theorem quotient_smul (A : Matrix ι ι K) {c : K} (hc : c ≠ 0) (v : ι → K) :
    quotient A (c • v) = quotient A v := by
  rw [quotient, mulVec_smul, smul_dotProduct, dotProduct_smul, smul_dotProduct, dotProduct_smul]
  simp only [smul_eq_mul]
  rw [mul_div_mul_left _ _ hc, mul_div_mul_left _ _ hc, quotient]

end Field

section Ordered

variable {K ι : Type} [Field K] [LinearOrder K] [IsStrictOrderedRing K] [Fintype ι]
  {A : Matrix ι ι K} {v w : ι → K}

/-- **The inequality of Cauchy and Schwarz** for the form of a symmetric matrix. -/
theorem sq_dot_mulVec_le (hA : A.IsSymm) (hpos : ∀ v, 0 ≤ v ⬝ᵥ (A *ᵥ v)) (v w : ι → K) :
    (v ⬝ᵥ (A *ᵥ w)) ^ 2 ≤ (v ⬝ᵥ (A *ᵥ v)) * (w ⬝ᵥ (A *ᵥ w)) := by
  classical
  have hform : ∀ x, 0 ≤ toBilin' A x x := fun x => by
    rw [toBilin'_apply']
    exact hpos x
  have hle := LinearMap.BilinForm.apply_mul_apply_le_of_forall_zero_le (toBilin' A) hform v w
  simp only [toBilin'_apply'] at hle
  rwa [dotProduct_comm w, mulVec_dotProduct_comm hA, ← sq] at hle

theorem sq_dot_le (v w : ι → K) : (v ⬝ᵥ w) ^ 2 ≤ (v ⬝ᵥ v) * (w ⬝ᵥ w) := by
  classical
  have hle := sq_dot_mulVec_le isSymm_one (fun v => ?_) v w
  · simpa only [one_mulVec] using hle
  · rw [one_mulVec]
    exact dot_self_nonneg v

section PositiveDefinite

variable (hA : A.IsSymm) (hpos : ∀ v, v ≠ 0 → 0 < v ⬝ᵥ (A *ᵥ v)) (hv : v ≠ 0)

omit [IsStrictOrderedRing K] in
include hpos in
theorem nonneg_of_pos (v : ι → K) : 0 ≤ v ⬝ᵥ (A *ᵥ v) := by
  rcases eq_or_ne v 0 with rfl | hv
  · rw [zero_dotProduct]
  · exact (hpos v hv).le

omit [IsStrictOrderedRing K] in
include hpos hv in
theorem mulVec_ne_zero : A *ᵥ v ≠ 0 := by
  intro hzero
  have h := hpos v hv
  rw [hzero, dotProduct_zero] at h
  exact h.false

include hA hpos in
theorem moments_le (v : ι → K) :
    (v ⬝ᵥ (A *ᵥ v)) ^ 2 ≤ (v ⬝ᵥ v) * ((A *ᵥ v) ⬝ᵥ (A *ᵥ v)) ∧
      ((A *ᵥ v) ⬝ᵥ (A *ᵥ v)) ^ 2 ≤ (v ⬝ᵥ (A *ᵥ v)) * ((A *ᵥ v) ⬝ᵥ (A *ᵥ (A *ᵥ v))) := by
  refine ⟨sq_dot_le v (A *ᵥ v), ?_⟩
  have hle := sq_dot_mulVec_le hA (nonneg_of_pos hpos) v (A *ᵥ v)
  rwa [← mulVec_dotProduct_comm hA v] at hle

include hA hpos hv

/-- **The quotient does not decrease.** -/
theorem quotient_le_quotient_mulVec : quotient A v ≤ quotient A (A *ᵥ v) := by
  obtain ⟨hfirst, hsecond⟩ := moments_le hA hpos v
  have h0 : 0 < v ⬝ᵥ v := dot_self_pos hv
  have h1 := hpos v hv
  have h2 : 0 < (A *ᵥ v) ⬝ᵥ (A *ᵥ v) := dot_self_pos (mulVec_ne_zero hpos hv)
  rw [quotient, quotient, div_le_div_iff₀ h0 h2, mul_comm _ (v ⬝ᵥ v)]
  refine le_of_mul_le_mul_left ?_ (mul_pos h1 h2)
  calc (v ⬝ᵥ (A *ᵥ v)) * ((A *ᵥ v) ⬝ᵥ (A *ᵥ v)) * ((v ⬝ᵥ (A *ᵥ v)) * ((A *ᵥ v) ⬝ᵥ (A *ᵥ v)))
      = (v ⬝ᵥ (A *ᵥ v)) ^ 2 * ((A *ᵥ v) ⬝ᵥ (A *ᵥ v)) ^ 2 := by ring
    _ ≤ (v ⬝ᵥ v) * ((A *ᵥ v) ⬝ᵥ (A *ᵥ v)) *
          ((v ⬝ᵥ (A *ᵥ v)) * ((A *ᵥ v) ⬝ᵥ (A *ᵥ (A *ᵥ v)))) :=
        mul_le_mul hfirst hsecond (sq_nonneg _) (mul_nonneg h0.le h2.le)
    _ = (v ⬝ᵥ (A *ᵥ v)) * ((A *ᵥ v) ⬝ᵥ (A *ᵥ v)) *
          ((v ⬝ᵥ v) * ((A *ᵥ v) ⬝ᵥ (A *ᵥ (A *ᵥ v)))) := by ring

/-- **Where nothing is gained**, the vector is an eigenvector. -/
theorem mulVec_eq_of_quotient_eq (h : quotient A (A *ᵥ v) = quotient A v) :
    A *ᵥ v = quotient A v • v := by
  obtain ⟨hfirst, hsecond⟩ := moments_le hA hpos v
  have h0 : 0 < v ⬝ᵥ v := dot_self_pos hv
  have h2 : 0 < (A *ᵥ v) ⬝ᵥ (A *ᵥ v) := dot_self_pos (mulVec_ne_zero hpos hv)
  have hdot : v ⬝ᵥ (A *ᵥ v) = quotient A v * (v ⬝ᵥ v) := by
    rw [quotient, div_mul_cancel₀ _ h0.ne']
  have hlast : (A *ᵥ v) ⬝ᵥ (A *ᵥ (A *ᵥ v)) = quotient A v * ((A *ᵥ v) ⬝ᵥ (A *ᵥ v)) := by
    rw [← h, quotient, div_mul_cancel₀ _ h2.ne']
  -- The second moment is at most what the inequality for the first one says, so both are equal.
  have hle : (A *ᵥ v) ⬝ᵥ (A *ᵥ v) ≤ quotient A v * (v ⬝ᵥ (A *ᵥ v)) := by
    rw [hlast, sq] at hsecond
    refine le_of_mul_le_mul_right (hsecond.trans_eq ?_) h2
    ring
  have hzero : (A *ᵥ v - quotient A v • v) ⬝ᵥ (A *ᵥ v - quotient A v • v) = 0 := by
    refine le_antisymm ?_ (dot_self_nonneg _)
    simp only [sub_dotProduct, dotProduct_sub, smul_dotProduct, dotProduct_smul, smul_eq_mul]
    rw [dotProduct_comm (A *ᵥ v) v, hdot]
    rw [hdot] at hle
    linarith
  exact sub_eq_zero.1 (dotProduct_self_eq_zero.1 hzero)

end PositiveDefinite

end Ordered

/-! ### The largest eigenvalue -/

section Real

variable {ι : Type} {A : Matrix ι ι ℝ}

theorem isHermitian_of_isSymm (hA : A.IsSymm) : A.IsHermitian := by
  rw [IsHermitian, conjTranspose_eq_transpose_of_trivial, hA.eq]

variable [Fintype ι] [DecidableEq ι]

theorem exists_isGreatest_spectrum [Nonempty ι] (hA : A.IsSymm) :
    ∃ μ, IsGreatest (spectrum ℝ A) μ := by
  rw [(isHermitian_of_isSymm hA).spectrum_real_eq_range_eigenvalues]
  obtain ⟨i, hi⟩ := Finite.exists_max (isHermitian_of_isSymm hA).eigenvalues
  refine ⟨_, ⟨i, rfl⟩, ?_⟩
  rintro _ ⟨j, rfl⟩
  exact hi j

/-- **The form is bounded by the largest eigenvalue.** -/
theorem dot_mulVec_le (hA : A.IsSymm) {μ : ℝ} (hμ : ∀ x ∈ spectrum ℝ A, x ≤ μ) (v : ι → ℝ) :
    v ⬝ᵥ (A *ᵥ v) ≤ μ * (v ⬝ᵥ v) := by
  have hscalar : (algebraMap ℝ (Matrix ι ι ℝ) μ).IsHermitian :=
    isHermitian_of_isSymm (by rw [algebraMap_eq_diagonal]; exact isSymm_diagonal _)
  have hherm := hscalar.sub (isHermitian_of_isSymm hA)
  have hpos : (algebraMap ℝ (Matrix ι ι ℝ) μ - A).PosSemidef := by
    rw [hherm.posSemidef_iff_eigenvalues_nonneg]
    intro i
    have hmem := hherm.eigenvalues_mem_spectrum_real i
    rw [← spectrum.singleton_sub_eq, Set.singleton_sub] at hmem
    obtain ⟨x, hx, hxi⟩ := hmem
    exact (sub_nonneg.2 (hμ x hx)).trans_eq hxi
  have h := hpos.dotProduct_mulVec_nonneg v
  rw [star_trivial, sub_mulVec, dotProduct_sub, sub_nonneg] at h
  refine h.trans_eq ?_
  rw [Algebra.algebraMap_eq_smul_one, smul_mulVec, one_mulVec, dotProduct_smul, smul_eq_mul]

end Real

end RayleighQuotient
