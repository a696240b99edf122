import Mathlib.LinearAlgebra.FiniteDimensional.Lemmas
import Mathlib.LinearAlgebra.Matrix.DotProduct
import Mathlib.LinearAlgebra.Matrix.Symmetric
import Mathlib.Tactic.LinearCombination

/-!
# Residuals and conjugate directions

The recurrence of the method of conjugate gradients for a symmetric matrix `A`, apart from any
program. A step takes the residual `r` and the direction `p` to

```
r' = r - (r ⬝ᵥ r / p ⬝ᵥ A p) • A p
p' = r' + (r' ⬝ᵥ r' / r ⬝ᵥ r) • p
```

The textbook argument keeps all earlier residuals and directions, and proves orthogonality of the
ones and conjugacy of the others together. Only their **span** matters, though: `Conjugate A U r p`
says how the current residual and direction lie to the subspace `U` of the directions before them,
and a step takes it from `U` to `U` and `p` together (`Conjugate.step`). A residual that is not zero
makes `U` larger (`Conjugate.finrank_lt`), so there are no more such steps than dimensions.
-/

namespace ConjugateDirections

open Matrix Module

variable {K ι : Type} [Field K] [Fintype ι] {A : Matrix ι ι K} {U : Submodule K (ι → K)}
  {r p : ι → K}

theorem mulVec_dotProduct_comm (hA : A.IsSymm) (v w : ι → K) : (A *ᵥ v) ⬝ᵥ w = v ⬝ᵥ (A *ᵥ w) := by
  rw [dotProduct_mulVec, ← mulVec_transpose, hA.eq]

/-- **How a residual and a direction lie to the directions before them.** -/
structure Conjugate (A : Matrix ι ι K) (U : Submodule K (ι → K)) (r p : ι → K) : Prop where
  residual : ∀ u ∈ U, r ⬝ᵥ u = 0
  direction : ∀ u ∈ U, p ⬝ᵥ (A *ᵥ u) = 0
  sub_mem : p - r ∈ U
  image : ∀ u ∈ U, ∃ c : K, A *ᵥ u - c • r ∈ U

namespace Conjugate

/-- At the start there are no directions, and the first one is the residual. -/
theorem start (A : Matrix ι ι K) (r : ι → K) : Conjugate A ⊥ r r where
  residual u hu := by rw [(Submodule.mem_bot K).1 hu, dotProduct_zero]
  direction u hu := by rw [(Submodule.mem_bot K).1 hu, mulVec_zero, dotProduct_zero]
  sub_mem := by
    rw [sub_self]
    exact Submodule.zero_mem _
  image u hu := ⟨0, by
    rw [(Submodule.mem_bot K).1 hu, mulVec_zero, zero_smul, sub_zero]
    exact Submodule.zero_mem _⟩

omit [Fintype ι] in
theorem direction_mem (U : Submodule K (ι → K)) (p : ι → K) : p ∈ U ⊔ Submodule.span K {p} :=
  Submodule.mem_sup_right (Submodule.mem_span_singleton_self p)

omit [Fintype ι] in
theorem exists_of_mem_sup {u : ι → K} (hu : u ∈ U ⊔ Submodule.span K {p}) :
    ∃ u₀ ∈ U, ∃ c : K, u = u₀ + c • p := by
  obtain ⟨u₀, hu₀, q, hq, rfl⟩ := Submodule.mem_sup.1 hu
  obtain ⟨c, rfl⟩ := Submodule.mem_span_singleton.1 hq
  exact ⟨u₀, hu₀, c, rfl⟩

variable (h : Conjugate A U r p)
include h

theorem dot_direction : r ⬝ᵥ p = r ⬝ᵥ r := by
  have hsub := h.residual _ h.sub_mem
  rw [dotProduct_sub] at hsub
  exact sub_eq_zero.1 hsub

theorem direction_ne_zero (hr : r ⬝ᵥ r ≠ 0) : p ≠ 0 := by
  intro hp
  have hdot := h.dot_direction
  rw [hp, dotProduct_zero] at hdot
  exact hr hdot.symm

theorem direction_notMem (hr : r ⬝ᵥ r ≠ 0) : p ∉ U := by
  intro hp
  rw [← h.dot_direction] at hr
  exact hr (h.residual p hp)

theorem residual_mem : r ∈ U ⊔ Submodule.span K {p} := by
  rw [← sub_sub_cancel p r]
  exact Submodule.sub_mem _ (direction_mem U p) (Submodule.mem_sup_left h.sub_mem)

section Step

variable {alpha beta : K} {r' : ι → K} (hA : A.IsSymm) (halpha_ne : alpha ≠ 0)
  (halpha : alpha * (p ⬝ᵥ (A *ᵥ p)) = r ⬝ᵥ r) (hr' : r' = r - alpha • (A *ᵥ p))

omit h in
include halpha_ne hr' in
/-- What `A` does to the direction is known from the residuals. -/
theorem mulVec_direction : A *ᵥ p = alpha⁻¹ • (r - r') := by
  rw [hr', sub_sub_cancel, smul_smul, inv_mul_cancel₀ halpha_ne, one_smul]

include hA halpha hr' in
theorem step_residual {u : ι → K} (hu : u ∈ U ⊔ Submodule.span K {p}) : r' ⬝ᵥ u = 0 := by
  obtain ⟨u₀, hu₀, c, rfl⟩ := exists_of_mem_sup hu
  have hold : r' ⬝ᵥ u₀ = 0 := by
    rw [hr', sub_dotProduct, smul_dotProduct, mulVec_dotProduct_comm hA, h.residual u₀ hu₀,
      h.direction u₀ hu₀, smul_zero, sub_zero]
  have hnew : r' ⬝ᵥ p = 0 := by
    rw [hr', sub_dotProduct, smul_dotProduct, mulVec_dotProduct_comm hA, h.dot_direction,
      smul_eq_mul, halpha, sub_self]
  rw [dotProduct_add, dotProduct_smul, hold, hnew, smul_zero, add_zero]

include hA halpha_ne halpha hr' in
theorem step_direction (hbeta : beta * (r ⬝ᵥ r) = r' ⬝ᵥ r') {u : ι → K}
    (hu : u ∈ U ⊔ Submodule.span K {p}) : (r' + beta • p) ⬝ᵥ (A *ᵥ u) = 0 := by
  obtain ⟨u₀, hu₀, c, rfl⟩ := exists_of_mem_sup hu
  have hrr' : r' ⬝ᵥ r = 0 := h.step_residual hA halpha hr' h.residual_mem
  have hold : (r' + beta • p) ⬝ᵥ (A *ᵥ u₀) = 0 := by
    obtain ⟨c₀, hc₀⟩ := h.image u₀ hu₀
    have himage := h.step_residual hA halpha hr' (Submodule.mem_sup_left hc₀)
    rw [dotProduct_sub, dotProduct_smul, hrr', smul_zero, sub_zero] at himage
    rw [add_dotProduct, smul_dotProduct, himage, h.direction u₀ hu₀, smul_zero, add_zero]
  have hnew : (r' + beta • p) ⬝ᵥ (A *ᵥ p) = 0 := by
    have hfirst : alpha * (r' ⬝ᵥ (A *ᵥ p)) = -(r' ⬝ᵥ r') := by
      rw [mulVec_direction halpha_ne hr', dotProduct_smul, dotProduct_sub, hrr', zero_sub,
        smul_eq_mul, mul_inv_cancel_left₀ halpha_ne]
    have hsum : alpha * ((r' + beta • p) ⬝ᵥ (A *ᵥ p)) = 0 := by
      rw [add_dotProduct, smul_dotProduct, smul_eq_mul]
      linear_combination hfirst + beta * halpha + hbeta
    exact (mul_eq_zero_iff_left halpha_ne).1 hsum
  rw [mulVec_add, mulVec_smul, dotProduct_add, dotProduct_smul, hold, hnew, smul_zero, add_zero]

include halpha_ne hr' in
theorem step_image {u : ι → K} (hu : u ∈ U ⊔ Submodule.span K {p}) :
    ∃ c : K, A *ᵥ u - c • r' ∈ U ⊔ Submodule.span K {p} := by
  obtain ⟨u₀, hu₀, c, rfl⟩ := exists_of_mem_sup hu
  obtain ⟨c₀, hc₀⟩ := h.image u₀ hu₀
  refine ⟨-(c * alpha⁻¹), ?_⟩
  have hsplit : A *ᵥ (u₀ + c • p) - -(c * alpha⁻¹) • r' =
      (A *ᵥ u₀ - c₀ • r) + (c₀ + c * alpha⁻¹) • r := by
    rw [mulVec_add, mulVec_smul, mulVec_direction halpha_ne hr']
    module
  rw [hsplit]
  exact Submodule.add_mem _ (Submodule.mem_sup_left hc₀) (Submodule.smul_mem _ _ h.residual_mem)

end Step

/-- **A step** adds the direction to those before it. -/
theorem step (hA : A.IsSymm) (hr : r ⬝ᵥ r ≠ 0) (hp : p ⬝ᵥ (A *ᵥ p) ≠ 0) {alpha beta : K}
    {r' : ι → K} (halpha : alpha = r ⬝ᵥ r / p ⬝ᵥ (A *ᵥ p)) (hr' : r' = r - alpha • (A *ᵥ p))
    (hbeta : beta = r' ⬝ᵥ r' / r ⬝ᵥ r) :
    Conjugate A (U ⊔ Submodule.span K {p}) r' (r' + beta • p) := by
  have halpha_ne : alpha ≠ 0 := by
    rw [halpha]
    exact div_ne_zero hr hp
  have halpha_mul : alpha * (p ⬝ᵥ (A *ᵥ p)) = r ⬝ᵥ r := by rw [halpha, div_mul_cancel₀ _ hp]
  have hbeta_mul : beta * (r ⬝ᵥ r) = r' ⬝ᵥ r' := by rw [hbeta, div_mul_cancel₀ _ hr]
  refine ⟨fun u hu => h.step_residual hA halpha_mul hr' hu,
    fun u hu => h.step_direction hA halpha_ne halpha_mul hr' hbeta_mul hu, ?_,
    fun u hu => h.step_image halpha_ne hr' hu⟩
  rw [add_sub_cancel_left]
  exact Submodule.smul_mem _ _ (direction_mem U p)

/-- A residual that is not zero makes the space of directions larger. -/
theorem finrank_lt (hr : r ⬝ᵥ r ≠ 0) :
    finrank K U < finrank K (U ⊔ Submodule.span K {p} : Submodule K (ι → K)) := by
  refine Submodule.finrank_lt_finrank_of_lt (lt_of_le_of_ne le_sup_left fun heq => ?_)
  refine h.direction_notMem hr ?_
  rw [heq]
  exact direction_mem U p

end Conjugate

end ConjugateDirections
