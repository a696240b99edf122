import Mathlib.Analysis.Fourier.ZMod

/-!
# The discrete Fourier transform of real functions

Arrays of complex numbers with the indices `1, …, n` as functions on `ZMod n`, where Mathlib has the
transform and its inverse: the index `i` is the element `cell n i`, and `ofCells` reads off the
function (`ofCells_cell`). `dft_ofCells` and `invDFT_ofCells` are the transforms as sums over the
indices, and `stdAddChar_cell_mul` has the cosines and sines of their terms.

The transform of a real function is conjugate to itself at the opposite frequency
(`conj_dft_ofReal`). Its real part is therefore the transform of the even part of the function
(`re_dft_ofReal`). In the same way, a multiplier of the transform acts by its even part if only the
real part of the inverse transform is kept (`dft_re_invDFT_mul`).
-/

namespace RealTransform

open ZMod (dft stdAddChar)

open scoped ComplexConjugate

variable {n : ℕ} [NeZero n]

/-! ### Cells -/

section Cells

variable {α : Type} {i : ℤ}

/-- The element for the index `i`. -/
def cell (n : ℕ) (i : ℤ) : ZMod n := ((i - 1 : ℤ) : ZMod n)

/-- The function with the values of `f` at the indices `1, …, n`. -/
def ofCells (n : ℕ) (f : ℤ → α) (z : ZMod n) : α := f (z.val + 1)

/-- The index opposite to `i`. -/
def opposite (n i : ℤ) : ℤ := if i = 1 then 1 else n + 2 - i

theorem cell_val_add_one (z : ZMod n) : cell n (z.val + 1) = z := by
  rw [cell, add_sub_cancel_right, Int.cast_natCast, ZMod.natCast_zmod_val]

theorem val_cell (h1 : 1 ≤ i) (hi : i ≤ n) : ((cell n i).val : ℤ) = i - 1 := by
  rw [cell, ZMod.val_intCast, Int.emod_eq_of_lt (by omega) (by omega)]

theorem ofCells_cell (f : ℤ → α) (h1 : 1 ≤ i) (hi : i ≤ n) : ofCells n f (cell n i) = f i := by
  rw [ofCells, val_cell h1 hi, sub_add_cancel]

/-- A function whose values are tabulated at the indices. -/
theorem ofCells_eq {f : ℤ → α} {g : ZMod n → α}
    (h : ∀ i : ℤ, 1 ≤ i → i ≤ n → f i = g (cell n i)) : ofCells n f = g := by
  funext z
  have hlt := ZMod.val_lt z
  rw [ofCells, h _ (by omega) (by omega), cell_val_add_one]

theorem ofCells_congr {f g : ℤ → α} (h : ∀ i : ℤ, 1 ≤ i → i ≤ n → f i = g i) :
    ofCells n f = ofCells n g :=
  ofCells_eq fun i h1 hi => (h i h1 hi).trans (ofCells_cell g h1 hi).symm

omit [NeZero n] in
theorem neg_cell (n : ℕ) (i : ℤ) : -cell n i = cell n (opposite n i) := by
  rw [opposite]
  split
  case isTrue h => rw [h, cell, sub_self, Int.cast_zero, neg_zero]
  case isFalse h =>
    rw [cell, cell, ← Int.cast_neg, ZMod.intCast_eq_intCast_iff_dvd_sub]
    exact ⟨1, by ring⟩

omit [NeZero n] in
theorem opposite_mem (h1 : 1 ≤ i) (hi : i ≤ n) : 1 ≤ opposite n i ∧ opposite n i ≤ n := by
  rw [opposite]
  split <;> omega

theorem sum_eq_sum_cells {M : Type} [AddCommMonoid M] (f : ZMod n → M) :
    ∑ z, f z = ∑ i ∈ Finset.Icc 1 (n : ℤ), f (cell n i) := by
  refine Finset.sum_nbij' (fun z => (z.val + 1 : ℤ)) (cell n) ?_ ?_ ?_ ?_ ?_
  · intro z _
    have hlt := ZMod.val_lt z
    exact Finset.mem_Icc.2 ⟨by omega, by omega⟩
  · exact fun i _ => Finset.mem_univ _
  · exact fun z _ => cell_val_add_one z
  · intro i hi
    obtain ⟨h1, hi⟩ := Finset.mem_Icc.1 hi
    rw [val_cell h1 hi, sub_add_cancel]
  · exact fun z _ => (congrArg f (cell_val_add_one z)).symm

end Cells

/-! ### The transforms as sums -/

section Sums

/-- The values of the character are points of the unit circle. -/
theorem stdAddChar_intCast (d : ℤ) :
    stdAddChar (d : ZMod n) =
      ⟨Real.cos (2 * Real.pi * d / n), Real.sin (2 * Real.pi * d / n)⟩ := by
  have hangle : 2 * (Real.pi : ℂ) * Complex.I * d / n =
      ((2 * Real.pi * d / n : ℝ) : ℂ) * Complex.I := by
    push_cast
    ring
  rw [ZMod.stdAddChar_coe, hangle, Complex.exp_mul_I, ← Complex.ofReal_cos, ← Complex.ofReal_sin]
  exact (Complex.mk_eq_add_mul_I _ _).symm

theorem stdAddChar_cell_mul (k j : ℤ) :
    stdAddChar (cell n k * cell n j) =
      ⟨Real.cos (2 * Real.pi * ((k - 1) * (j - 1) : ℤ) / n),
        Real.sin (2 * Real.pi * ((k - 1) * (j - 1) : ℤ) / n)⟩ := by
  rw [cell, cell, ← Int.cast_mul, stdAddChar_intCast]

theorem dft_ofCells (f : ℤ → ℂ) (k : ℤ) :
    dft (ofCells n f) (cell n k) =
      ∑ j ∈ Finset.Icc 1 (n : ℤ), f j * conj (stdAddChar (cell n k * cell n j)) := by
  rw [ZMod.dft_apply, sum_eq_sum_cells]
  refine Finset.sum_congr rfl fun j hj => ?_
  obtain ⟨h1, hj⟩ := Finset.mem_Icc.1 hj
  rw [ofCells_cell f h1 hj, ← AddChar.map_neg_eq_conj, smul_eq_mul, mul_comm, mul_comm (cell n j)]

theorem invDFT_ofCells (f : ℤ → ℂ) (j : ℤ) :
    dft.symm (ofCells n f) (cell n j) =
      (∑ k ∈ Finset.Icc 1 (n : ℤ), f k * stdAddChar (cell n k * cell n j)) / n := by
  rw [ZMod.invDFT_apply, sum_eq_sum_cells, smul_eq_mul, mul_comm, div_eq_mul_inv]
  refine congrArg (· * _) (Finset.sum_congr rfl fun k hk => ?_)
  obtain ⟨h1, hk⟩ := Finset.mem_Icc.1 hk
  rw [ofCells_cell f h1 hk, smul_eq_mul, mul_comm]

end Sums

/-! ### Real functions -/

section Real

variable (φ : ZMod n → ℝ)

theorem dft_conj (Φ : ZMod n → ℂ) (k : ZMod n) :
    dft (fun z => conj (Φ z)) k = conj (dft Φ (-k)) := by
  simp only [ZMod.dft_apply, map_sum, smul_eq_mul, map_mul, ← AddChar.map_neg_eq_conj, mul_neg,
    neg_neg]

/-- **Conjugate symmetry** -/
theorem conj_dft_ofReal (k : ZMod n) :
    conj (dft (fun z => (φ z : ℂ)) k) = dft (fun z => (φ z : ℂ)) (-k) := by
  have hconj := dft_conj (fun z => (φ z : ℂ)) (-k)
  simp only [Complex.conj_ofReal, neg_neg] at hconj
  exact hconj.symm

/-- The even part of a function. -/
noncomputable def evenPart (z : ZMod n) : ℝ := (φ z + φ (-z)) / (2 : ℕ)

/-- **The real part of the transform** is the transform of the even part. -/
theorem re_dft_ofReal (k : ZMod n) :
    ((dft (fun z => (φ z : ℂ)) k).re : ℂ) = dft (fun z => (evenPart φ z : ℂ)) k := by
  set Φ : ZMod n → ℂ := fun z => (φ z : ℂ)
  have heven : (fun z => (evenPart φ z : ℂ)) = (2 : ℂ)⁻¹ • (Φ + fun z => Φ (-z)) := by
    funext z
    rw [evenPart]
    push_cast
    exact div_eq_inv_mul _ _
  rw [heven, map_smul, map_add, ZMod.dft_comp_neg, Complex.re_eq_add_conj, conj_dft_ofReal]
  exact div_eq_inv_mul _ _

/-- **A real multiplier**, if only the real part of the inverse transform is kept, acts on the
transform by its even part. -/
theorem dft_re_invDFT_mul (m : ZMod n → ℝ) (k : ZMod n) :
    dft (fun z => ((dft.symm (fun l => (m l : ℂ) * dft (fun z => (φ z : ℂ)) l) z).re : ℂ)) k =
      evenPart m k * dft (fun z => (φ z : ℂ)) k := by
  set Φ : ZMod n → ℂ := fun z => (φ z : ℂ)
  set Ψ : ZMod n → ℂ := fun l => (m l : ℂ) * dft Φ l with hΨ
  have hre : (fun z => ((dft.symm Ψ z).re : ℂ)) =
      (2 : ℂ)⁻¹ • (dft.symm Ψ + fun z => conj (dft.symm Ψ z)) := by
    funext z
    rw [Complex.re_eq_add_conj]
    exact div_eq_inv_mul _ _
  have hconj : conj (Ψ (-k)) = m (-k) * dft Φ k := by
    rw [hΨ, map_mul, Complex.conj_ofReal, conj_dft_ofReal, neg_neg]
  rw [hre, map_smul, map_add, LinearEquiv.apply_symm_apply, Pi.smul_apply, Pi.add_apply, dft_conj,
    LinearEquiv.apply_symm_apply, hconj, hΨ, evenPart]
  push_cast
  rw [smul_eq_mul]
  ring

end Real

end RealTransform
