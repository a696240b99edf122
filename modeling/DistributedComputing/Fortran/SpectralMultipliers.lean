import DistributedComputing.Fortran.Constants
import DistributedComputing.Fortran.Spectral

/-!
# The spectral filter, derivative and Poisson solver

A model of `spectral_filter`, `spectral_derivative_1d` and `spectral_solve_poisson_1d`. Each of them
transforms its input, multiplies the modes, and keeps the real part of the inverse transform. The
definitions are over any field with a floor function, the results over the real numbers with exact
trigonometry.

Whatever the multiplier, a mode and its opposite end up with the mean of their factors
(`transform_multiplied`). What follows depends on whether the multiplier is symmetric.

* The factors `-1 / k²` of the Poisson solver and `(i k)²` of the second derivative are, for odd and
  for even `n` (`waveSquare_opposite`). They cancel on every mode but the first, so **the second
  derivative of the solution is the right-hand side less its mean**
  (`spectralDerivative_solvePoisson`).
* The factors of the filter are not: of the two opposite modes at the cutoff, it removes one and
  keeps the other. Both are left with half of their value, so the filter is a projection only in
  special cases (`spectralFilter_projects_iff`).
-/

namespace DistributedComputing

open ArrayLoops RealTransform

namespace Cmplx

variable {K : Type} [Field K]

instance : One (Cmplx K) := ⟨⟨1, 0⟩⟩

instance : Neg (Cmplx K) := ⟨fun z => ⟨-z.re, -z.im⟩⟩

theorem mk_mul (a b c d : K) :
    (⟨a, b⟩ : Cmplx K) * ⟨c, d⟩ = ⟨a * c - b * d, a * d + b * c⟩ := rfl

theorem ofReal_mul (x : K) (z : Cmplx K) : ofReal x * z = ⟨x * z.re, x * z.im⟩ := by
  rw [ofReal, mk_mul, zero_mul, zero_mul, sub_zero, add_zero]

theorem eq_zero_of_ofReal_mul {x : K} (hx : x ≠ 0) {z : Cmplx K} (h : ofReal x * z = ⟨0, 0⟩) :
    z = ⟨0, 0⟩ := by
  rw [ofReal_mul] at h
  have hre : x * z.re = 0 := congrArg re h
  have him : x * z.im = 0 := congrArg im h
  exact congrArg₂ mk ((mul_eq_zero.1 hre).resolve_left hx) ((mul_eq_zero.1 him).resolve_left hx)

theorem ofReal_mul_ofReal_mul (x y : K) (z : Cmplx K) :
    ofReal (x * y) * z = ofReal x * (ofReal y * z) := by
  simp only [ofReal_mul, mul_assoc]

/-- Division by a real number. -/
def divReal (z : Cmplx K) (x : K) : Cmplx K := ⟨z.re / x, z.im / x⟩

/-- `z**m` for `m ≥ 0` -/
def npow (z : Cmplx K) : ℕ → Cmplx K
  | 0 => 1
  | m + 1 => z.npow m * z

/-- `1 / z`, if `z` is not zero. -/
def inverse [DecidableEq K] (z : Cmplx K) : Option (Cmplx K) :=
  let normSq := z.re * z.re + z.im * z.im
  if normSq = 0 then none else some ⟨z.re / normSq, -z.im / normSq⟩

/-- `z**order` -/
def power [DecidableEq K] (z : Cmplx K) (order : ℤ) : Option (Cmplx K) :=
  if 0 ≤ order then some (z.npow order.toNat) else (z.npow (-order).toNat).inverse

end Cmplx

section Model

variable {K : Type} [Field K]

/-- The wavenumber of the mode `i`. The modes of the second half are those of negative
frequency. -/
def wavenumber (T : Trigonometry K) (n i : ℤ) (length : K) : K :=
  if i ≤ n / 2 + 1 then T.twoPi * ((i - 1 : ℤ) : K) / length
  else T.twoPi * ((i - 1 - n : ℤ) : K) / length

/-- `spectral_derivative_1d`. The two arrays that it allocates have the given contents. -/
def spectralDerivative1d [DecidableEq K] (T : Trigonometry K) (allocated allocated' : ℤ → Cmplx K)
    (u du : Array1 K) (length : K) (order : ℤ) : Option (Array1 K) := do
  let n : ℤ := u.size
  let uHat := Array1.allocate n allocated
  let duHat := Array1.allocate n allocated'
  let uHat ← simpleFftForward T u uHat
  let duHat ← doLoop 1 n (fun i duHat => do
    let k := wavenumber T n i length
    duHat.set i ((← ((⟨0, 1⟩ : Cmplx K) * .ofReal k).power order) * (← uHat.get i))) duHat
  simpleFftBackward T duHat du

variable [LinearOrder K]

/-- The mode `i` of the solution. -/
def solveMode (tiny : K) (fHat : Cmplx K) (k : K) : Cmplx K :=
  let k2 := k * k
  if tiny < |k2| then (-fHat).divReal k2 else ⟨0, 0⟩

/-- `spectral_solve_poisson_1d`. The two arrays that it allocates have the given contents. -/
def spectralSolvePoisson1d (T : Trigonometry K) (tiny : K) (allocated allocated' : ℤ → Cmplx K)
    (f u : Array1 K) (length : K) : Option (Array1 K) := do
  let n : ℤ := f.size
  let fHat := Array1.allocate n allocated
  let uHat := Array1.allocate n allocated'
  let fHat ← simpleFftForward T f fHat
  let uHat ← doLoop 1 n (fun i uHat => do
    uHat.set i (solveMode tiny (← fHat.get i) (wavenumber T n i length))) uHat
  simpleFftBackward T uHat u

variable [FloorRing K]

/-- `nint(x)`: the nearest integer, halves away from zero. -/
def nint (x : K) : ℤ := if 0 ≤ x then ⌊x + decimal 5 1⌋ else ⌈x - decimal 5 1⌉

/-- `cutoff_mode` -/
def cutoffMode (n : ℤ) (cutoffFraction : K) : ℤ := nint (cutoffFraction * ((n / 2 : ℤ) : K))

/-- `spectral_filter`. The array that it allocates has the given contents. -/
def spectralFilter (T : Trigonometry K) (allocated : ℤ → Cmplx K) (u : Array1 K)
    (cutoffFraction : K) : Option (Array1 K) := do
  let n : ℤ := u.size
  let cutoffMode := cutoffMode n cutoffFraction
  let uHat := Array1.allocate n allocated
  let uHat ← simpleFftForward T u uHat
  let uHat ← doLoop (cutoffMode + 1) (n - cutoffMode) (fun i uHat => uHat.set i ⟨0, 0⟩) uHat
  simpleFftBackward T uHat u

end Model

/-! ### Multipliers -/

section Multipliers

variable {n : ℕ} [NeZero n]

/-- What is left if the modes of `f` are multiplied by `m`, and the real part of the inverse
transform is kept. -/
noncomputable def multiplied (n : ℕ) [NeZero n] (m f : ℤ → ℝ) : ℤ → ℝ :=
  inverseTransform n fun k => .ofReal (m k) * transform n f k

/-- **The shape of all these routines**: transform, change the spectrum, and transform back. If the
change multiplies the modes by `m`, the field is multiplied. -/
theorem returns_multiplied {u du : Array1 ℝ} {uHat : Array1 (Cmplx ℝ)} {m : ℤ → ℝ}
    {change : Array1 (Cmplx ℝ) → Option (Array1 (Cmplx ℝ))} (hu : u.size = n) (hdu : du.size = n)
    (huHat : uHat.size = n) (hchange : ∀ s, s.Tabulates n (transform n u.elem) →
      Returns (change s) fun s' => s'.Tabulates n fun k => .ofReal (m k) * transform n u.elem k) :
    Returns (do
      let s ← simpleFftForward exactTrigonometry u uHat
      let s ← change s
      simpleFftBackward exactTrigonometry s du) fun du' =>
        du'.Tabulates n (multiplied n m u.elem) := by
  refine (simpleFftForward_tabulates u uHat hu huHat).bind fun s hs => ?_
  refine (hchange s hs).bind fun s' hs' => ?_
  refine (simpleFftBackward_tabulates s' du hs'.size_eq hdu).mono fun du' hdu' => ?_
  exact hdu'.congr fun j _ _ => inverseTransform_congr hs'.elem_eq j

/-- **The transform of a multiplied field.** -/
theorem transform_multiplied (m f : ℤ → ℝ) {k : ℤ} (h1 : 1 ≤ k) (hk : k ≤ n) :
    transform n (multiplied n m f) k =
      .ofReal ((m k + m (opposite n k)) / 2) * transform n f k := by
  have hopposite := opposite_mem h1 hk
  have hspectrum : ofCells n (fun l => (Cmplx.ofReal (m l) * transform n f l).toComplex) =
      fun z => ((ofCells n m z : ℝ) : ℂ) * ZMod.dft (fun z => ((ofCells n f z : ℝ) : ℂ)) z :=
    ofCells_eq fun l h1 hl => by
      rw [ofCells_cell m h1 hl]
      rfl
  have hfield : ofCells n (fun j => (multiplied n m f j : ℂ)) = fun z =>
      ((ZMod.dft.symm (ofCells n fun l => (Cmplx.ofReal (m l) * transform n f l).toComplex) z).re :
        ℂ) :=
    ofCells_eq fun l _ _ => rfl
  rw [transform, hfield, hspectrum, dft_re_invDFT_mul, evenPart, neg_cell, ofCells_cell m h1 hk,
    ofCells_cell m hopposite.1 hopposite.2, Nat.cast_ofNat]
  rfl

theorem transform_multiplied_of_symmetric {m : ℤ → ℝ} (f : ℤ → ℝ) {k : ℤ} (h1 : 1 ≤ k)
    (hk : k ≤ n) (hm : m (opposite n k) = m k) :
    transform n (multiplied n m f) k = .ofReal (m k) * transform n f k := by
  rw [transform_multiplied m f h1 hk, hm, add_self_div_two]

theorem transform_injective {f g : ℤ → ℝ}
    (h : ∀ k : ℤ, 1 ≤ k → k ≤ n → transform n f k = transform n g k) {j : ℤ} (h1 : 1 ≤ j)
    (hj : j ≤ n) : f j = g j := by
  rw [← inverseTransform_transform f h1 hj, ← inverseTransform_transform g h1 hj]
  exact inverseTransform_congr h j

theorem transform_one (f : ℤ → ℝ) :
    transform n f 1 = .ofReal (∑ j ∈ Finset.Icc 1 (n : ℤ), f j) := by
  rw [transform, dft_ofCells, show cell n 1 = 0 by rw [cell, sub_self, Int.cast_zero]]
  simp only [zero_mul, AddChar.map_zero_eq_one, map_one, mul_one, ← Complex.ofReal_sum]
  rfl

end Multipliers

/-! ### The Poisson equation -/

section Poisson

variable {n : ℕ}

/-- The frequency of the mode `i`. -/
def frequency (n i : ℤ) : ℤ := if i ≤ n / 2 + 1 then i - 1 else i - 1 - n

theorem wavenumber_eq {K : Type} [Field K] (T : Trigonometry K) (n i : ℤ) (length : K) :
    wavenumber T n i length = T.twoPi * (frequency n i : K) / length := by
  rw [wavenumber, frequency]
  split <;> rfl

/-- Opposite modes have opposite frequencies, but for the mode in the middle of an even number,
which is its own opposite. -/
theorem frequency_opposite {i : ℤ} (hi : i ≤ n) :
    frequency n (opposite n i) = frequency n i ∨ frequency n (opposite n i) = -frequency n i := by
  simp only [frequency, opposite]
  split_ifs <;> omega

theorem frequency_ne_zero {i : ℤ} (h2 : 2 ≤ i) (hi : i ≤ n) : frequency n i ≠ 0 := by
  rw [frequency]
  split <;> omega

theorem frequency_one (n : ℕ) : frequency n 1 = 0 := by
  rw [frequency, if_pos (by omega), sub_self]

/-- The square of the wavenumber. -/
noncomputable def waveSquare (n : ℕ) (length : ℝ) (i : ℤ) : ℝ :=
  wavenumber exactTrigonometry n i length * wavenumber exactTrigonometry n i length

theorem waveSquare_eq (n : ℕ) (length : ℝ) (i : ℤ) :
    waveSquare n length i = (2 * Real.pi / length) ^ 2 * (frequency n i : ℝ) ^ 2 := by
  rw [waveSquare, wavenumber_eq, exactTrigonometry, Nat.cast_ofNat]
  ring

/-- **The squares are symmetric.** -/
theorem waveSquare_opposite (length : ℝ) {i : ℤ} (hi : i ≤ n) :
    waveSquare n length (opposite n i) = waveSquare n length i := by
  rw [waveSquare_eq, waveSquare_eq]
  rcases frequency_opposite hi with h | h
  · rw [h]
  · rw [h, Int.cast_neg, neg_sq]

theorem waveSquare_one (n : ℕ) (length : ℝ) : waveSquare n length 1 = 0 := by
  rw [waveSquare_eq, frequency_one, Int.cast_zero, zero_pow two_ne_zero, mul_zero]

theorem lt_waveSquare {length tiny : ℝ} (htiny : tiny < (2 * Real.pi / length) ^ 2) {i : ℤ}
    (h2 : 2 ≤ i) (hi : i ≤ n) : tiny < waveSquare n length i := by
  have hone : (1 : ℝ) ≤ (frequency n i : ℝ) ^ 2 := by
    exact_mod_cast Int.one_le_abs (pow_ne_zero 2 (frequency_ne_zero h2 hi)) |>.trans_eq
      (abs_of_nonneg (sq_nonneg _))
  rw [waveSquare_eq]
  exact htiny.trans_le (le_mul_of_one_le_right (sq_nonneg _) hone)

/-- The factor that the solver has for the mode `i`. -/
noncomputable def solverFactor (n : ℕ) (length : ℝ) (i : ℤ) : ℝ :=
  if i = 1 then 0 else -(waveSquare n length i)⁻¹

theorem solverFactor_opposite (length : ℝ) {i : ℤ} (hi : i ≤ n) :
    solverFactor n length (opposite n i) = solverFactor n length i := by
  have hone : opposite n i = 1 ↔ i = 1 := by
    rw [opposite]
    split <;> omega
  rw [solverFactor, solverFactor, waveSquare_opposite length hi]
  simp only [hone]

/-- The two factors cancel, but for the first mode. -/
theorem waveSquare_mul_solverFactor {length : ℝ} (hlength : length ≠ 0) {i : ℤ} (h1 : 1 ≤ i)
    (hi : i ≤ n) :
    -waveSquare n length i * solverFactor n length i = if i = 1 then 0 else 1 := by
  rw [solverFactor]
  split
  case isTrue h => rw [mul_zero]
  case isFalse h =>
    have hpos : 0 < waveSquare n length i := by
      refine lt_waveSquare ?_ (by omega) hi
      have := Real.pi_pos
      positivity
    rw [neg_mul_neg, mul_inv_cancel₀ hpos.ne']

theorem solveMode_eq {length tiny : ℝ} (h0 : 0 ≤ tiny) (htiny : tiny < (2 * Real.pi / length) ^ 2)
    (z : Cmplx ℝ) {i : ℤ} (h1 : 1 ≤ i) (hi : i ≤ n) :
    solveMode tiny z (wavenumber exactTrigonometry n i length) =
      .ofReal (solverFactor n length i) * z := by
  rw [solveMode, ← waveSquare, Cmplx.ofReal_mul, solverFactor]
  split
  case isTrue hlt =>
    have hne : i ≠ 1 := by
      rintro rfl
      rw [waveSquare_one, abs_zero] at hlt
      exact hlt.not_ge h0
    have hdiv : ∀ x : ℝ, -x / waveSquare n length i = -(waveSquare n length i)⁻¹ * x := by
      intro x
      ring
    rw [if_neg hne, ← hdiv, ← hdiv]
    rfl
  case isFalse hge =>
    have hone : i = 1 := by
      by_contra hne
      exact hge ((lt_waveSquare htiny (by omega) hi).trans_le (le_abs_self _))
    rw [if_pos hone, zero_mul, zero_mul]

variable [NeZero n]

/-- **What `spectral_solve_poisson_1d` computes.** -/
theorem spectralSolvePoisson1d_tabulates {f u : Array1 ℝ} (hf : f.size = n) (hu : u.size = n)
    {length tiny : ℝ} (h0 : 0 ≤ tiny) (htiny : tiny < (2 * Real.pi / length) ^ 2)
    (allocated allocated' : ℤ → Cmplx ℝ) :
    Returns (spectralSolvePoisson1d exactTrigonometry tiny allocated allocated' f u length)
      fun u' => u'.Tabulates n (multiplied n (solverFactor n length) f.elem) := by
  rw [spectralSolvePoisson1d, hf]
  refine returns_multiplied hf hu (Int.toNat_natCast n) fun fHat hfHat =>
    Array1.returns_doLoop_tabulates (Int.toNat_natCast n) fun i a h1 hi => ?_
  rw [Array1.get_of_le h1 (hfHat.size_eq ▸ hi), Option.bind_eq_bind, Option.bind_some,
    solveMode_eq h0 htiny _ h1 hi, hfHat.elem_eq i h1 hi]

theorem power_two (k : ℝ) :
    ((⟨0, 1⟩ : Cmplx ℝ) * .ofReal k).power 2 = some (.ofReal (-(k * k))) := by
  have hmul : (⟨0, 1⟩ : Cmplx ℝ) * .ofReal k = ⟨0, k⟩ := by
    rw [Cmplx.ofReal, Cmplx.mk_mul]
    ring_nf
  have hone : (1 : Cmplx ℝ) = ⟨1, 0⟩ := rfl
  rw [hmul, Cmplx.power, if_pos (by decide)]
  simp only [show Int.toNat 2 = 2 from rfl, Cmplx.npow, hone, Cmplx.mk_mul, Cmplx.ofReal]
  ring_nf

/-- **What `spectral_derivative_1d` computes** with the order 2. -/
theorem spectralDerivative1d_tabulates {u du : Array1 ℝ} (hu : u.size = n) (hdu : du.size = n)
    (length : ℝ) (allocated allocated' : ℤ → Cmplx ℝ) :
    Returns (spectralDerivative1d exactTrigonometry allocated allocated' u du length 2) fun du' =>
      du'.Tabulates n (multiplied n (fun i => -waveSquare n length i) u.elem) := by
  rw [spectralDerivative1d, hu]
  refine returns_multiplied hu hdu (Int.toNat_natCast n) fun uHat huHat =>
    Array1.returns_doLoop_tabulates (Int.toNat_natCast n) fun i a h1 hi => ?_
  dsimp only
  rw [power_two, Array1.get_of_le h1 (huHat.size_eq ▸ hi), waveSquare, ← huHat.elem_eq i h1 hi]
  rfl

/-- The mean of a field. -/
noncomputable def mean (n : ℕ) (f : ℤ → ℝ) : ℝ := (∑ j ∈ Finset.Icc 1 (n : ℤ), f j) / n

/-- **Without the first mode**, a field loses its mean. -/
theorem multiplied_without_first (f : ℤ → ℝ) {j : ℤ} (h1 : 1 ≤ j) (hj : j ≤ n) :
    multiplied n (fun k => if k = 1 then 0 else 1) f j = f j - mean n f := by
  have hn : (1 : ℤ) ≤ n := h1.trans hj
  have hterm : ∀ k : ℤ,
      (Cmplx.ofReal (if k = 1 then 0 else 1) * transform n f k).toComplex *
          ZMod.stdAddChar (cell n k * cell n j) =
        (transform n f k).toComplex * ZMod.stdAddChar (cell n k * cell n j) -
          if k = 1 then ((∑ j ∈ Finset.Icc 1 (n : ℤ), f j : ℝ) : ℂ) else 0 := by
    intro k
    rw [Cmplx.toComplex_mul, Cmplx.toComplex_ofReal]
    split
    case isTrue hk =>
      rw [hk, transform_one, Cmplx.toComplex_ofReal, cell, sub_self, Int.cast_zero, zero_mul,
        AddChar.map_zero_eq_one, Complex.ofReal_zero, zero_mul, zero_mul, mul_one, sub_self]
    case isFalse hk => rw [Complex.ofReal_one, one_mul, sub_zero]
  have hround := inverseTransform_transform f h1 hj
  rw [inverseTransform, invDFT_ofCells] at hround
  rw [multiplied, inverseTransform, invDFT_ofCells]
  simp only [hterm]
  rw [Finset.sum_sub_distrib, Finset.sum_ite_eq', if_pos (Finset.mem_Icc.2 ⟨le_rfl, hn⟩), sub_div,
    Complex.sub_re, hround, Complex.div_natCast_re, Complex.ofReal_re, mean]

/-- **The solver inverts the second derivative**, up to the mean, and its solution has the mean
zero. -/
theorem spectralDerivative_solvePoisson {f u du : Array1 ℝ} (hf : f.size = n) (hu : u.size = n)
    (hdu : du.size = n) {length tiny : ℝ} (hlength : 0 < length) (h0 : 0 ≤ tiny)
    (htiny : tiny < (2 * Real.pi / length) ^ 2)
    (allocated₁ allocated₂ allocated₃ allocated₄ : ℤ → Cmplx ℝ) :
    Returns (spectralSolvePoisson1d exactTrigonometry tiny allocated₁ allocated₂ f u length)
      fun u' => mean n u'.elem = 0 ∧
        Returns (spectralDerivative1d exactTrigonometry allocated₃ allocated₄ u' du length 2)
          fun du' => du'.Tabulates n fun i => f.elem i - mean n f.elem := by
  refine (spectralSolvePoisson1d_tabulates hf hu h0 htiny _ _).mono fun u' hu' => ?_
  have htransform : ∀ k : ℤ, 1 ≤ k → k ≤ n →
      transform n u'.elem k = .ofReal (solverFactor n length k) * transform n f.elem k := by
    intro k h1 hk
    rw [transform_congr hu'.elem_eq, transform_multiplied_of_symmetric f.elem h1 hk
      (solverFactor_opposite length hk)]
  refine ⟨?_, (spectralDerivative1d_tabulates hu'.size_eq hdu length _ _).mono fun du' hdu' =>
    hdu'.congr fun j h1 hj => ?_⟩
  · have hn : (1 : ℤ) ≤ n := by exact_mod_cast NeZero.one_le
    have hfirst := (transform_one u'.elem).symm.trans (htransform 1 le_rfl hn)
    rw [solverFactor, if_pos rfl] at hfirst
    have hsum : ∑ j ∈ Finset.Icc 1 (n : ℤ), u'.elem j = 0 * _ - 0 * _ := congrArg Cmplx.re hfirst
    rw [mean, hsum, zero_mul, zero_mul, sub_zero, zero_div]
  · rw [← multiplied_without_first f.elem h1 hj]
    refine inverseTransform_congr (fun k h1 hk => ?_) j
    rw [htransform k h1 hk, ← Cmplx.ofReal_mul_ofReal_mul,
      waveSquare_mul_solverFactor hlength.ne' h1 hk]

/-- Two points, with the length 1. -/
theorem spectralDerivative_solvePoisson_two_points :
    Returns (spectralSolvePoisson1d exactTrigonometry 1 (fun _ => ⟨0, 0⟩) (fun _ => ⟨0, 0⟩)
      ⟨2, fun i => i⟩ ⟨2, 0⟩ 1) fun u' => mean 2 u'.elem = 0 ∧
        Returns (spectralDerivative1d exactTrigonometry (fun _ => ⟨0, 0⟩) (fun _ => ⟨0, 0⟩) u'
          ⟨2, 0⟩ 1 2) fun du' => du'.Tabulates 2 fun i => (i : ℝ) - mean 2 fun i => i := by
  have hpi := Real.two_le_pi
  refine spectralDerivative_solvePoisson (n := 2) rfl rfl rfl one_pos zero_le_one ?_ _ _ _ _
  rw [div_one]
  nlinarith

end Poisson

/-! ### The filter -/

section Filter

variable {n : ℕ} {c k : ℤ}

theorem cutoffMode_mem {cutoffFraction : ℝ} (h0 : 0 ≤ cutoffFraction) (h1 : cutoffFraction ≤ 1)
    (n : ℕ) : 0 ≤ cutoffMode n cutoffFraction ∧ 2 * cutoffMode n cutoffFraction ≤ n := by
  have hhalf : (0 : ℝ) ≤ ((n / 2 : ℤ) : ℝ) := by exact_mod_cast (by omega : (0 : ℤ) ≤ n / 2)
  have hfive : (decimal 5 1 : ℝ) = 1 / 2 := decimal_five_one
  rw [cutoffMode, nint, if_pos (mul_nonneg h0 hhalf), hfive]
  have hle : ⌊cutoffFraction * ((n / 2 : ℤ) : ℝ) + 1 / 2⌋ < (n / 2 : ℤ) + 1 := by
    rw [Int.floor_lt]
    push_cast
    have := mul_le_of_le_one_left hhalf h1
    linarith
  have hge : (0 : ℤ) ≤ ⌊cutoffFraction * ((n / 2 : ℤ) : ℝ) + 1 / 2⌋ :=
    Int.floor_nonneg.2 (by positivity)
  omega

/-- With the cutoff `c`, the filter removes the mode `k`. -/
def Removes (n c k : ℤ) : Prop := c + 1 ≤ k ∧ k ≤ n - c

instance (n c k : ℤ) : Decidable (Removes n c k) := inferInstanceAs (Decidable (_ ∧ _))

/-- The factor that the filter has for the mode `k`. -/
def filterFactor (n c k : ℤ) : ℝ := if Removes n c k then 0 else 1

/-- **The factors are symmetric**, but for the two modes at the cutoff. -/
theorem filterFactor_opposite (h0 : 0 ≤ c) (h1 : 1 ≤ k) (hk : k ≤ n)
    (h : c = 0 ∨ 2 * c = n ∨ k ≠ c + 1 ∧ k ≠ n - c + 1) :
    filterFactor n c (opposite n k) = filterFactor n c k := by
  have hiff : Removes n c (opposite n k) ↔ Removes n c k := by
    rw [Removes, Removes, opposite]
    split <;> omega
  simp only [filterFactor, hiff]

/-- The mode at the cutoff is removed, and its opposite is not. -/
theorem filterFactor_cutoff (h0 : 0 < c) (hc : 2 * c < n) :
    filterFactor n c (c + 1) = 0 ∧ filterFactor n c (opposite n (c + 1)) = 1 := by
  refine ⟨if_pos ⟨le_rfl, by omega⟩, if_neg fun h => ?_⟩
  rw [Removes, opposite, if_neg (by omega)] at h
  omega

variable [NeZero n]

theorem transform_opposite (f : ℤ → ℝ) (k : ℤ) :
    transform n f (opposite n k) = ⟨(transform n f k).re, -(transform n f k).im⟩ := by
  rw [transform, ← neg_cell]
  exact congrArg Cmplx.ofComplex (conj_dft_ofReal (ofCells n f) (cell n k)).symm

/-- **What `spectral_filter` computes.** -/
theorem spectralFilter_tabulates {u : Array1 ℝ} (hu : u.size = n) {cutoffFraction : ℝ}
    (hcutoff : 0 ≤ cutoffMode n cutoffFraction) (allocated : ℤ → Cmplx ℝ) :
    Returns (spectralFilter exactTrigonometry allocated u cutoffFraction) fun u' =>
      u'.Tabulates n (multiplied n (filterFactor n (cutoffMode n cutoffFraction)) u.elem) := by
  rw [spectralFilter, hu]
  set c := cutoffMode n cutoffFraction
  refine returns_multiplied hu hu (Int.toNat_natCast n) fun uHat huHat => ?_
  refine Returns.mono ((Array1.line_within le_rfl).returns_doLoop (f := fun _ => ⟨0, 0⟩)
    huHat.size_eq (by omega) (by omega) fun i a _ _ => rfl) fun uHat' huHat' => ?_
  refine ⟨huHat'.shape_eq.trans huHat.size_eq, fun k h1 hk => ?_⟩
  have hplace : k ∈ Set.Icc 1 (uHat.size : ℤ) := ⟨h1, by rwa [huHat.size_eq]⟩
  rw [Cmplx.ofReal_mul, filterFactor]
  split
  case isTrue hremoved =>
    rw [zero_mul, zero_mul]
    exact huHat'.on k hplace ⟨k, hremoved, rfl⟩
  case isFalse hkept =>
    rw [one_mul, one_mul, ← huHat.elem_eq k h1 hk]
    refine huHat'.off k hplace ?_
    rintro ⟨i, hi, rfl⟩
    exact hkept hi

/-- What a filter with the cutoff `c` should do to the field `u`: a second application, here
`again`, leaves the result `u'` as it is, and the modes of `u'` are those of `u`, less those that
were removed. -/
structure Projects (n : ℕ) [NeZero n] (c : ℤ) (u u' : Array1 ℝ) (again : Option (Array1 ℝ)) :
    Prop where
  again_eq : Returns again fun u'' => u''.Tabulates n u'.elem
  removed : ∀ k : ℤ, 1 ≤ k → k ≤ n → Removes n c k → transform n u'.elem k = ⟨0, 0⟩
  kept : ∀ k : ℤ, 1 ≤ k → k ≤ n → ¬ Removes n c k →
    transform n u'.elem k = transform n u.elem k

/-- At each mode, the factors are symmetric or there is nothing to multiply. -/
theorem filterFactor_opposite_or (h0 : 0 ≤ c) {f : ℤ → ℝ}
    (h : c = 0 ∨ 2 * c = n ∨ transform n f (c + 1) = ⟨0, 0⟩) (h1 : 1 ≤ k) (hk : k ≤ n) :
    filterFactor n c (opposite n k) = filterFactor n c k ∨ transform n f k = ⟨0, 0⟩ := by
  by_cases hsymmetric : c = 0 ∨ 2 * c = n ∨ k ≠ c + 1 ∧ k ≠ n - c + 1
  · exact .inl (filterFactor_opposite h0 h1 hk hsymmetric)
  have hzero : transform n f (c + 1) = ⟨0, 0⟩ := by
    rcases h with h | h | h
    · exact absurd (.inl h) hsymmetric
    · exact absurd (.inr (.inl h)) hsymmetric
    · exact h
  have hk : k = c + 1 ∨ k = opposite n (c + 1) := by
    rw [opposite, if_neg (by omega)]
    omega
  rcases hk with rfl | rfl
  · exact .inr hzero
  · rw [transform_opposite, hzero, neg_zero]
    exact .inr rfl

/-- **A filter that removes modes together with their opposites is a projection**, and so is one
that finds nothing at the cutoff. -/
theorem projects_of_symmetric (h0 : 0 ≤ c) {u u' : Array1 ℝ} {again : Option (Array1 ℝ)}
    (hu' : u'.Tabulates n (multiplied n (filterFactor n c) u.elem))
    (hagain : Returns again fun u'' => u''.Tabulates n (multiplied n (filterFactor n c) u'.elem))
    (h : c = 0 ∨ 2 * c = n ∨ transform n u.elem (c + 1) = ⟨0, 0⟩) : Projects n c u u' again := by
  have hmodes : ∀ k : ℤ, 1 ≤ k → k ≤ n →
      transform n u'.elem k = .ofReal (filterFactor n c k) * transform n u.elem k := by
    intro k h1 hk
    rw [transform_congr hu'.elem_eq]
    rcases filterFactor_opposite_or h0 h h1 hk with hsymmetric | hzero
    · exact transform_multiplied_of_symmetric u.elem h1 hk hsymmetric
    · rw [transform_multiplied _ _ h1 hk, hzero]
      simp only [Cmplx.ofReal_mul, mul_zero]
  refine ⟨hagain.mono fun u'' hu'' => hu''.congr fun j h1 hj => transform_injective ?_ h1 hj,
    ?_, ?_⟩
  · intro k h1 hk
    rw [transform_multiplied _ _ h1 hk, hmodes k h1 hk]
    rcases filterFactor_opposite_or h0 h h1 hk with hsymmetric | hzero
    · rw [hsymmetric, add_self_div_two, ← Cmplx.ofReal_mul_ofReal_mul, filterFactor, ite_mul,
        zero_mul, one_mul]
      split <;> rfl
    · rw [hzero]
      simp only [Cmplx.ofReal_mul, mul_zero]
  · intro k h1 hk hremoved
    rw [hmodes k h1 hk, filterFactor, if_pos hremoved, Cmplx.ofReal_mul, zero_mul, zero_mul]
  · intro k h1 hk hkept
    rw [hmodes k h1 hk, filterFactor, if_neg hkept, Cmplx.ofReal_mul, one_mul, one_mul]

/-- **At the cutoff**, half of the mode is left. -/
theorem transform_filtered_cutoff (h0 : 0 < c) (hc : 2 * c < n) (f : ℤ → ℝ) :
    transform n (multiplied n (filterFactor n c) f) (c + 1) =
      .ofReal (1 / 2) * transform n f (c + 1) := by
  rw [transform_multiplied _ _ (by omega) (by omega), (filterFactor_cutoff h0 hc).1,
    (filterFactor_cutoff h0 hc).2, zero_add]

/-- A field with 1 at the first point. All its modes are 1. -/
def impulse (n : ℕ) : Array1 ℝ := ⟨n, fun j => if j = 1 then 1 else 0⟩

theorem transform_impulse (k : ℤ) : transform n (impulse n).elem k = ⟨1, 0⟩ := by
  have hn : (1 : ℤ) ≤ n := by exact_mod_cast NeZero.one_le
  have hterm : ∀ j : ℤ, ((impulse n).elem j : ℂ) *
      (starRingEnd ℂ) (ZMod.stdAddChar (cell n k * cell n j)) = if j = 1 then 1 else 0 := by
    intro j
    show ((if j = 1 then 1 else 0 : ℝ) : ℂ) * _ = _
    split
    case isTrue hj =>
      rw [hj, cell, cell, sub_self, Int.cast_zero, mul_zero, AddChar.map_zero_eq_one, map_one,
        Complex.ofReal_one, mul_one]
    case isFalse hj => rw [Complex.ofReal_zero, zero_mul]
  rw [transform, dft_ofCells]
  simp only [hterm]
  rw [Finset.sum_ite_eq', if_pos (Finset.mem_Icc.2 ⟨le_rfl, hn⟩)]
  rfl

/-- **When the filter is a projection.** For a given field, this is so exactly if the cutoff leaves
all modes or none, or if the field has nothing in the mode at the cutoff; for all fields, the last
is no alternative. -/
theorem spectralFilter_projects_iff {cutoffFraction : ℝ} (h0 : 0 ≤ cutoffFraction)
    (h1 : cutoffFraction ≤ 1) (allocated allocated' : ℤ → Cmplx ℝ) :
    (∀ u : Array1 ℝ, u.size = n →
      Returns (spectralFilter exactTrigonometry allocated u cutoffFraction) fun u' =>
        (Projects n (cutoffMode n cutoffFraction) u u'
            (spectralFilter exactTrigonometry allocated' u' cutoffFraction) ↔
          cutoffMode n cutoffFraction = 0 ∨ 2 * cutoffMode n cutoffFraction = n ∨
            transform n u.elem (cutoffMode n cutoffFraction + 1) = ⟨0, 0⟩)) ∧
    ((∀ u : Array1 ℝ, u.size = n →
      Returns (spectralFilter exactTrigonometry allocated u cutoffFraction) fun u' =>
        Projects n (cutoffMode n cutoffFraction) u u'
          (spectralFilter exactTrigonometry allocated' u' cutoffFraction)) ↔
      cutoffMode n cutoffFraction = 0 ∨ 2 * cutoffMode n cutoffFraction = n) := by
  obtain ⟨hnonneg, hle⟩ := cutoffMode_mem h0 h1 n
  -- What holds of all fields follows from what holds of each.
  refine (fun hiff => ⟨hiff, fun hall => ?_, fun h u hu => ?_⟩) fun u hu => ?_
  · refine (spectralFilter_tabulates hu hnonneg allocated).mono fun u' hu' => ⟨fun h => ?_, ?_⟩
    · by_contra! hnot
      obtain ⟨hzero, hall, hmode⟩ := hnot
      -- The mode at the cutoff is among the removed ones, and half of it is left.
      have hremoved := h.removed (cutoffMode n cutoffFraction + 1) (by omega) (by omega)
        ⟨le_rfl, by omega⟩
      rw [transform_congr hu'.elem_eq, transform_filtered_cutoff (by omega) (by omega)] at hremoved
      exact hmode (Cmplx.eq_zero_of_ofReal_mul (by norm_num) hremoved)
    · exact projects_of_symmetric hnonneg hu' (spectralFilter_tabulates hu'.size_eq hnonneg _)
  · obtain ⟨u', hu', hprojects⟩ := hall (impulse n) rfl
    rcases ((hiff (impulse n) rfl).elim hu').1 hprojects with h | h | h
    · exact .inl h
    · exact .inr h
    · rw [transform_impulse] at h
      exact absurd (congrArg Cmplx.re h) one_ne_zero
  · refine (hiff u hu).mono fun u' hu' => hu'.2 ?_
    rcases h with h | h
    · exact .inl h
    · exact .inr (.inl h)

/-- The field `1, 0, 1, 0`. -/
def comb : Array1 ℝ := ⟨4, fun j => if j = 1 ∨ j = 3 then 1 else 0⟩

theorem transform_comb : transform 4 comb.elem 2 = ⟨0, 0⟩ ∧ transform 4 comb.elem 3 = ⟨2, 0⟩ := by
  have hsum : ∀ k : ℤ, ZMod.dft (ofCells 4 fun j => (comb.elem j : ℂ)) (cell 4 k) =
      1 + (starRingEnd ℂ) (ZMod.stdAddChar (cell 4 k * cell 4 3)) := by
    intro k
    rw [dft_ofCells, show Finset.Icc 1 ((4 : ℕ) : ℤ) = {1, 2, 3, 4} from rfl]
    norm_num [comb, cell]
  have hsecond : ZMod.stdAddChar (cell 4 2 * cell 4 3) = -1 := by
    rw [show cell 4 2 * cell 4 3 = ((2 : ℤ) : ZMod 4) from rfl, ZMod.stdAddChar_coe,
      show 2 * Real.pi * Complex.I * (2 : ℤ) / (4 : ℕ) = Real.pi * Complex.I by push_cast; ring,
      Complex.exp_pi_mul_I]
  have hthird : ZMod.stdAddChar (cell 4 3 * cell 4 3) = 1 := AddChar.map_zero_eq_one _
  rw [transform, transform, hsum, hsum, hsecond, hthird]
  norm_num [Cmplx.ofComplex]

/-- A filter that removes a mode, of a field that has nothing in the mode at the cutoff. -/
theorem spectralFilter_projects_iff_comb :
    Removes 4 (cutoffMode 4 (1 / 2 : ℝ)) 3 ∧ transform 4 comb.elem 3 = ⟨2, 0⟩ ∧
      Returns (spectralFilter exactTrigonometry (fun _ => ⟨0, 0⟩) comb (1 / 2)) fun u' =>
        Projects 4 (cutoffMode 4 (1 / 2 : ℝ)) comb u'
          (spectralFilter exactTrigonometry (fun _ => ⟨0, 0⟩) u' (1 / 2)) := by
  have hcutoff : cutoffMode (4 : ℕ) (1 / 2 : ℝ) = 1 := by norm_num [cutoffMode, nint, decimal]
  refine ⟨hcutoff ▸ (by decide : Removes 4 1 3), transform_comb.2, ?_⟩
  refine ((spectralFilter_projects_iff (n := 4) (by norm_num) (by norm_num) _ _).1 comb rfl).mono
    fun u' h => h.2 (.inr (.inr ?_))
  rw [hcutoff]
  exact transform_comb.1

/-- **Half of the modes at the cutoff is left.** The cutoff 1/2 of four points removes the second
and the third mode. Of the impulse, the second and the fourth are left with 1/2, and a second
application changes the field again. -/
theorem spectralFilter_halves_cutoff :
    Returns (spectralFilter exactTrigonometry (fun _ => ⟨0, 0⟩) (impulse 4) (1 / 2)) fun u' =>
      (Removes 4 (cutoffMode 4 (1 / 2 : ℝ)) 2 ∧ transform 4 u'.elem 2 = ⟨1 / 2, 0⟩) ∧
      (¬ Removes 4 (cutoffMode 4 (1 / 2 : ℝ)) 4 ∧ transform 4 (impulse 4).elem 4 = ⟨1, 0⟩ ∧
        transform 4 u'.elem 4 = ⟨1 / 2, 0⟩) ∧
      Returns (spectralFilter exactTrigonometry (fun _ => ⟨0, 0⟩) u' (1 / 2)) fun u'' =>
        ¬ u''.Tabulates 4 u'.elem := by
  have hcutoff : cutoffMode (4 : ℕ) (1 / 2 : ℝ) = 1 := by
    norm_num [cutoffMode, nint, decimal]
  have hcutoff' : cutoffMode 4 (1 / 2 : ℝ) = 1 := hcutoff
  rw [hcutoff']
  have hnonneg : 0 ≤ cutoffMode (4 : ℕ) (1 / 2 : ℝ) := by rw [hcutoff]; exact zero_le_one
  have hhalved : ∀ (f : ℤ → ℝ), transform 4 (multiplied 4 (filterFactor (4 : ℕ) 1) f) 2 =
      .ofReal (1 / 2) * transform 4 f 2 := fun f =>
    transform_filtered_cutoff one_pos (by decide) f
  refine (spectralFilter_tabulates (n := 4) rfl hnonneg _).mono fun u' hu' => ?_
  rw [hcutoff] at hu'
  have hsecond : transform 4 u'.elem 2 = ⟨1 / 2, 0⟩ := by
    rw [transform_congr hu'.elem_eq, hhalved, transform_impulse, Cmplx.ofReal_mul, mul_one,
      mul_zero]
  refine ⟨⟨by decide, hsecond⟩, ⟨by decide, transform_impulse 4, ?_⟩, ?_⟩
  · have hopposite := transform_opposite (n := 4) u'.elem 2
    rw [hsecond, neg_zero] at hopposite
    exact hopposite
  · refine (spectralFilter_tabulates (n := 4) hu'.size_eq hnonneg _).mono fun u'' hu'' heq => ?_
    rw [hcutoff] at hu''
    have hagain := transform_congr heq.elem_eq 2
    rw [transform_congr hu''.elem_eq, hhalved, hsecond, Cmplx.ofReal_mul] at hagain
    have hre : (1 / 2 * (1 / 2) : ℝ) = 1 / 2 := congrArg Cmplx.re hagain
    norm_num at hre

end Filter

end DistributedComputing
