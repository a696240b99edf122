import DistributedComputing.Foundations.ArrayAssignments
import DistributedComputing.Foundations.RealTransform

/-!
# The discrete transforms of the spectral solvers

A model of `simple_fft_forward` and `simple_fft_backward`, and of the pair for two dimensions. The
definitions are over any field, with the cosine, the sine and `TWO_PI` as parameters; the results
are about the real numbers, where these are exact. Integers do not overflow here, which the product
of two indices would with more than 46341 points.

In one dimension the routines are the discrete Fourier transform and the real part of its inverse
(`simpleFftForward_tabulates`, `simpleFftBackward_tabulates`). The transform in two dimensions hands
only the real part of the transformed columns on to the transform of the rows. So **a round trip
returns the even part of each column** (`roundTrip2d_tabulates`), which is the field itself exactly
if every column is symmetric (`roundTrip2d_eq_iff`).
-/

namespace DistributedComputing

open ArrayLoops RealTransform

/-- `complex(wp)` -/
structure Cmplx (K : Type) where
  re : K
  im : K

namespace Cmplx

variable {K : Type} [Field K]

instance : Add (Cmplx K) := ⟨fun z w => ⟨z.re + w.re, z.im + w.im⟩⟩

instance : Mul (Cmplx K) := ⟨fun z w => ⟨z.re * w.re - z.im * w.im, z.re * w.im + z.im * w.re⟩⟩

/-- A real number, where a complex one is needed. -/
def ofReal (x : K) : Cmplx K := ⟨x, 0⟩

end Cmplx

/-- What the routines use of trigonometry. -/
structure Trigonometry (K : Type) where
  twoPi : K
  cos : K → K
  sin : K → K

section Model

variable {K : Type} [Field K]

/-- `cmplx(cos(theta), sin(theta), wp)` -/
def Trigonometry.cis (T : Trigonometry K) (theta : K) : Cmplx K := ⟨T.cos theta, T.sin theta⟩

/-- The inner loop of `simple_fft_forward`: all terms of `x_hat(k)`. -/
def addTerms (T : Trigonometry K) (x : Array1 K) (n k : ℤ) (xHat : Array1 (Cmplx K)) :
    Option (Array1 (Cmplx K)) :=
  doLoop 1 n (fun j xHat => do
    let theta := -T.twoPi * ((k - 1) * (j - 1) : ℤ) / n
    xHat.set k ((← xHat.get k) + .ofReal (← x.get j) * T.cis theta)) xHat

/-- `simple_fft_forward` -/
def simpleFftForward (T : Trigonometry K) (x : Array1 K) (xHat : Array1 (Cmplx K)) :
    Option (Array1 (Cmplx K)) :=
  let n : ℤ := x.size
  let xHat := xHat.fill ⟨0, 0⟩
  doLoop 1 n (addTerms T x n) xHat

/-- The inner loop of `simple_fft_backward`: the sum for `x(j)`. -/
def sumTerms (T : Trigonometry K) (xHat : Array1 (Cmplx K)) (n j : ℤ) : Option (Cmplx K) :=
  doLoop 1 n (fun k sumVal => do
    let theta := T.twoPi * ((k - 1) * (j - 1) : ℤ) / n
    return sumVal + (← xHat.get k) * T.cis theta) ⟨0, 0⟩

/-- `simple_fft_backward` -/
def simpleFftBackward (T : Trigonometry K) (xHat : Array1 (Cmplx K)) (x : Array1 K) :
    Option (Array1 K) :=
  let n : ℤ := x.size
  doLoop 1 n (fun j x => do
    let sumVal ← sumTerms T xHat n j
    x.set j (sumVal.re / n)) x

/-- `simple_fft_2d_forward`. The array that it allocates has the given contents. -/
def simpleFft2dForward (T : Trigonometry K) (allocated : ℤ → ℤ → Cmplx K) (x : Array2 K)
    (xHat : Array2 (Cmplx K)) : Option (Array2 (Cmplx K)) := do
  let nx : ℤ := x.rows
  let ny : ℤ := x.cols
  let temp := Array2.allocate nx ny allocated
  let temp ← doLoop 1 ny (fun i temp => do
    let column ← simpleFftForward T (← x.column i) (← temp.column i)
    temp.setColumn i column) temp
  doLoop 1 nx (fun i xHat => do
    -- Only the real part is transformed further.
    let row ← simpleFftForward T ((← temp.row i).map Cmplx.re) (← xHat.row i)
    xHat.setRow i row) xHat

/-- `simple_fft_2d_backward`. Before the row `i` is computed, `temp_real` contains `contents i`. -/
def simpleFft2dBackward (T : Trigonometry K) (allocated : ℤ → ℤ → Cmplx K) (contents : ℤ → ℤ → K)
    (xHat : Array2 (Cmplx K)) (x : Array2 K) : Option (Array2 K) := do
  let nx : ℤ := x.rows
  let ny : ℤ := x.cols
  let temp := Array2.allocate nx ny allocated
  let temp ← doLoop 1 nx (fun i temp => do
    let tempReal := Array1.allocate ny (contents i)
    let tempReal ← simpleFftBackward T (← xHat.row i) tempReal
    temp.setRow i (tempReal.map Cmplx.ofReal)) temp
  doLoop 1 ny (fun i x => do
    let column ← simpleFftBackward T (← temp.column i) (← x.column i)
    x.setColumn i column) x

/-- A field that is transformed forward into `xHat`, and backward into `y`. -/
def roundTrip2d (T : Trigonometry K) (allocated allocated' : ℤ → ℤ → Cmplx K)
    (contents : ℤ → ℤ → K) (xHat : Array2 (Cmplx K)) (y x : Array2 K) : Option (Array2 K) := do
  let xHat ← simpleFft2dForward T allocated x xHat
  simpleFft2dBackward T allocated' contents xHat y

end Model

/-! ### One dimension -/

/-- Exact trigonometry. -/
noncomputable def exactTrigonometry : Trigonometry ℝ := ⟨(2 : ℕ) * Real.pi, Real.cos, Real.sin⟩

namespace Cmplx

/-- The complex number. -/
def toComplex (z : Cmplx ℝ) : ℂ := ⟨z.re, z.im⟩

/-- A complex number as the program has it. -/
def ofComplex (z : ℂ) : Cmplx ℝ := ⟨z.re, z.im⟩

theorem ofComplex_toComplex (z : Cmplx ℝ) : ofComplex z.toComplex = z := rfl

theorem toComplex_add (z w : Cmplx ℝ) : (z + w).toComplex = z.toComplex + w.toComplex := rfl

theorem toComplex_mul (z w : Cmplx ℝ) : (z * w).toComplex = z.toComplex * w.toComplex := rfl

theorem toComplex_ofReal (x : ℝ) : (ofReal x).toComplex = x := rfl

theorem toComplex_zero : (⟨0, 0⟩ : Cmplx ℝ).toComplex = 0 := rfl

end Cmplx

section Line

open ZMod (dft stdAddChar)

open scoped ComplexConjugate

variable {n : ℕ} [NeZero n]

theorem toComplex_cis (k j : ℤ) :
    (exactTrigonometry.cis
        (exactTrigonometry.twoPi * ((k - 1) * (j - 1) : ℤ) / (n : ℤ))).toComplex =
      stdAddChar (cell n k * cell n j) := by
  have htwoPi : exactTrigonometry.twoPi = 2 * Real.pi := by
    rw [exactTrigonometry, Nat.cast_ofNat]
  rw [stdAddChar_cell_mul, Int.cast_natCast, htwoPi]
  rfl

theorem toComplex_cis_neg (k j : ℤ) :
    (exactTrigonometry.cis
        (-exactTrigonometry.twoPi * ((k - 1) * (j - 1) : ℤ) / (n : ℤ))).toComplex =
      conj (stdAddChar (cell n k * cell n j)) := by
  rw [← toComplex_cis, neg_mul, neg_div]
  exact Complex.ext (Real.cos_neg _) (Real.sin_neg _)

/-- The transform of an array, as an array. -/
noncomputable def transform (n : ℕ) [NeZero n] (f : ℤ → ℝ) (k : ℤ) : Cmplx ℝ :=
  .ofComplex (dft (ofCells n fun j => (f j : ℂ)) (cell n k))

/-- The real part of the inverse transform. -/
noncomputable def inverseTransform (n : ℕ) [NeZero n] (g : ℤ → Cmplx ℝ) (j : ℤ) : ℝ :=
  (dft.symm (ofCells n fun k => (g k).toComplex) (cell n j)).re

theorem addTerms_returns {x : Array1 ℝ} {xHat : Array1 (Cmplx ℝ)} {k : ℤ} (hx : x.size = n)
    (hxHat : xHat.size = n) (h1 : 1 ≤ k) (hk : k ≤ n) (hzero : xHat.elem k = ⟨0, 0⟩) :
    Returns (addTerms exactTrigonometry x n k xHat) (xHat.Written k (transform n x.elem k)) := by
  refine Returns.mono (returns_doLoop_sum
    (fun s : Array1 (Cmplx ℝ) => s.size = n ∧ ∀ l ≠ k, s.elem l = xHat.elem l)
    (fun s => (s.elem k).toComplex)
    (fun j => x.elem j * conj (stdAddChar (cell n k * cell n j))) (by omega)
    ⟨hxHat, fun _ _ => rfl⟩ fun j s h1' hj hs => ?_) fun s hs => ?_
  · simp (disch := omega) only [Array1.get_bind]
    refine (Array1.returns_set ⟨h1, by omega⟩).mono fun s' hs' => ⟨⟨hs'.size_eq.trans hs.1, ?_⟩, ?_⟩
    · exact fun l hl => (hs'.elsewhere l hl).trans (hs.2 l hl)
    · rw [hs'.at_index, Cmplx.toComplex_add, Cmplx.toComplex_mul, Cmplx.toComplex_ofReal,
        ← toComplex_cis_neg]
  · obtain ⟨⟨hsize, helsewhere⟩, hsum⟩ := hs
    refine ⟨hsize.trans hxHat.symm, ?_, helsewhere⟩
    rw [hzero, Cmplx.toComplex_zero, zero_add, ← dft_ofCells fun j => (x.elem j : ℂ)] at hsum
    rw [transform, ← hsum, Cmplx.ofComplex_toComplex]

/-- **What `simple_fft_forward` computes**: the discrete Fourier transform. -/
theorem simpleFftForward_tabulates (x : Array1 ℝ) (xHat : Array1 (Cmplx ℝ)) (hx : x.size = n)
    (hxHat : xHat.size = n) :
    Returns (simpleFftForward exactTrigonometry x xHat) fun s =>
      s.Tabulates n (transform n x.elem) := by
  rw [simpleFftForward, hx]
  refine (Array1.returns_doLoop_written (by omega) fun k s h1 hk hsize hzero => ?_).mono
    fun s hs => ⟨hs.1.trans hxHat, hs.2⟩
  exact addTerms_returns hx (hsize.trans hxHat) h1 hk hzero

theorem sumTerms_returns {xHat : Array1 (Cmplx ℝ)} (hxHat : xHat.size = n) (j : ℤ) :
    Returns (sumTerms exactTrigonometry xHat n j) fun sumVal =>
      sumVal.re / n = inverseTransform n xHat.elem j := by
  refine Returns.mono (returns_doLoop_sum (fun _ => True) Cmplx.toComplex
    (fun k => (xHat.elem k).toComplex * stdAddChar (cell n k * cell n j)) (by omega) trivial
    fun k s h1 hk _ => ?_) fun s hs => ?_
  · simp (disch := omega) only [Array1.get_bind]
    refine returns_some ⟨trivial, ?_⟩
    rw [Cmplx.toComplex_add, Cmplx.toComplex_mul, ← toComplex_cis]
  · rw [inverseTransform, invDFT_ofCells, ← zero_add (∑ k ∈ _, _), ← Cmplx.toComplex_zero, ← hs.2]
    exact (Complex.div_natCast_re s.toComplex n).symm

/-- **What `simple_fft_backward` computes**: the real part of the inverse transform. -/
theorem simpleFftBackward_tabulates (xHat : Array1 (Cmplx ℝ)) (x : Array1 ℝ) (hxHat : xHat.size = n)
    (hx : x.size = n) :
    Returns (simpleFftBackward exactTrigonometry xHat x) fun x' =>
      x'.Tabulates n (inverseTransform n xHat.elem) := by
  rw [simpleFftBackward, hx]
  refine Array1.returns_doLoop_tabulates hx fun j x' h1 hj => ?_
  obtain ⟨sumVal, hsum, hval⟩ := sumTerms_returns hxHat j
  rw [hsum, Int.cast_natCast, ← hval]
  rfl

/-- **The round trip in one dimension.** -/
theorem inverseTransform_transform (f : ℤ → ℝ) {j : ℤ} (h1 : 1 ≤ j) (hj : j ≤ n) :
    inverseTransform n (transform n f) j = f j := by
  have hspectrum : ofCells n (fun k => (transform n f k).toComplex) =
      dft (ofCells n fun j => (f j : ℂ)) :=
    ofCells_eq fun k _ _ => rfl
  rw [inverseTransform, hspectrum, LinearEquiv.symm_apply_apply, ofCells_cell _ h1 hj,
    Complex.ofReal_re]

theorem inverseTransform_re_transform (f : ℤ → ℝ) {j : ℤ} (h1 : 1 ≤ j) (hj : j ≤ n) :
    inverseTransform n (fun k => .ofReal (transform n f k).re) j =
      (f j + f (opposite n j)) / 2 := by
  have hopposite := opposite_mem h1 hj
  have hspectrum : ofCells n (fun k => (Cmplx.ofReal (transform n f k).re).toComplex) =
      dft fun z => (evenPart (ofCells n f) z : ℂ) :=
    ofCells_eq fun k _ _ => re_dft_ofReal (ofCells n f) (cell n k)
  rw [inverseTransform, hspectrum, LinearEquiv.symm_apply_apply, Complex.ofReal_re, evenPart,
    neg_cell, ofCells_cell f h1 hj, ofCells_cell f hopposite.1 hopposite.2, Nat.cast_ofNat]

theorem transform_congr {f g : ℤ → ℝ} (h : ∀ j : ℤ, 1 ≤ j → j ≤ n → f j = g j) (k : ℤ) :
    transform n f k = transform n g k := by
  rw [transform, transform, ofCells_congr fun j h1 hj => congrArg Complex.ofReal (h j h1 hj)]

theorem inverseTransform_congr {f g : ℤ → Cmplx ℝ} (h : ∀ k : ℤ, 1 ≤ k → k ≤ n → f k = g k)
    (j : ℤ) : inverseTransform n f j = inverseTransform n g j := by
  rw [inverseTransform, inverseTransform,
    ofCells_congr fun k h1 hk => congrArg Cmplx.toComplex (h k h1 hk)]

end Line

/-! ### Two dimensions -/

section Grid

variable {nx ny : ℕ} [NeZero nx] [NeZero ny]

/-- **What `simple_fft_2d_forward` computes.** -/
theorem simpleFft2dForward_tabulates {x : Array2 ℝ} {xHat : Array2 (Cmplx ℝ)} (hrows : x.rows = nx)
    (hcols : x.cols = ny) (hrows' : xHat.rows = nx) (hcols' : xHat.cols = ny)
    (allocated : ℤ → ℤ → Cmplx ℝ) :
    Returns (simpleFft2dForward exactTrigonometry allocated x xHat) fun s =>
      s.Tabulates nx ny fun i k =>
        transform ny (fun l => (transform nx (fun j => x.elem j l) i).re) k := by
  subst hrows hcols
  refine Returns.bind (P := fun temp : Array2 (Cmplx ℝ) =>
    temp.Tabulates x.rows x.cols fun i l => transform x.rows (fun j => x.elem j l) i) ?_
    fun temp htemp => ?_
  · refine Array2.returns_doLoop_columns rfl rfl fun l a h1 hl harows hacols => ?_
    refine ⟨_, simpleFftForward_tabulates ⟨x.rows, fun j => x.elem j l⟩
      ⟨a.rows, fun j => a.elem j l⟩ rfl harows, ?_⟩
    rw [Array2.column_eq h1 hl, Array2.column_eq h1 (by omega)]
    rfl
  · refine Array2.returns_doLoop_rows hrows' hcols' fun i a h1 hi harows hacols => ?_
    refine ⟨_, (simpleFftForward_tabulates ⟨temp.cols, fun l => (temp.elem i l).re⟩
      ⟨a.cols, a.elem i⟩ htemp.cols_eq hacols).mono fun s hs => hs.congr fun k _ _ =>
        transform_congr (fun l h1' hl => ?_) k, ?_⟩
    · exact congrArg Cmplx.re (htemp.elem_eq i l h1 hi h1' hl)
    · have hrow := htemp.rows_eq
      rw [Array2.row_eq h1 (by omega), Array2.row_eq h1 (by omega)]
      rfl

/-- **What `simple_fft_2d_backward` computes.** -/
theorem simpleFft2dBackward_tabulates {xHat : Array2 (Cmplx ℝ)} {x : Array2 ℝ}
    {g : ℤ → ℤ → Cmplx ℝ} (hxHat : xHat.Tabulates nx ny g) (hrows : x.rows = nx)
    (hcols : x.cols = ny) (allocated : ℤ → ℤ → Cmplx ℝ) (contents : ℤ → ℤ → ℝ) :
    Returns (simpleFft2dBackward exactTrigonometry allocated contents xHat x) fun x' =>
      x'.Tabulates nx ny fun j l =>
        inverseTransform nx (fun i => .ofReal (inverseTransform ny (g i) l)) j := by
  subst hrows hcols
  refine Returns.bind (P := fun temp : Array2 (Cmplx ℝ) =>
    temp.Tabulates x.rows x.cols fun i l => .ofReal (inverseTransform x.cols (g i) l)) ?_
    fun temp htemp => ?_
  · refine Array2.returns_doLoop_rows rfl rfl fun i a h1 hi harows hacols => ?_
    refine ⟨_, Returns.bind (simpleFftBackward_tabulates ⟨xHat.cols, xHat.elem i⟩
      (.allocate x.cols (contents i)) hxHat.cols_eq rfl) fun t ht =>
        returns_some (a := t.map Cmplx.ofReal) ⟨ht.size_eq, fun l h1' hl => ?_⟩, ?_⟩
    · refine congrArg Cmplx.ofReal ((ht.elem_eq l h1' hl).trans ?_)
      exact inverseTransform_congr (fun k h1'' hk => hxHat.elem_eq i k h1 hi h1'' hk) l
    · have hrow := hxHat.rows_eq
      rw [Array2.row_eq h1 (by omega), bind_assoc]
      rfl
  · refine Array2.returns_doLoop_columns rfl rfl fun l a h1 hl harows hacols => ?_
    refine ⟨_, (simpleFftBackward_tabulates ⟨temp.rows, fun i => temp.elem i l⟩
      ⟨a.rows, fun i => a.elem i l⟩ htemp.rows_eq harows).mono fun c hc => hc.congr fun j _ _ =>
        inverseTransform_congr (fun i h1' hi => htemp.elem_eq i l h1' hi h1 hl) j, ?_⟩
    have hcolumn := htemp.cols_eq
    rw [Array2.column_eq h1 (by omega), Array2.column_eq h1 (by omega)]
    rfl

variable (nx ny) in
/-- **The round trip** returns the even part of each column. -/
theorem roundTrip2d_tabulates {x y : Array2 ℝ} {xHat : Array2 (Cmplx ℝ)}
    (hx : x.rows = nx ∧ x.cols = ny) (hxHat : xHat.rows = nx ∧ xHat.cols = ny)
    (hy : y.rows = nx ∧ y.cols = ny) (allocated allocated' : ℤ → ℤ → Cmplx ℝ)
    (contents : ℤ → ℤ → ℝ) :
    Returns (roundTrip2d exactTrigonometry allocated allocated' contents xHat y x) fun x' =>
      x'.Tabulates nx ny fun i j => (x.elem i j + x.elem (opposite nx i) j) / 2 := by
  refine Returns.bind (simpleFft2dForward_tabulates hx.1 hx.2 hxHat.1 hxHat.2 allocated)
    fun s hs => ?_
  refine Returns.mono (simpleFft2dBackward_tabulates hs hy.1 hy.2 allocated' contents)
    fun x' hx' => hx'.congr fun i j h1 hi h1' hj => ?_
  -- The rows come back exactly, with the real parts that were transformed.
  simp only [inverseTransform_transform _ h1' hj]
  exact inverseTransform_re_transform (fun i => x.elem i j) h1 hi

end Grid

/-- Every column is symmetric, with its first element as a centre. -/
def ColumnsSymmetric (x : Array2 ℝ) (nx ny : ℕ) : Prop :=
  ∀ i j : ℤ, 2 ≤ i → i ≤ nx → 1 ≤ j → j ≤ ny → x.elem (nx + 2 - i) j = x.elem i j

/-- A symmetric field is its own even part, and no other field is. -/
theorem columnsSymmetric_iff {x x' : Array2 ℝ} {nx ny : ℕ}
    (h : x'.Tabulates nx ny fun i j => (x.elem i j + x.elem (opposite nx i) j) / 2) :
    x'.Tabulates nx ny x.elem ↔ ColumnsSymmetric x nx ny := by
  constructor
  · intro hx i j h2 hi h1' hj
    have heven := (hx.elem_eq i j (by omega) hi h1' hj).symm.trans
      (h.elem_eq i j (by omega) hi h1' hj)
    rw [opposite, if_neg (by omega)] at heven
    linarith
  · intro hsymm
    refine h.congr fun i j h1 hi h1' hj => ?_
    have heven : x.elem (opposite nx i) j = x.elem i j := by
      rw [opposite]
      split
      case isTrue hone => rw [hone]
      case isFalse hne => exact hsymm i j (by omega) hi h1' hj
    rw [heven, add_self_div_two]

/-- A field with 1 in the second row. -/
def secondRow (nx ny : ℕ) : Array2 ℝ := ⟨nx, ny, fun i _ => if i = 2 then 1 else 0⟩

theorem columnsSymmetric_secondRow_iff {nx ny : ℕ} (hny : 1 ≤ ny) :
    ColumnsSymmetric (secondRow nx ny) nx ny ↔ nx ≤ 2 := by
  constructor
  · intro hsymm
    by_contra! hlt
    have hlast := hsymm nx 1 (by omega) le_rfl le_rfl (by omega)
    simp only [secondRow] at hlast
    rw [if_pos (by omega), if_neg (by omega)] at hlast
    exact one_ne_zero hlast
  · intro hle i j h2 hi _ _
    rw [show (nx : ℤ) + 2 - i = i by omega]

/-- **The round trip is exact for symmetric fields only.** All fields are symmetric only if there
are at most two rows. -/
theorem roundTrip2d_eq_iff {nx ny : ℕ} (hnx : 1 ≤ nx) (hny : 1 ≤ ny) {xHat : Array2 (Cmplx ℝ)}
    {y : Array2 ℝ} (hxHat : xHat.rows = nx ∧ xHat.cols = ny) (hy : y.rows = nx ∧ y.cols = ny)
    (allocated allocated' : ℤ → ℤ → Cmplx ℝ) (contents : ℤ → ℤ → ℝ) :
    (∀ x : Array2 ℝ, x.rows = nx → x.cols = ny →
      Returns (roundTrip2d exactTrigonometry allocated allocated' contents xHat y x) fun x' =>
        (x'.Tabulates nx ny x.elem ↔ ColumnsSymmetric x nx ny)) ∧
    ((∀ x : Array2 ℝ, x.rows = nx → x.cols = ny →
      Returns (roundTrip2d exactTrigonometry allocated allocated' contents xHat y x) fun x' =>
        x'.Tabulates nx ny x.elem) ↔ nx ≤ 2) := by
  have : NeZero nx := ⟨by omega⟩
  have : NeZero ny := ⟨by omega⟩
  -- What holds of all fields follows from what holds of each.
  refine (fun hiff => ⟨hiff, fun hall => ?_, fun hle x hrows hcols => ?_⟩) fun x hrows hcols =>
    (roundTrip2d_tabulates nx ny ⟨hrows, hcols⟩ hxHat hy allocated allocated' contents).mono
      fun x' hx' => columnsSymmetric_iff hx'
  · obtain ⟨x', hx', heq⟩ := hall (secondRow nx ny) rfl rfl
    exact (columnsSymmetric_secondRow_iff hny).1 (((hiff _ rfl rfl).elim hx').1 heq)
  · refine (hiff x hrows hcols).mono fun x' hx' => hx'.2 fun i j h2 hi _ _ => ?_
    rw [show (nx : ℤ) + 2 - i = i by omega]

/-- With two rows, also a field that is not zero comes back. -/
theorem roundTrip2d_eq_iff_two_rows :
    Returns (roundTrip2d exactTrigonometry (fun _ _ => ⟨0, 0⟩) (fun _ _ => ⟨0, 0⟩) 0
      ⟨2, 1, fun _ _ => ⟨0, 0⟩⟩ (secondRow 2 1) (secondRow 2 1)) fun x' =>
        x'.Tabulates 2 1 (secondRow 2 1).elem :=
  (roundTrip2d_eq_iff (by decide) (by decide) ⟨rfl, rfl⟩ ⟨rfl, rfl⟩ _ _ _).2.2 le_rfl
    (secondRow 2 1) rfl rfl

/-- With three rows, the field `0, 1, 0` comes back as `0, 1/2, 1/2`. -/
theorem roundTrip2d_loses_odd_part :
    Returns (roundTrip2d exactTrigonometry (fun _ _ => ⟨0, 0⟩) (fun _ _ => ⟨0, 0⟩) 0
      ⟨3, 1, fun _ _ => ⟨0, 0⟩⟩ (secondRow 3 1) (secondRow 3 1)) fun x' =>
        (secondRow 3 1).elem 2 1 = 1 ∧ x'.elem 2 1 = 1 / 2 ∧
        (secondRow 3 1).elem 3 1 = 0 ∧ x'.elem 3 1 = 1 / 2 := by
  refine Returns.mono (roundTrip2d_tabulates 3 1 ⟨rfl, rfl⟩ ⟨rfl, rfl⟩ ⟨rfl, rfl⟩ _ _ _)
    fun x' hx' => ?_
  have hsecond := hx'.elem_eq 2 1 (by decide) (by decide) (by decide) (by decide)
  have hthird := hx'.elem_eq 3 1 (by decide) (by decide) (by decide) (by decide)
  norm_num [secondRow, opposite] at hsecond hthird ⊢
  exact ⟨hsecond, hthird⟩

end DistributedComputing
