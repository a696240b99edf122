import DistributedComputing.Foundations.ArrayAssignments
import DistributedComputing.Fortran.PowerIteration

/-!
# The QR decomposition

A model of `qr_decomposition`. It leaves the work to two routines of LAPACK, which are parameters
here (`QrLapack`): `dgeqrf` factorises a matrix in place, and `dorgqr` replaces the reflectors that
`dgeqrf` has left by the columns of their product. What is assumed of them is what LAPACK documents
(`QrLapack.HonoursContracts`), with the packed format written out (`orthogonalFactor`, `upper`).

LAPACK gets the address of an array and not its shape. A call with too few elements has no result
here (`DgeqrfArgs.Fits`, `DorgqrArgs.Fits`), and neither has an assignment between arrays of
different shapes.

## One array for two calls

`dgeqrf` needs an array of `m × n` elements and gets `A_copy(m, n)`. The routine then asks `dorgqr`
for all the `m` columns of `Q`, in the same array. For a square matrix this is right. A matrix with
more rows than columns has an array with less than `m × m` elements (`generateQ_of_tall`), and one
with more columns than rows has an array with another shape than `Q` (`generateQ_of_wide`).
-/

namespace DistributedComputing.Eigen

open Matrix ArrayLoops

variable {K : Type} {m n : ℕ}

/-! ### The calls of LAPACK -/

/-- The arguments of `dgeqrf`. -/
structure DgeqrfArgs (K : Type) where
  m : ℤ
  n : ℤ
  a : Array2 K
  lda : ℤ
  tau : Array1 K
  work : Array1 K
  lwork : ℤ

/-- The arguments of `dorgqr`, which is asked for `p` columns of the product of `k` reflectors. -/
structure DorgqrArgs (K : Type) where
  m : ℤ
  p : ℤ
  k : ℤ
  a : Array2 K
  lda : ℤ
  tau : Array1 K
  work : Array1 K
  lwork : ℤ

/-- The arrays have the elements that `dgeqrf` uses. -/
def DgeqrfArgs.Fits (x : DgeqrfArgs K) : Prop :=
  x.m * x.n ≤ x.a.rows * x.a.cols ∧ min x.m x.n ≤ x.tau.size ∧ x.lwork ≤ x.work.size

/-- The arrays have the elements that `dorgqr` uses. -/
def DorgqrArgs.Fits (x : DorgqrArgs K) : Prop :=
  x.m * x.p ≤ x.a.rows * x.a.cols ∧ x.k ≤ x.tau.size ∧ x.lwork ≤ x.work.size

instance (x : DgeqrfArgs K) : Decidable x.Fits := inferInstanceAs (Decidable (_ ∧ _ ∧ _))

instance (x : DorgqrArgs K) : Decidable x.Fits := inferInstanceAs (Decidable (_ ∧ _ ∧ _))

/-- What a call leaves in `A` and `TAU`, and `INFO`. -/
structure QrOutcome (K : Type) where
  a : Array2 K
  tau : Array1 K
  info : ℤ

/-- The two routines. -/
structure QrLapack (K : Type) where
  dgeqrf : DgeqrfArgs K → QrOutcome K
  dorgqr : DorgqrArgs K → QrOutcome K

namespace QrLapack

/-- A call of `dgeqrf`. -/
def callDgeqrf (L : QrLapack K) (x : DgeqrfArgs K) : Option (QrOutcome K) :=
  if x.Fits then some (L.dgeqrf x) else none

/-- A call of `dorgqr`. -/
def callDorgqr (L : QrLapack K) (x : DorgqrArgs K) : Option (QrOutcome K) :=
  if x.Fits then some (L.dorgqr x) else none

end QrLapack

/-- What the arrays contain that the routine allocates. -/
structure QrStorage (K : Type) where
  aCopy : ℤ → ℤ → K
  tau : ℤ → K
  work : ℤ → K
  work' : ℤ → K

/-- The arguments of the call of `dgeqrf`. -/
def factorArgs (storage : QrStorage K) (m n : ℤ) (aCopy : Array2 K) : DgeqrfArgs K where
  m := m
  n := n
  a := aCopy
  lda := m
  tau := .allocate (min m n) storage.tau
  work := .allocate (max 1 n) storage.work
  lwork := max 1 n

/-- The arguments of the call of `dorgqr`, in the array that `dgeqrf` has left. -/
def generateArgs (storage : QrStorage K) (m n : ℤ) (factored : QrOutcome K) : DorgqrArgs K where
  m := m
  p := m
  k := min m n
  a := factored.a
  lda := m
  tau := factored.tau
  work := .allocate (max 1 m) storage.work'
  lwork := max 1 m

/-- What `dgeqrf` makes of `A`. -/
def factorisation (L : QrLapack K) (storage : QrStorage K) (A : Array2 K) : QrOutcome K :=
  L.dgeqrf (factorArgs storage A.rows A.cols A)

/-- What `dorgqr` makes of that. -/
def generation (L : QrLapack K) (storage : QrStorage K) (A : Array2 K) : QrOutcome K :=
  L.dorgqr (generateArgs storage A.rows A.cols (factorisation L storage A))

theorem assign_copy (A : Array2 K) (contents : ℤ → ℤ → K) :
    (Array2.allocate A.rows A.cols contents).assign A = some A :=
  if_pos ⟨rfl, rfl⟩

/-- The arrays of the first call are as large as they have to be. -/
theorem fits_factorArgs (storage : QrStorage K) (A : Array2 K) :
    (factorArgs storage A.rows A.cols A).Fits :=
  ⟨le_rfl, Int.self_le_toNat _, Int.self_le_toNat _⟩

/-! ### What LAPACK computes -/

/-- The first `m` rows and `n` columns of an array. -/
def toMatrix (m n : ℕ) (a : Array2 K) : Matrix (Fin m) (Fin n) K :=
  fun i j => a.elem (i + 1) (j + 1)

theorem toMatrix_of_tabulates {a : Array2 K} {f : ℤ → ℤ → K} (h : a.Tabulates m n f)
    (i : Fin m) (j : Fin n) : toMatrix m n a i j = f (i + 1) (j + 1) :=
  h.elem_eq _ _ (by omega) (by omega) (by omega) (by omega)

variable [Field K]

/-- The part of an array above and on the diagonal. -/
def upper (m n : ℕ) (a : Array2 K) : Matrix (Fin m) (Fin n) K :=
  fun i j => if (i : ℕ) ≤ j then a.elem (i + 1) (j + 1) else 0

/-- The vector of a reflector: its leading elements are zero and one, and the others are stored
below the diagonal. -/
def reflectorVector (m : ℕ) (a : Array2 K) (i : ℕ) (r : Fin m) : K :=
  if (r : ℕ) < i then 0 else if (r : ℕ) = i then 1 else a.elem (r + 1) (i + 1)

/-- A reflector. -/
def reflector (m : ℕ) (a : Array2 K) (tau : Array1 K) (i : ℕ) : Matrix (Fin m) (Fin m) K :=
  1 - tau.elem (i + 1) • vecMulVec (reflectorVector m a i) (reflectorVector m a i)

/-- **The orthogonal factor**: the product of the first `k` reflectors. -/
def orthogonalFactor (m k : ℕ) (a : Array2 K) (tau : Array1 K) : Matrix (Fin m) (Fin m) K :=
  ((List.range k).map (reflector m a tau)).prod

/-- What `dgeqrf` leaves for the matrix in `a`: `R` above the diagonal, and below it the reflectors
of an orthogonal factor. -/
structure Factors (m n : ℕ) (a : Array2 K) (out : QrOutcome K) : Prop where
  orthogonal : (orthogonalFactor m (min m n) out.a out.tau)ᵀ *
    orthogonalFactor m (min m n) out.a out.tau = 1
  product : orthogonalFactor m (min m n) out.a out.tau * upper m n out.a = toMatrix m n a

/-- **What is assumed of LAPACK.** A routine changes elements of its arrays, and nothing about their
extents. If `dgeqrf` succeeds, it has factorised its matrix. If `dorgqr` succeeds, the first `p`
columns of its array are those of the product of the `k` reflectors. -/
structure QrLapack.HonoursContracts (L : QrLapack K) : Prop where
  dgeqrf_rows : ∀ x, (L.dgeqrf x).a.rows = x.a.rows
  dgeqrf_cols : ∀ x, (L.dgeqrf x).a.cols = x.a.cols
  dgeqrf_tau : ∀ x, (L.dgeqrf x).tau.size = x.tau.size
  dgeqrf_factors : ∀ (x : DgeqrfArgs K) (m n : ℕ), x.Fits → x.m = m → x.n = n → x.lda = m →
    x.a.rows = m → max 1 x.n ≤ x.lwork → (L.dgeqrf x).info = 0 → Factors m n x.a (L.dgeqrf x)
  dorgqr_rows : ∀ x, (L.dorgqr x).a.rows = x.a.rows
  dorgqr_cols : ∀ x, (L.dorgqr x).a.cols = x.a.cols
  dorgqr_columns : ∀ (x : DorgqrArgs K) (m k : ℕ), x.Fits → x.m = m → x.k = k → x.lda = m →
    x.a.rows = m → x.p ≤ x.m → x.k ≤ x.p → max 1 x.p ≤ x.lwork → (L.dorgqr x).info = 0 →
      ∀ i j : Fin m, (j : ℤ) < x.p →
        (L.dorgqr x).a.elem (i + 1) (j + 1) = orthogonalFactor m k x.a x.tau i j

/-! ### The routine -/

/-- What the routine returns. -/
structure QrResult (K : Type) where
  Q : Array2 K
  R : Array2 K
  status : EigenStatus

/-- The loops that copy the upper triangle. -/
def extractR (m n : ℤ) (aCopy R : Array2 K) : Option (Array2 K) :=
  doLoop 1 n (fun j R =>
    doLoop 1 (min j m) (fun i R => do R.set i j (← aCopy.get i j)) R) (R.fill 0)

/-- The end of `qr_decomposition`: the call of `dorgqr`, and `Q = A_copy` if it succeeds. -/
def generateQ (L : QrLapack K) (storage : QrStorage K) (m n : ℤ) (factored : QrOutcome K)
    (Q R : Array2 K) : Option (QrResult K) := do
  let generated ← L.callDorgqr (generateArgs storage m n factored)
  if generated.info = 0 then do
    let Q ← Q.assign generated.a
    some ⟨Q, R, .success⟩
  else some ⟨Q, R, .errLapack⟩

/-- `qr_decomposition` after the test of the extents. -/
def decompose (L : QrLapack K) (storage : QrStorage K) (A Q R : Array2 K) :
    Option (QrResult K) := do
  let m : ℤ := A.rows
  let n : ℤ := A.cols
  let aCopy ← (Array2.allocate m n storage.aCopy).assign A
  let factored ← L.callDgeqrf (factorArgs storage m n aCopy)
  if factored.info ≠ 0 then some ⟨Q, R, .errLapack⟩
  else do
    let R ← extractR m n factored.a R
    generateQ L storage m n factored Q R

/-- `qr_decomposition` -/
def qrDecomposition (L : QrLapack K) (storage : QrStorage K) (A Q R : Array2 K) :
    Option (QrResult K) :=
  if Q.rows ≠ A.rows ∨ Q.cols ≠ A.rows ∨ R.rows ≠ A.rows ∨ R.cols ≠ A.cols then
    some ⟨Q, R, .errSize⟩
  else decompose L storage A Q R

/-! ### The upper triangle -/

/-- What the loops leave in `R`. -/
theorem returns_extractR {aCopy R : Array2 K} (hrows : aCopy.rows = m) (hcols : aCopy.cols = n)
    (hR : R.rows = m) (hR' : R.cols = n) :
    Returns (extractR m n aCopy R) fun R =>
      R.Tabulates m n fun i j => if i ≤ j then aCopy.elem i j else 0 := by
  -- A column of the loop assigns the places on and above the diagonal.
  let S (j : ℤ) : Set (ℤ × ℤ) := ⋃ i ∈ Set.Icc 1 (min j (m : ℤ)), {(i, j)}
  have hloops : Returns (extractR m n aCopy R) (Array2.view.Fills (fun p => aCopy.elem p.1 p.2)
      (⋃ j ∈ Set.Icc 1 (n : ℤ), S j) (R.fill 0)) := by
    refine View.returns_doLoop fun j a h1 hj hshape => ?_
    refine View.returns_doLoop fun i a' h1' hi hshape' => ?_
    obtain ⟨ha, ha'⟩ := Prod.ext_iff.1 (hshape'.trans hshape)
    have ha : a'.rows = m := ha.trans hR
    have ha' : a'.cols = n := ha'.trans hR'
    rw [Array2.get_of_le h1' (by omega) h1 (by omega)]
    exact Array2.returns_set_fills h1' (by omega) h1 (by omega) rfl
  refine hloops.mono fun R' h => ⟨(Array2.rows_of_fills h).trans hR,
    (Array2.cols_of_fills h).trans hR', fun i j h1 hi h1' hj => ?_⟩
  have hplace : (i, j) ∈ Set.Icc 1 (R.rows : ℤ) ×ˢ Set.Icc 1 (R.cols : ℤ) := by
    rw [hR, hR']
    exact ⟨⟨h1, hi⟩, h1', hj⟩
  have hmem : (i, j) ∈ (⋃ j ∈ Set.Icc 1 (n : ℤ), S j) ↔ i ≤ j := by
    simp only [S, Set.mem_iUnion, Set.mem_Icc, Set.mem_singleton_iff, exists_prop]
    constructor
    · rintro ⟨_, _, _, hle, ⟨rfl, rfl⟩⟩
      exact hle.2.trans (min_le_left _ _)
    · intro hij
      exact ⟨j, ⟨h1', hj⟩, i, ⟨h1, le_min hij hi⟩, rfl⟩
  by_cases hij : i ≤ j
  · exact (h.on (i, j) hplace (hmem.2 hij)).trans (if_pos hij).symm
  · exact (h.off (i, j) hplace fun hS => hij (hmem.1 hS)).trans (if_neg hij).symm

/-! ### What the second call needs -/

section Calls

variable {L : QrLapack K} {storage : QrStorage K} {A Q R : Array2 K}

theorem factorisation_rows (hL : L.HonoursContracts) :
    (factorisation L storage A).a.rows = A.rows :=
  hL.dgeqrf_rows _

theorem factorisation_cols (hL : L.HonoursContracts) :
    (factorisation L storage A).a.cols = A.cols :=
  hL.dgeqrf_cols _

/-- **What the second call needs**: as many columns in the array as it has rows. The other arrays
are large enough for every shape. -/
theorem fits_generateArgs_iff (hL : L.HonoursContracts) (hA : 1 ≤ A.rows) :
    (generateArgs storage A.rows A.cols (factorisation L storage A)).Fits ↔ A.rows ≤ A.cols := by
  have htau : (factorisation L storage A).tau.size = (min (A.rows : ℤ) A.cols).toNat :=
    hL.dgeqrf_tau _
  have hpos : (0 : ℤ) < A.rows := by omega
  calc (generateArgs storage A.rows A.cols (factorisation L storage A)).Fits
      ↔ (A.rows : ℤ) * A.rows ≤ A.rows * A.cols := by
        simp only [DorgqrArgs.Fits, generateArgs, factorisation_rows hL,
          factorisation_cols hL, htau, Array1.allocate, Int.self_le_toNat, and_true]
    _ ↔ A.rows ≤ A.cols := by
        rw [mul_le_mul_iff_of_pos_left hpos, Nat.cast_le]

theorem qrDecomposition_eq (hQ : Q.rows = A.rows) (hQ' : Q.cols = A.rows) (hR : R.rows = A.rows)
    (hR' : R.cols = A.cols) :
    qrDecomposition L storage A Q R =
      if (factorisation L storage A).info ≠ 0 then some ⟨Q, R, .errLapack⟩
      else extractR A.rows A.cols (factorisation L storage A).a R >>= fun R =>
        generateQ L storage A.rows A.cols (factorisation L storage A) Q R := by
  rw [qrDecomposition, if_neg (by simp only [hQ, hQ', hR, hR', ne_eq, not_true_eq_false, or_self,
    not_false_eq_true]), decompose]
  simp only [assign_copy, Option.bind_eq_bind, Option.bind_some, QrLapack.callDgeqrf,
    if_pos (fits_factorArgs storage A)]
  rfl

/-- **If the factorisation succeeds**, `R` is extracted and the second call is made. -/
theorem exists_extracted (hL : L.HonoursContracts) (hQ : Q.rows = A.rows) (hQ' : Q.cols = A.rows)
    (hR : R.rows = A.rows) (hR' : R.cols = A.cols)
    (hinfo : (factorisation L storage A).info = 0) :
    ∃ R' : Array2 K,
      (R'.Tabulates A.rows A.cols fun i j =>
        if i ≤ j then (factorisation L storage A).a.elem i j else 0) ∧
      qrDecomposition L storage A Q R =
        generateQ L storage A.rows A.cols (factorisation L storage A) Q R' := by
  have hrows : (factorisation L storage A).a.rows = A.rows := factorisation_rows hL
  obtain ⟨R', hextract, htab⟩ := returns_extractR hrows (factorisation_cols hL) hR hR'
  refine ⟨R', htab, ?_⟩
  rw [qrDecomposition_eq hQ hQ' hR hR', if_neg (not_not_intro hinfo), hextract,
    Option.bind_eq_bind, Option.bind_some]

/-- **A matrix with more rows than columns**: the second call writes past the array. -/
theorem generateQ_of_tall (hL : L.HonoursContracts) (hA : 1 ≤ A.rows) (h : A.cols < A.rows) :
    generateQ L storage A.rows A.cols (factorisation L storage A) Q R = none := by
  rw [generateQ, QrLapack.callDorgqr,
    if_neg fun hfits => h.not_ge ((fits_generateArgs_iff hL hA).1 hfits)]
  rfl

theorem generateQ_of_le (hL : L.HonoursContracts) (hA : 1 ≤ A.rows) (h : A.rows ≤ A.cols) :
    generateQ L storage A.rows A.cols (factorisation L storage A) Q R =
      if (generation L storage A).info = 0 then
        Q.assign (generation L storage A).a >>= fun Q => some ⟨Q, R, .success⟩
      else some ⟨Q, R, .errLapack⟩ := by
  rw [generateQ, QrLapack.callDorgqr, if_pos ((fits_generateArgs_iff hL hA).2 h)]
  rfl

theorem generation_rows (hL : L.HonoursContracts) : (generation L storage A).a.rows = A.rows :=
  (hL.dorgqr_rows _).trans (factorisation_rows hL)

theorem generation_cols (hL : L.HonoursContracts) : (generation L storage A).a.cols = A.cols :=
  (hL.dorgqr_cols _).trans (factorisation_cols hL)

/-- **A matrix with more columns than rows**: the array that the second call leaves does not have
the shape of `Q`. -/
theorem generateQ_of_wide (hL : L.HonoursContracts) (hA : 1 ≤ A.rows) (h : A.rows < A.cols)
    (hQ' : Q.cols = A.rows) (hinfo : (generation L storage A).info = 0) :
    generateQ L storage A.rows A.cols (factorisation L storage A) Q R = none := by
  have hassign : Q.assign (generation L storage A).a = none := by
    refine if_neg fun hshape => ?_
    have hcols := hshape.2
    rw [generation_cols hL, hQ'] at hcols
    exact h.ne' hcols
  rw [generateQ_of_le hL hA h.le, if_pos hinfo, hassign]
  rfl

end Calls

/-! ### Correctness -/

/-- **What a decomposition is**: `R` is upper trapezoidal, `Q` is orthogonal, and their product is
`A`. -/
structure Decomposes (A Q R : Array2 K) : Prop where
  trapezoidal : ∀ (i : Fin A.rows) (j : Fin A.cols), (j : ℕ) < i →
    toMatrix A.rows A.cols R i j = 0
  orthogonal : (toMatrix A.rows A.rows Q)ᵀ * toMatrix A.rows A.rows Q = 1
  product : toMatrix A.rows A.rows Q * toMatrix A.rows A.cols R = toMatrix A.rows A.cols A

section Correctness

variable {L : QrLapack K} {storage : QrStorage K} {A Q R : Array2 K}

/-- What the loops leave in `R` is the upper part of what `dgeqrf` has left. -/
theorem toMatrix_extracted {R : Array2 K} (hR : R.Tabulates m n fun i j =>
      if i ≤ j then (factorisation L storage A).a.elem i j else 0) :
    toMatrix m n R = upper m n (factorisation L storage A).a := by
  ext i j
  rw [toMatrix_of_tabulates hR, upper]
  simp only [add_le_add_iff_right, Nat.cast_le]

/-- **The square case.** -/
theorem decomposes_of_square (hL : L.HonoursContracts) (hsquare : A.rows = A.cols)
    (hA : 1 ≤ A.rows) (hinfo : (factorisation L storage A).info = 0)
    (hinfo' : (generation L storage A).info = 0)
    (hR : R.Tabulates A.rows A.cols fun i j =>
      if i ≤ j then (factorisation L storage A).a.elem i j else 0)
    (hQ : Q.Tabulates A.rows A.rows (generation L storage A).a.elem) : Decomposes A Q R := by
  have hupper := toMatrix_extracted hR
  have hfactors : Factors A.rows A.cols A (factorisation L storage A) :=
    hL.dgeqrf_factors _ _ _ (fits_factorArgs storage A) rfl rfl rfl rfl le_rfl hinfo
  have hfactor : toMatrix A.rows A.rows Q = orthogonalFactor A.rows (min A.rows A.cols)
      (factorisation L storage A).a (factorisation L storage A).tau := by
    ext i j
    rw [toMatrix_of_tabulates hQ]
    exact hL.dorgqr_columns _ A.rows (min A.rows A.cols)
      ((fits_generateArgs_iff hL hA).2 hsquare.le) rfl (Nat.cast_min _ _).symm rfl
      (factorisation_rows hL) le_rfl (min_le_left _ _) le_rfl hinfo' i j (Int.ofNat_lt.2 j.isLt)
  refine ⟨fun i j hij => ?_, ?_, ?_⟩
  · rw [hupper]
    exact if_neg hij.not_ge
  · rw [hfactor]
    exact hfactors.orthogonal
  · rw [hfactor, hupper]
    exact hfactors.product

/-- On success, the result is a decomposition. -/
def Correct (A : Array2 K) (out : QrResult K) : Prop :=
  out.status = .success → Decomposes A out.Q out.R

theorem correct_of_error (A Q R : Array2 K) : Correct A ⟨Q, R, .errLapack⟩ :=
  fun h => EigenStatus.noConfusion h

/-- **A square matrix** is decomposed. -/
theorem returns_generateQ_of_square (hL : L.HonoursContracts) (hsquare : A.rows = A.cols)
    (hA : 1 ≤ A.rows) (hQ : Q.rows = A.rows) (hQ' : Q.cols = A.rows)
    (hinfo : (factorisation L storage A).info = 0)
    (hR : R.Tabulates A.rows A.cols fun i j =>
      if i ≤ j then (factorisation L storage A).a.elem i j else 0) :
    Returns (generateQ L storage A.rows A.cols (factorisation L storage A) Q R) (Correct A) := by
  rw [generateQ_of_le hL hA hsquare.le]
  split_ifs with hinfo'
  · have hassign := Array2.returns_assign (a := Q) (b := (generation L storage A).a)
      ((generation_rows hL).trans hQ.symm)
      ((generation_cols hL).trans (hsquare.symm.trans hQ'.symm))
    rw [generation_rows hL, generation_cols hL, ← hsquare] at hassign
    refine hassign.bind fun Q' hQ' => returns_some fun _ => ?_
    exact decomposes_of_square hL hsquare hA hinfo hinfo' hR hQ'
  · exact returns_some (correct_of_error A Q R)

/-- **A matrix with more columns than rows** is only rejected, if `dorgqr` reports an error. -/
theorem returns_generateQ_of_wide_iff (hL : L.HonoursContracts) (hwide : A.rows < A.cols)
    (hA : 1 ≤ A.rows) (hQ' : Q.cols = A.rows) :
    Returns (generateQ L storage A.rows A.cols (factorisation L storage A) Q R) (Correct A) ↔
      (generation L storage A).info ≠ 0 := by
  by_cases hinfo' : (generation L storage A).info = 0
  · rw [generateQ_of_wide hL hA hwide hQ' hinfo']
    exact iff_of_false not_returns_none (not_not_intro hinfo')
  · rw [generateQ_of_le hL hA hwide.le, if_neg hinfo']
    exact iff_of_true (returns_some (correct_of_error A Q R)) hinfo'

/-- **When `qr_decomposition` is correct.** The calls and the assignment are in bounds, and success
means a decomposition, exactly if the matrix is square or LAPACK reports an error in time: `dgeqrf`
before the second call, or `dorgqr` before the assignment to `Q`. -/
theorem qrDecomposition_correct_iff (hL : L.HonoursContracts) (storage : QrStorage K)
    (A Q R : Array2 K) (hA : 1 ≤ A.rows) (hQ : Q.rows = A.rows) (hQ' : Q.cols = A.rows)
    (hR : R.rows = A.rows) (hR' : R.cols = A.cols) :
    Returns (qrDecomposition L storage A Q R) (Correct A) ↔
      A.rows = A.cols ∨ (factorisation L storage A).info ≠ 0 ∨
        A.rows < A.cols ∧ (generation L storage A).info ≠ 0 := by
  by_cases hinfo : (factorisation L storage A).info = 0
  · obtain ⟨R', htab, heq⟩ := exists_extracted hL hQ hQ' hR hR' hinfo
    rw [heq]
    rcases lt_trichotomy A.rows A.cols with hwide | hsquare | htall
    · refine (returns_generateQ_of_wide_iff hL hwide hA hQ').trans ?_
      simp only [hwide, hwide.ne, hinfo, true_and, false_or, ne_eq, not_true_eq_false]
    · exact iff_of_true (returns_generateQ_of_square hL hsquare hA hQ hQ' hinfo htab)
        (.inl hsquare)
    · rw [generateQ_of_tall hL hA htall]
      refine iff_of_false not_returns_none ?_
      simp only [htall.ne', htall.not_gt, hinfo, false_and, or_self, ne_eq, not_true_eq_false,
        not_false_eq_true]
  · rw [qrDecomposition_eq hQ hQ' hR hR', if_pos hinfo]
    exact iff_of_true (returns_some (correct_of_error A Q R)) (.inr (.inl hinfo))

end Correctness

/-! ### Shapes that are not square -/

/-- The result of a call of `dgeqrf` that succeeds. -/
structure Succeeds (x : DgeqrfArgs K) (out : QrOutcome K) : Prop where
  rows_eq : out.a.rows = x.a.rows
  cols_eq : out.a.cols = x.a.cols
  tau_eq : out.tau.size = x.tau.size
  info_eq : out.info = 0
  factors : Factors x.m.toNat x.n.toNat x.a out

open Classical in
/-- **A LAPACK that honours its contracts**: `dgeqrf` fails only if a matrix has no factorisation,
and `dorgqr` multiplies the reflectors. -/
noncomputable def exactLapack : QrLapack K where
  dgeqrf x := if h : ∃ out, Succeeds x out then h.choose else ⟨x.a, x.tau, 1⟩
  dorgqr x :=
    { a := ⟨x.a.rows, x.a.cols, fun i j =>
        if h : (i - 1).toNat < x.m.toNat ∧ (j - 1).toNat < x.m.toNat then
          orthogonalFactor x.m.toNat x.k.toNat x.a x.tau ⟨_, h.1⟩ ⟨_, h.2⟩
        else 0⟩
      tau := x.tau
      info := 0 }

theorem exactLapack_succeeds {x : DgeqrfArgs K} (h : ∃ out, Succeeds x out) :
    Succeeds x (exactLapack.dgeqrf x) := by
  have hchoose : exactLapack.dgeqrf x = h.choose := dif_pos h
  rw [hchoose]
  exact h.choose_spec

theorem exactLapack_dgeqrf (x : DgeqrfArgs K) :
    Succeeds x (exactLapack.dgeqrf x) ∨ exactLapack.dgeqrf x = ⟨x.a, x.tau, 1⟩ := by
  by_cases h : ∃ out, Succeeds x out
  · exact .inl (exactLapack_succeeds h)
  · exact .inr (dif_neg h)

theorem exactLapack_honoursContracts : (exactLapack : QrLapack K).HonoursContracts where
  dgeqrf_rows x := by
    rcases exactLapack_dgeqrf x with h | h
    · exact h.rows_eq
    · rw [h]
  dgeqrf_cols x := by
    rcases exactLapack_dgeqrf x with h | h
    · exact h.cols_eq
    · rw [h]
  dgeqrf_tau x := by
    rcases exactLapack_dgeqrf x with h | h
    · exact h.tau_eq
    · rw [h]
  dgeqrf_factors x m n _ hm hn _ _ _ hinfo := by
    rcases exactLapack_dgeqrf x with h | h
    · have hfactors := h.factors
      rwa [hm, hn, Int.toNat_natCast, Int.toNat_natCast] at hfactors
    · rw [h] at hinfo
      exact absurd hinfo one_ne_zero
  dorgqr_rows _ := rfl
  dorgqr_cols _ := rfl
  dorgqr_columns x m k _ hm hk _ _ _ _ _ _ i j _ := by
    obtain ⟨xm, p, xk, a, lda, tau, work, lwork⟩ := x
    subst hm hk
    refine (dif_pos ?_).trans ?_
    · simp
    · simp

/-- Without reflections, the orthogonal factor is the identity. -/
theorem orthogonalFactor_of_zero {a : Array2 K} {tau : Array1 K} (h : ∀ i, tau.elem i = 0)
    (m k : ℕ) : orthogonalFactor m k a tau = 1 := by
  refine List.prod_eq_one fun M hM => ?_
  obtain ⟨i, -, rfl⟩ := List.mem_map.1 hM
  rw [reflector, h, zero_smul, sub_zero]

theorem exactLapack_info {A : Array2 K} (storage : QrStorage K)
    (h : upper A.rows A.cols A = toMatrix A.rows A.cols A) :
    (factorisation exactLapack storage A).info = 0 := by
  let x := factorArgs storage A.rows A.cols A
  have hexists : ∃ out, Succeeds x out := by
    refine ⟨⟨A, x.tau.fill 0, 0⟩, rfl, rfl, rfl, rfl, ?_, ?_⟩
    · rw [orthogonalFactor_of_zero fun _ => rfl, transpose_one, one_mul]
    · rw [orthogonalFactor_of_zero fun _ => rfl, Matrix.one_mul]
      exact h
  exact (exactLapack_succeeds hexists).info_eq

/-- The matrix with ones in its first row and zeros elsewhere. -/
def unitArray (rows cols : ℕ) : Array2 ℚ := ⟨rows, cols, fun i _ => if i = 1 then 1 else 0⟩

theorem upper_unitArray (rows cols : ℕ) :
    upper rows cols (unitArray rows cols) = toMatrix rows cols (unitArray rows cols) := by
  ext i j
  by_cases hij : (i : ℕ) ≤ j
  · exact if_pos hij
  · refine (if_neg hij).trans (if_neg ?_).symm
    omega

/-- Arrays that contain zeros when they are allocated. -/
def zeroStorage : QrStorage ℚ := ⟨fun _ _ => 0, fun _ => 0, fun _ => 0, fun _ => 0⟩

theorem qrDecomposition_correct_iff_two_by_two :
    (factorisation exactLapack zeroStorage (unitArray 2 2)).info = 0 ∧
      (generation exactLapack zeroStorage (unitArray 2 2)).info = 0 ∧
      Returns (qrDecomposition exactLapack zeroStorage (unitArray 2 2) (.filled 2 2 0)
        (.filled 2 2 0)) (Correct (unitArray 2 2)) :=
  ⟨exactLapack_info zeroStorage (A := unitArray 2 2) (upper_unitArray 2 2), rfl,
    (qrDecomposition_correct_iff exactLapack_honoursContracts zeroStorage (unitArray 2 2)
      (.filled 2 2 0) (.filled 2 2 0) (by decide) rfl rfl rfl rfl).2 (.inl rfl)⟩

/-- **A column and a row of two elements.** For the column, `dorgqr` is asked for four elements of
an array of two; for the row, an array of two elements is assigned to a `Q` of one. -/
theorem qrDecomposition_out_of_bounds :
    (exactLapack : QrLapack ℚ).HonoursContracts ∧
      qrDecomposition exactLapack zeroStorage (unitArray 2 1) (.filled 2 2 0) (.filled 2 1 0) =
        none ∧
      qrDecomposition exactLapack zeroStorage (unitArray 1 2) (.filled 1 1 0) (.filled 1 2 0) =
        none := by
  have hL := exactLapack_honoursContracts (K := ℚ)
  refine ⟨hL, ?_, ?_⟩
  · obtain ⟨R, -, hR⟩ := exists_extracted (A := unitArray 2 1) (Q := .filled 2 2 0)
      (R := .filled 2 1 0) hL rfl rfl rfl rfl (exactLapack_info zeroStorage (upper_unitArray 2 1))
    rw [hR]
    exact generateQ_of_tall hL (by decide) (by decide)
  · obtain ⟨R, -, hR⟩ := exists_extracted (A := unitArray 1 2) (Q := .filled 1 1 0)
      (R := .filled 1 2 0) hL rfl rfl rfl rfl (exactLapack_info zeroStorage (upper_unitArray 1 2))
    rw [hR]
    exact generateQ_of_wide hL (by decide) (by decide) rfl rfl

end DistributedComputing.Eigen
