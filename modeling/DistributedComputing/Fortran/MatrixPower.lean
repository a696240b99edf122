import DistributedComputing.Fortran.DenseMatrix

/-!
# Powers of a dense matrix

A model of `matrix_matrix_mult` and `matrix_power`. The product of two matrices is left to `dgemm`,
which is a parameter here; of its behaviour, only what it computes for square matrices of one extent
is assumed (`ComputesProduct`).

`matrix_power` squares and multiplies. Its loop is correct in any monoid, whether or not it is
commutative, since the accumulator is only ever multiplied by powers of one element: `accumulator *
base ^ power` does not change (`powerRound_value`).
-/

namespace DistributedComputing

open Matrix

variable {K : Type} [Field K] {n m : ℕ}

/-! ### `dgemm` -/

/-- The values of `TRANSA` and `TRANSB` that are used. -/
inductive Transposition
  | N
  | T
  deriving DecidableEq, Repr

/-- The arguments of `dgemm`. -/
structure DgemmArgs (K : Type) (rowsA colsA rowsB colsB rowsC colsC : ℕ) where
  transA : Transposition
  transB : Transposition
  m : ℕ
  n : ℕ
  k : ℕ
  alpha : K
  a : Matrix (Fin rowsA) (Fin colsA) K
  lda : ℕ
  b : Matrix (Fin rowsB) (Fin colsB) K
  ldb : ℕ
  beta : K
  c : Matrix (Fin rowsC) (Fin colsC) K
  ldc : ℕ

/-- `op(X)` in the description of `dgemm`, for a square `X`. -/
def Transposition.op (t : Transposition) (X : Matrix (Fin n) (Fin n) K) :
    Matrix (Fin n) (Fin n) K :=
  match t with
  | N => X
  | T => X.transpose

/-- What `dgemm` is assumed to do with square matrices of one extent: it leaves
`alpha op(A) op(B) + beta C` in `C`. -/
def ComputesProduct (dgemm : DgemmArgs K n n n n n n → Matrix (Fin n) (Fin n) K) : Prop :=
  ∀ args : DgemmArgs K n n n n n n, args.m = n → args.n = n → args.k = n →
    args.lda = n → args.ldb = n → args.ldc = n →
      dgemm args = args.alpha • (args.transA.op args.a * args.transB.op args.b) +
        args.beta • args.c

/-- The character for an optional `logical` argument. -/
def transChar (trans : Option Bool) : Transposition :=
  match trans with
  | some true => .T
  | _ => .N

/-- `matrix_matrix_mult`: what it leaves in `C`. -/
def matrixMatrixMult {rowsA colsA rowsB colsB rowsC colsC : ℕ}
    (dgemm : DgemmArgs K rowsA colsA rowsB colsB rowsC colsC →
      Matrix (Fin rowsC) (Fin colsC) K)
    (A : Matrix (Fin rowsA) (Fin colsA) K) (B : Matrix (Fin rowsB) (Fin colsB) K)
    (C : Matrix (Fin rowsC) (Fin colsC) K) (alpha beta : Option K) (transA transB : Option Bool) :
    Matrix (Fin rowsC) (Fin colsC) K :=
  dgemm
    { transA := transChar transA
      transB := transChar transB
      m := if transChar transA = .N then rowsA else colsA
      n := if transChar transB = .N then colsB else rowsB
      k := if transChar transA = .N then colsA else rowsA
      alpha := alpha.getD 1
      a := A
      lda := rowsA
      b := B
      ldb := rowsB
      beta := beta.getD 0
      c := C
      ldc := rowsC }

/-- For square matrices, all the extents that `matrix_matrix_mult` computes are that of the
matrices. -/
theorem matrixMatrixMult_square {dgemm : DgemmArgs K n n n n n n → Matrix (Fin n) (Fin n) K}
    (h : ComputesProduct dgemm) (A B C : Matrix (Fin n) (Fin n) K) (alpha beta : Option K)
    (transA transB : Option Bool) :
    matrixMatrixMult dgemm A B C alpha beta transA transB =
      alpha.getD 1 • ((transChar transA).op A * (transChar transB).op B) + beta.getD 0 • C :=
  h _ (ite_self _) (ite_self _) (ite_self _) rfl rfl rfl

theorem matrixMatrixMult_default {dgemm : DgemmArgs K n n n n n n → Matrix (Fin n) (Fin n) K}
    (h : ComputesProduct dgemm) (A B C : Matrix (Fin n) (Fin n) K) :
    matrixMatrixMult dgemm A B C none none none none = A * B := by
  rw [matrixMatrixMult_square h, Option.getD_none, Option.getD_none, one_smul, zero_smul, add_zero]
  rfl

/-! ### The loop -/

/-- The loop that writes ones on the diagonal. -/
def setDiagonal (Ak : Matrix (Fin n) (Fin n) K) : Matrix (Fin n) (Fin n) K :=
  (List.finRange n).foldl (fun M i => M.updateRow i (Function.update (M i) i 1)) Ak

/-- The variables of the loop of `matrix_power`. -/
structure PowerState (K : Type) (n : ℕ) where
  ak : Matrix (Fin n) (Fin n) K
  base : Matrix (Fin n) (Fin n) K
  power : ℤ

/-- A round of the loop. `temp` holds the operand that the product overwrites. -/
def powerRound (dgemm : DgemmArgs K n n n n n n → Matrix (Fin n) (Fin n) K) (s : PowerState K n) :
    PowerState K n where
  ak :=
    if s.power.tmod 2 = 1 then matrixMatrixMult dgemm s.ak s.base s.ak none none none none
    else s.ak
  base :=
    if 1 < s.power then matrixMatrixMult dgemm s.base s.base s.base none none none none
    else s.base
  power := s.power.tdiv 2

/-- The loop of `matrix_power`. -/
def powerLoop (dgemm : DgemmArgs K n n n n n n → Matrix (Fin n) (Fin n) K) (s : PowerState K n) :
    PowerState K n :=
  if 0 < s.power then powerLoop dgemm (powerRound dgemm s) else s
  termination_by s.power.toNat
  decreasing_by
    show (s.power.tdiv 2).toNat < s.power.toNat
    rw [Int.tdiv_eq_ediv_of_nonneg (by omega)]
    omega

/-- `matrix_power`, after the test of the extents and of the exponent. -/
def squarePower (dgemm : DgemmArgs K n n n n n n → Matrix (Fin n) (Fin n) K)
    (A : Matrix (Fin n) (Fin n) K) (k : ℤ) : Matrix (Fin n) (Fin n) K :=
  if k = 0 then setDiagonal 0
  else (powerLoop dgemm { ak := setDiagonal 0, base := A, power := k }).ak

/-- `matrix_power` -/
def matrixPower (dgemm : DgemmArgs K n n n n n n → Matrix (Fin n) (Fin n) K)
    (A : Matrix (Fin n) (Fin m) K) (k : ℤ) : Matrix (Fin n) (Fin m) K × MatStatus :=
  if h : m = n then
    if k < 0 then (0, .size)
    else ((squarePower dgemm (A.submatrix id (Fin.cast h.symm)) k).submatrix id (Fin.cast h),
      .success)
  else (0, .size)

/-! ### What the loop computes -/

theorem foldl_setDiagonal (l : List (Fin n)) (M : Matrix (Fin n) (Fin n) K) (i j : Fin n) :
    l.foldl (fun M i => M.updateRow i (Function.update (M i) i 1)) M i j =
      if i = j ∧ i ∈ l then 1 else M i j := by
  induction l generalizing M with
  | nil => rw [List.foldl_nil, if_neg fun h => List.not_mem_nil h.2]
  | cons d l ih =>
    rw [List.foldl_cons, ih, updateRow_apply, Function.update_apply]
    grind

theorem setDiagonal_zero : setDiagonal (0 : Matrix (Fin n) (Fin n) K) = 1 := by
  ext i j
  rw [setDiagonal, foldl_setDiagonal, one_apply]
  simp

/-- An exponent, taken apart at its last binary digit. -/
theorem mul_pow_half {M : Type} [Monoid M] (a b : M) (p : ℕ) :
    (if p % 2 = 1 then a * b else a) * (b * b) ^ (p / 2) = a * b ^ p := by
  rw [← pow_two, ← pow_mul]
  split
  · next hodd => rw [mul_assoc, ← pow_succ', show 2 * (p / 2) + 1 = p by omega]
  · next heven => rw [show 2 * (p / 2) = p by omega]

/-- The product that the loop works on. -/
def PowerState.value (s : PowerState K n) : Matrix (Fin n) (Fin n) K :=
  s.ak * s.base ^ s.power.toNat

section Loop

variable {dgemm : DgemmArgs K n n n n n n → Matrix (Fin n) (Fin n) K} (h : ComputesProduct dgemm)

include h

/-- **The invariant of the loop.** The factor that an odd exponent gives off is multiplied from the
right, where the powers of `base` that are still to come commute with it. -/
theorem powerRound_value {s : PowerState K n} (hpos : 0 < s.power) :
    (powerRound dgemm s).value = s.value := by
  obtain ⟨ak, base, power⟩ := s
  obtain ⟨p, rfl⟩ := Int.eq_ofNat_of_zero_le (show 0 ≤ power from hpos.le)
  have hmod : ((p : ℤ).tmod 2 = 1) = (p % 2 = 1) := by
    rw [Int.tmod_eq_emod_of_nonneg (by omega)]
    exact propext (by omega)
  have hdiv : ((p : ℤ).tdiv 2).toNat = p / 2 := by
    rw [Int.tdiv_eq_ediv_of_nonneg (by omega)]
    omega
  -- Where the squaring is left out, the base is not needed any more.
  have hbase : (if 1 < (p : ℤ) then base * base else base) ^ (p / 2) = (base * base) ^ (p / 2) := by
    split
    · rfl
    · next hle => rw [show p / 2 = 0 by omega, pow_zero, pow_zero]
  rw [PowerState.value, PowerState.value, powerRound]
  simp only [matrixMatrixMult_default h, hmod, hdiv, hbase, Int.toNat_natCast]
  exact mul_pow_half ak base p

theorem powerLoop_ak (s : PowerState K n) (hs : 0 ≤ s.power) :
    (powerLoop dgemm s).ak = s.value := by
  fun_induction powerLoop dgemm s with
  | case1 s hpos ih =>
    rw [ih, powerRound_value h hpos]
    exact Int.tdiv_nonneg hs (by decide)
  | case2 s hpos =>
    rw [PowerState.value, show s.power.toNat = 0 by omega, pow_zero, mul_one]

theorem squarePower_eq (A : Matrix (Fin n) (Fin n) K) (k : ℕ) : squarePower dgemm A k = A ^ k := by
  rw [squarePower, setDiagonal_zero]
  split
  · next hk => rw [Int.natCast_eq_zero.1 hk, pow_zero]
  · rw [powerLoop_ak h _ (Int.natCast_nonneg k), PowerState.value, one_mul, Int.toNat_natCast]

theorem matrixPower_square (A : Matrix (Fin n) (Fin n) K) (k : ℕ) :
    matrixPower dgemm A k = (A ^ k, .success) := by
  have hnonneg : ¬ (k : ℤ) < 0 := by omega
  rw [matrixPower, dif_pos rfl, if_neg hnonneg]
  exact congrArg (·, MatStatus.success) (squarePower_eq h A k)

/-- **`matrix_power` is the power**, and so it takes sums of exponents to products. -/
theorem matrixPower_eq_pow (A : Matrix (Fin n) (Fin n) K) :
    (∀ k : ℕ, matrixPower dgemm A k = (A ^ k, .success)) ∧
      ∀ j k : ℕ, (matrixPower dgemm A (j + k : ℕ)).1 =
        (matrixPower dgemm A j).1 * (matrixPower dgemm A k).1 := by
  refine ⟨matrixPower_square h A, fun j k => ?_⟩
  rw [matrixPower_square h, matrixPower_square h, matrixPower_square h]
  exact pow_add A j k

end Loop

/-- A `dgemm` for square matrices. -/
def squareDgemm (args : DgemmArgs K n n n n n n) : Matrix (Fin n) (Fin n) K :=
  args.alpha • (args.transA.op args.a * args.transB.op args.b) + args.beta • args.c

theorem squareDgemm_computesProduct : ComputesProduct (squareDgemm (K := K) (n := n)) :=
  fun _ _ _ _ _ _ _ => rfl

/-- The fifth power of a triangular matrix: two rounds multiply, and two square. -/
theorem matrixPower_eq_pow_five :
    matrixPower squareDgemm !![(1 : ℚ), 1; 0, 1] 5 = (!![1, 5; 0, 1], .success) := by
  have hpow := (matrixPower_eq_pow squareDgemm_computesProduct !![(1 : ℚ), 1; 0, 1]).1 5
  have hvalue : !![(1 : ℚ), 1; 0, 1] ^ 5 = !![1, 5; 0, 1] := by with_unfolding_all decide
  exact hpow.trans (congrArg (·, MatStatus.success) hvalue)

end DistributedComputing
