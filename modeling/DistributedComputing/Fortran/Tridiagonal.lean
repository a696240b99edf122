import Mathlib.Tactic.LinearCombination
import Mathlib.Tactic.Ring
import DistributedComputing.Foundations.ArrayLoops
import DistributedComputing.Fortran.Constants

/-!
# Solving tridiagonal systems

A model of `solve_tridiagonal`. The arrays have indices that are checked, and **the divisions are
checked as well**: `divide admits` fails for a divisor that is not admitted. With `(· ≠ 0)` for
`admits`, the routine returns exactly if all its indices are in range and no divisor is zero. The
test `abs(m) < TOL_DEFAULT` of the pivots is a parameter too (`small`), since the algebra of the two
sweeps needs no order.

What the arrays `cp` and `dp` should contain is said by recursion on the row (`elimination`,
`reduced`), and with it what the pivot of each row is (`pivotOf`). `returns_sweep` says that the
forward sweep computes this up to the first row whose pivot is too small; `equation_of_reduced` is
the algebra of the back substitution.

The routine tests every pivot but the first. So it is safe if there are two rows and the first
diagonal element is one that the test would have passed. With one row, `a` and `c` are empty, and
the routine reads `c(1)` all the same.
-/

namespace DistributedComputing

open ArrayLoops

/-- The values of `status` that `solve_tridiagonal` sets. -/
inductive TridiagonalStatus
  | success
  | invalidSize
  | singular
  deriving DecidableEq, Repr

variable {K : Type} [Field K]

/-- The arrays of the forward sweep. -/
structure Sweep (K : Type) where
  cp : Array1 K
  dp : Array1 K

/-- The diagonals of the matrix, and the right-hand side. -/
structure Tridiagonal (K : Type) where
  a : Array1 K
  b : Array1 K
  c : Array1 K
  d : Array1 K

namespace Tridiagonal

section Routine

variable (small admits : K → Prop) [DecidablePred small] [DecidablePred admits]
variable (S : Tridiagonal K)

/-- `m = b(i) - a(i - 1) * cp(i - 1)` -/
def pivot (cp : Array1 K) (i : ℤ) : Option K := do
  let bi ← S.b.get i
  let ai ← S.a.get (i - 1)
  let ci ← cp.get (i - 1)
  some (bi - ai * ci)

/-- `dp(i) = (d(i) - a(i - 1) * dp(i - 1)) / m` -/
def reduceRow (dp : Array1 K) (i : ℤ) (m : K) : Option (Array1 K) := do
  let di ← S.d.get i
  let ai ← S.a.get (i - 1)
  let prev ← dp.get (i - 1)
  let v ← divide admits (di - ai * prev) m
  dp.set i v

/-- The first row, with what the local arrays contain before. -/
def firstRow (undefined : ℤ → K) : Option (Sweep K) := do
  let c1 ← S.c.get 1
  let b1 ← S.b.get 1
  let v ← divide admits c1 b1
  let cp ← (Array1.allocate (S.b.size - 1) undefined).set 1 v
  let d1 ← S.d.get 1
  let w ← divide admits d1 b1
  let dp ← (Array1.allocate S.b.size undefined).set 1 w
  some ⟨cp, dp⟩

/-- A round of the forward sweep. -/
def sweepRow (i : ℤ) (s : Sweep K) : Option (Except TridiagonalStatus (Sweep K)) := do
  let m ← S.pivot s.cp i
  if small m then some (.error .singular)
  else do
    let ci ← S.c.get i
    let v ← divide admits ci m
    let cp ← s.cp.set i v
    let dp ← S.reduceRow admits s.dp i m
    some (.ok ⟨cp, dp⟩)

/-- The last row, which has no element to its right. -/
def lastRow (s : Sweep K) : Option (Except TridiagonalStatus (Sweep K)) := do
  let m ← S.pivot s.cp S.b.size
  if small m then some (.error .singular)
  else do
    let dp ← S.reduceRow admits s.dp S.b.size m
    some (.ok { s with dp })

/-- `x(i) = dp(i) - cp(i) * x(i + 1)` -/
def backRow (s : Sweep K) (i : ℤ) (x : Array1 K) : Option (Array1 K) := do
  let v ← s.dp.get i
  let ci ← s.cp.get i
  let next ← x.get (i + 1)
  x.set i (v - ci * next)

/-- The forward sweep. -/
def sweep (undefined : ℤ → K) : Option (Except TridiagonalStatus (Sweep K)) := do
  let s ← S.firstRow admits undefined
  let r ← doLoop 2 (S.b.size - 1) (leaving (S.sweepRow small admits)) (.ok s)
  match r with
  | .error status => some (.error status)
  | .ok s => S.lastRow small admits s

/-- The back substitution. -/
def backSubstitute (s : Sweep K) (x : Array1 K) : Option (Array1 K) := do
  let v ← s.dp.get S.b.size
  let x ← x.set S.b.size v
  doLoop 1 (S.b.size - 1) (fun k => backRow s (S.b.size - k)) x

/-- The test of the sizes. -/
def SizesFit (x : Array1 K) : Prop :=
  (S.a.size : ℤ) = S.b.size - 1 ∧ (S.c.size : ℤ) = S.b.size - 1 ∧ S.d.size = S.b.size ∧
    x.size = S.b.size

instance (x : Array1 K) : Decidable (S.SizesFit x) := inferInstanceAs (Decidable (_ ∧ _))

/-- `solve_tridiagonal` -/
def solve (undefined : ℤ → K) (x : Array1 K) : Option (Array1 K × TridiagonalStatus) :=
  if ¬ S.SizesFit x then some (x, .invalidSize)
  else do
    let r ← S.sweep small admits undefined
    match r with
    | .error status => some (x, status)
    | .ok s => do
      let x ← S.backSubstitute s x
      some (x, .success)

end Routine

/-! ### What the sweeps compute -/

variable (S : Tridiagonal K)

/-- What `cp` should contain: the element to the right of the diagonal, after elimination. -/
def elimination : ℕ → K
  | 0 => 0
  | k + 1 => S.c.elem (k + 1) / (S.b.elem (k + 1) - S.a.elem k * elimination k)

/-- The pivot of row `i`. -/
def pivotOf (i : ℕ) : K := S.b.elem i - S.a.elem (i - 1) * S.elimination (i - 1)

/-- What `dp` should contain: the right-hand side, after elimination. -/
def reduced : ℕ → K
  | 0 => 0
  | k + 1 => (S.d.elem (k + 1) - S.a.elem k * reduced k) / S.pivotOf (k + 1)

theorem pivotOf_one : S.pivotOf 1 = S.b.elem 1 := by
  rw [pivotOf, Nat.sub_self, elimination, mul_zero, sub_zero]
  rfl

theorem pivotOf_succ (k : ℕ) :
    S.pivotOf (k + 1) = S.b.elem (k + 1) - S.a.elem k * S.elimination k := by
  rw [pivotOf, Nat.add_sub_cancel, Nat.cast_add_one, add_sub_cancel_right]

theorem elimination_succ (k : ℕ) :
    S.elimination (k + 1) = S.c.elem (k + 1) / S.pivotOf (k + 1) := by
  rw [pivotOf_succ, elimination]

theorem reduced_succ (k : ℕ) :
    S.reduced (k + 1) = (S.d.elem (k + 1) - S.a.elem k * S.reduced k) / S.pivotOf (k + 1) := rfl

/-- **Row `i` of the system**; what is outside the band is left out. -/
def Equation (x : ℤ → K) (i : ℤ) : Prop :=
  (if 1 < i then S.a.elem (i - 1) * x (i - 1) else 0) + S.b.elem i * x i +
    (if i < S.b.size then S.c.elem i * x (i + 1) else 0) = S.d.elem i

section Reduced

variable {S} {x : ℤ → K}
  (hrow : ∀ i : ℕ, 1 ≤ i → i < S.b.size → x i = S.reduced i - S.elimination i * x (i + 1))
include hrow

/-- A row after the elimination of its first element. -/
theorem row_of_reduced (hlast : x S.b.size = S.reduced S.b.size) {k : ℕ} (hk : k + 1 ≤ S.b.size)
    (hne : S.pivotOf (k + 1) ≠ 0) :
    S.pivotOf (k + 1) * x (k + 1) +
        (if k + 1 < S.b.size then S.c.elem (k + 1) * x (k + 1 + 1) else 0) =
      S.d.elem (k + 1) - S.a.elem k * S.reduced k := by
  have hdp : S.pivotOf (k + 1) * S.reduced (k + 1) = S.d.elem (k + 1) - S.a.elem k * S.reduced k :=
    mul_div_cancel₀ _ hne
  have hcp : S.pivotOf (k + 1) * S.elimination (k + 1) = S.c.elem (k + 1) := by
    rw [elimination_succ]
    exact mul_div_cancel₀ _ hne
  split
  · next hlt =>
    have hx := hrow (k + 1) (Nat.succ_pos k) hlt
    rw [Nat.cast_add_one] at hx
    rw [hx, ← hdp, ← hcp]
    ring
  · next hge =>
    rw [← Nat.le_antisymm hk (not_lt.1 hge), Nat.cast_add_one] at hlast
    rw [hlast, hdp, add_zero]

theorem first_of_reduced {k : ℕ} (hk : k + 1 ≤ S.b.size) :
    (if 1 < (k : ℤ) + 1 then S.a.elem k * x k else 0) =
      S.a.elem k * S.reduced k - S.a.elem k * S.elimination k * x (k + 1) := by
  split
  · next hsecond =>
    rw [hrow k (by omega) (by omega)]
    ring
  · next hfirst =>
    obtain rfl : k = 0 := by omega
    rw [reduced, elimination, mul_zero, zero_mul, sub_zero]

/-- **The rows of the reduced system** solve those of the given one. -/
theorem equation_of_reduced (hpivot : ∀ i, 1 ≤ i → i ≤ S.b.size → S.pivotOf i ≠ 0)
    (hlast : x S.b.size = S.reduced S.b.size) {i : ℕ} (hi : 1 ≤ i) (hi' : i ≤ S.b.size) :
    S.Equation x i := by
  obtain ⟨k, rfl⟩ := Nat.exists_eq_add_one.2 hi
  have hreduced := row_of_reduced hrow hlast hi' (hpivot (k + 1) hi hi')
  have hcast : (k : ℤ) + 1 < S.b.size ↔ k + 1 < S.b.size := by omega
  rw [Equation, Nat.cast_add_one, add_sub_cancel_right, first_of_reduced hrow hi']
  rw [pivotOf_succ] at hreduced
  simp only [hcast]
  linear_combination hreduced

end Reduced

/-! ### The forward sweep -/

section Safety

variable {small admits : K → Prop} [DecidablePred admits] {S : Tridiagonal K} {x : Array1 K}

/-- **The rows before `k` are done**, and none of them but the first has a pivot that is too
small. -/
structure Swept (small : K → Prop) (S : Tridiagonal K) (k : ℤ) (s : Sweep K) : Prop where
  cp_size : (s.cp.size : ℤ) = S.b.size - 1
  dp_size : s.dp.size = S.b.size
  cp_eq : ∀ i : ℕ, 1 ≤ i → (i : ℤ) < k → i < S.b.size → s.cp.elem i = S.elimination i
  dp_eq : ∀ i : ℕ, 1 ≤ i → (i : ℤ) < k → s.dp.elem i = S.reduced i
  not_small : ∀ i : ℕ, 2 ≤ i → (i : ℤ) < k → ¬ small (S.pivotOf i)

/-- The pivots that the routine gets to are admitted as divisors, unless they are too small. -/
def PivotsAdmitted (small admits : K → Prop) (S : Tridiagonal K) : Prop :=
  ∀ i : ℕ, 2 ≤ i → i ≤ S.b.size → (∀ j : ℕ, 2 ≤ j → j ≤ i → ¬ small (S.pivotOf j)) →
    admits (S.pivotOf i)

section Rows

variable (hfit : S.SizesFit x)
include hfit

theorem returns_firstRow (hn : 2 ≤ S.b.size) (h1 : admits (S.b.elem 1)) (undefined : ℤ → K) :
    Returns (S.firstRow admits undefined) (S.Swept small 2) := by
  obtain ⟨ha, hc, hd, -⟩ := hfit
  have hpivot := S.pivotOf_one
  have honly : ∀ i : ℕ, 1 ≤ i → (i : ℤ) < 2 → i = 1 := fun i hi hi' => by omega
  refine Array1.returns_get ⟨le_rfl, by omega⟩ (Array1.returns_get ⟨le_rfl, by omega⟩ ?_)
  refine returns_divide h1 ?_
  refine (Array1.returns_set (Array1.inRange_allocate _ le_rfl (by omega))).bind fun cp hcp => ?_
  refine Array1.returns_get ⟨le_rfl, by omega⟩ (returns_divide h1 ?_)
  refine (Array1.returns_set (Array1.inRange_allocate _ le_rfl (by omega))).bind fun dp hdp => ?_
  refine returns_some ⟨?_, ?_, fun i hi hi' _ => ?_, fun i hi hi' => ?_, fun i hi hi' => by omega⟩
  · show (cp.size : ℤ) = _
    rw [hcp.size_eq]
    exact Int.toNat_of_nonneg (by omega)
  · exact hdp.size_eq
  · rw [honly i hi hi', elimination_succ, hpivot]
    exact hcp.at_index
  · rw [honly i hi hi', reduced_succ, hpivot, reduced, mul_zero, sub_zero]
    exact hdp.at_index

/-- The pivot that the routine computes for a row, and the test of it. -/
theorem returns_pivot {α : Type} {k : ℕ} {s : Sweep K} (hs : S.Swept small (k + 1 : ℕ) s)
    (hk : 1 ≤ k) (hk' : k < S.b.size) {f : K → Option α} {Q : α → Prop}
    (hf : Returns (f (S.pivotOf (k + 1))) Q) : Returns (S.pivot s.cp (k + 1 : ℕ) >>= f) Q := by
  obtain ⟨ha, hc, hd, -⟩ := hfit
  have hcp := hs.cp_size
  have hprev : ((k + 1 : ℕ) : ℤ) - 1 = k := by omega
  have hpivot : S.pivot s.cp (k + 1 : ℕ) = some (S.pivotOf (k + 1)) := by
    rw [pivot, hprev, Array1.get_eq ⟨by omega, by omega⟩, Array1.get_eq ⟨by omega, by omega⟩,
      Array1.get_eq ⟨by omega, by omega⟩, hs.cp_eq k hk (by omega) hk', pivotOf_succ,
      Nat.cast_add_one]
    rfl
  rw [hpivot]
  exact hf

theorem returns_reduceRow {k : ℕ} {s : Sweep K} (hs : S.Swept small (k + 1 : ℕ) s) (hk : 1 ≤ k)
    (hk' : k < S.b.size) (hadmits : admits (S.pivotOf (k + 1))) :
    Returns (S.reduceRow admits s.dp (k + 1 : ℕ) (S.pivotOf (k + 1)))
      (s.dp.Written (k + 1 : ℕ) (S.reduced (k + 1))) := by
  obtain ⟨ha, hc, hd, -⟩ := hfit
  have hdp := hs.dp_size
  have hprev : ((k + 1 : ℕ) : ℤ) - 1 = k := by omega
  rw [reduceRow, hprev]
  refine Array1.returns_get ⟨by omega, by omega⟩ (Array1.returns_get ⟨by omega, by omega⟩ ?_)
  refine Array1.returns_get ⟨by omega, by omega⟩ (returns_divide hadmits ?_)
  rw [hs.dp_eq k hk (by omega), Nat.cast_add_one, ← reduced_succ]
  exact Array1.returns_set ⟨by omega, by omega⟩

end Rows

/-- What the sweep is left with: a row whose pivot is too small. -/
def FoundSmall (small : K → Prop) (S : Tridiagonal K) (status : TridiagonalStatus) : Prop :=
  status = .singular ∧ ∃ i : ℕ, 2 ≤ i ∧ i ≤ S.b.size ∧ small (S.pivotOf i)

/-- A row more is done. -/
theorem Swept.succ {k : ℕ} {s s' : Sweep K} (hs : S.Swept small (k + 1 : ℕ) s)
    (hsmall : ¬ small (S.pivotOf (k + 1)))
    (hdp : s.dp.Written (k + 1 : ℕ) (S.reduced (k + 1)) s'.dp) (hsize : s'.cp.size = s.cp.size)
    (hcp : ∀ i : ℕ, 1 ≤ i → i ≤ k + 1 → i < S.b.size → s'.cp.elem i = S.elimination i) :
    S.Swept small ((k + 1 : ℕ) + 1) s' where
  cp_size := hsize ▸ hs.cp_size
  dp_size := hdp.size_eq.trans hs.dp_size
  cp_eq i hi hi' := hcp i hi (by omega)
  dp_eq i hi hi' := by
    rcases eq_or_ne i (k + 1) with rfl | hne
    · exact hdp.at_index
    · rw [hdp.elsewhere i (by omega)]
      exact hs.dp_eq i hi (by omega)
  not_small i hi hi' := by
    rcases eq_or_ne i (k + 1) with rfl | hne
    · exact hsmall
    · exact hs.not_small i hi (by omega)

omit [DecidablePred admits] in
theorem Swept.admits_pivot {k : ℕ} {s : Sweep K} (hs : S.Swept small (k + 1 : ℕ) s)
    (hpivots : PivotsAdmitted small admits S) (hk : 1 ≤ k) (hk' : k < S.b.size)
    (hsmall : ¬ small (S.pivotOf (k + 1))) : admits (S.pivotOf (k + 1)) := by
  refine hpivots (k + 1) (by omega) hk' fun j hj hj' => ?_
  rcases eq_or_ne j (k + 1) with rfl | hne
  · exact hsmall
  · exact hs.not_small j hj (by omega)

variable [DecidablePred small]

section Sweeps

variable (hfit : S.SizesFit x) (hpivots : PivotsAdmitted small admits S)
include hfit hpivots

theorem returns_sweepRow {k : ℤ} {s : Sweep K} (hk : 2 ≤ k) (hk' : k ≤ S.b.size - 1)
    (hs : S.Swept small k s) :
    Returns (S.sweepRow small admits k s)
      (Outcome (FoundSmall small S) (S.Swept small (k + 1))) := by
  obtain ⟨j, rfl⟩ : ∃ j : ℕ, k = (j + 1 : ℕ) := ⟨k.toNat - 1, by omega⟩
  have hcp := hs.cp_size
  refine returns_pivot hfit hs (by omega) (by omega) ?_
  split
  · next hsmall => exact returns_some ⟨rfl, j + 1, by omega, by omega, hsmall⟩
  next hsmall =>
  have hadmits := hs.admits_pivot hpivots (by omega) (by omega) hsmall
  refine Array1.returns_get ⟨by omega, by have := hfit.2.1; omega⟩ (returns_divide hadmits ?_)
  refine (Array1.returns_set ⟨by omega, by omega⟩).bind fun cp hwritten => ?_
  refine (returns_reduceRow hfit hs (by omega) (by omega) hadmits).bind fun dp hdp => ?_
  refine returns_some (hs.succ hsmall hdp hwritten.size_eq fun i hi hi' hlt => ?_)
  rcases eq_or_ne i (j + 1) with rfl | hne
  · rw [elimination_succ, ← Nat.cast_add_one]
    exact hwritten.at_index
  · exact (hwritten.elsewhere i (by omega)).trans (hs.cp_eq i hi (by omega) hlt)

theorem returns_lastRow {s : Sweep K} (hn : 2 ≤ S.b.size) (hs : S.Swept small S.b.size s) :
    Returns (S.lastRow small admits s)
      (Outcome (FoundSmall small S) (S.Swept small (S.b.size + 1))) := by
  obtain ⟨j, hj⟩ : ∃ j : ℕ, S.b.size = j + 1 := ⟨S.b.size - 1, by omega⟩
  rw [hj] at hs
  rw [lastRow, hj]
  refine returns_pivot hfit hs (by omega) (by omega) ?_
  split
  · next hsmall => exact returns_some ⟨rfl, j + 1, by omega, by omega, hsmall⟩
  next hsmall =>
  have hadmits := hs.admits_pivot hpivots (by omega) (by omega) hsmall
  refine (returns_reduceRow hfit hs (by omega) (by omega) hadmits).bind fun dp hdp => ?_
  exact returns_some (hs.succ hsmall hdp rfl fun i hi _ hlt => hs.cp_eq i hi (by omega) hlt)

/-- **The forward sweep** does all rows, or finds a pivot that is too small. -/
theorem returns_sweep (hn : 2 ≤ S.b.size) (h1 : admits (S.b.elem 1)) (undefined : ℤ → K) :
    Returns (S.sweep small admits undefined)
      (Outcome (FoundSmall small S) (S.Swept small (S.b.size + 1))) := by
  have hfirst : Returns (S.firstRow admits undefined) (S.Swept small 2) :=
    returns_firstRow hfit hn h1 undefined
  refine hfirst.bind fun s hs => ?_
  refine (returns_doLoop_leaving (FoundSmall small S) (S.Swept small) (by omega) hs
    fun k s hk hk' => returns_sweepRow hfit hpivots hk hk').bind fun r hr => ?_
  rcases r with status | s
  · exact returns_some hr
  · rw [Outcome, sub_add_cancel] at hr
    exact returns_lastRow hfit hpivots hn hr

end Sweeps

/-! ### The back substitution and the routine -/

/-- The solution of the reduced system. -/
def SolvesReduced (S : Tridiagonal K) (x : ℤ → K) : Prop :=
  x S.b.size = S.reduced S.b.size ∧
    ∀ i : ℕ, 1 ≤ i → i < S.b.size → x i = S.reduced i - S.elimination i * x (i + 1)

/-- **After the rounds before `k`**, the rows from `n - k + 1` on are done. -/
structure Substituted (S : Tridiagonal K) (k : ℤ) (x : Array1 K) : Prop where
  size_eq : x.size = S.b.size
  last_eq : x.elem S.b.size = S.reduced S.b.size
  row_eq : ∀ i : ℕ, S.b.size - k < i → i < S.b.size →
    x.elem i = S.reduced i - S.elimination i * x.elem (i + 1)

section Back

omit [DecidablePred admits] [DecidablePred small]

variable {s : Sweep K} (hs : S.Swept small (S.b.size + 1) s)
include hs

theorem returns_backRow {k : ℤ} (hk : 1 ≤ k) (hk' : k ≤ S.b.size - 1) (hx : S.Substituted k x) :
    Returns (backRow s (S.b.size - k) x) (S.Substituted (k + 1)) := by
  have hsize := hx.size_eq
  have hdp := hs.dp_size
  have hcp := hs.cp_size
  obtain ⟨j, hj⟩ : ∃ j : ℕ, (S.b.size : ℤ) - k = j := ⟨(S.b.size - k).toNat, by omega⟩
  rw [hj]
  refine Array1.returns_get ⟨by omega, by omega⟩ (Array1.returns_get ⟨by omega, by omega⟩ ?_)
  refine Array1.returns_get ⟨by omega, by omega⟩ ?_
  refine (Array1.returns_set ⟨by omega, by omega⟩).mono fun x' hx' => ?_
  refine ⟨hx'.size_eq.trans hsize, (hx'.elsewhere _ (by omega)).trans hx.last_eq,
    fun i hi hi' => ?_⟩
  rw [hx'.elsewhere (i + 1) (by omega)]
  rcases eq_or_ne i j with rfl | hne
  · rw [hx'.at_index, hs.dp_eq i (by omega) (by omega), hs.cp_eq i (by omega) (by omega) hi']
  · rw [hx'.elsewhere i (by omega)]
    exact hx.row_eq i (by omega) hi'

/-- **The back substitution** solves the reduced system. -/
theorem returns_backSubstitute (hfit : S.SizesFit x) (hn : 2 ≤ S.b.size) :
    Returns (S.backSubstitute s x) fun x' => S.SolvesReduced x'.elem := by
  have hsize := hfit.2.2.2
  have hdp := hs.dp_size
  refine Array1.returns_get ⟨by omega, by omega⟩ ?_
  refine (Array1.returns_set ⟨by omega, by omega⟩).bind fun x₁ hx₁ => ?_
  have hstart : S.Substituted 1 x₁ := by
    refine ⟨hx₁.size_eq.trans hsize, ?_, fun i hi hi' => by omega⟩
    rw [hx₁.at_index]
    exact hs.dp_eq _ (by omega) (by omega)
  refine (returns_doLoop S.Substituted (by omega) hstart
    fun k x' hk hk' => returns_backRow hs hk hk').mono fun x' hx' => ?_
  exact ⟨hx'.last_eq, fun i hi => hx'.row_eq i (by omega)⟩

end Back

/-- What the routine returns for a system that it takes on. -/
def Answer (small : K → Prop) (S : Tridiagonal K) (r : Array1 K × TridiagonalStatus) : Prop :=
  r.2 = .success ∧ S.SolvesReduced r.1.elem ∧
      (∀ i : ℕ, 2 ≤ i → i ≤ S.b.size → ¬ small (S.pivotOf i)) ∨
    FoundSmall small S r.2

/-- **`solve_tridiagonal`**, if the pivots it divides by are admitted. -/
theorem returns_solve (hfit : S.SizesFit x) (hn : 2 ≤ S.b.size) (h1 : admits (S.b.elem 1))
    (hpivots : PivotsAdmitted small admits S) (undefined : ℤ → K) :
    Returns (S.solve small admits undefined x) (Answer small S) := by
  rw [solve, if_neg (not_not.2 hfit)]
  refine (returns_sweep hfit hpivots hn h1 undefined).bind fun r hr => ?_
  rcases r with status | s
  · exact returns_some (.inr hr)
  · refine (returns_backSubstitute hr hfit hn).bind fun x' hx' => ?_
    exact returns_some (.inl ⟨rfl, hx', fun i hi hi' => hr.not_small i hi (by omega)⟩)

theorem solve_eq_none (hfit : S.SizesFit x) (hn : 1 ≤ S.b.size)
    (h : ¬ (2 ≤ S.b.size ∧ admits (S.b.elem 1))) (undefined : ℤ → K) :
    S.solve small admits undefined x = none := by
  obtain ⟨-, hc, -⟩ := id hfit
  have hfirst : S.firstRow admits undefined = none := by
    rw [firstRow]
    by_cases hsecond : 2 ≤ S.b.size
    · rw [Array1.get_eq ⟨le_rfl, by omega⟩, Array1.get_eq ⟨le_rfl, by omega⟩, Option.bind_eq_bind,
        Option.bind_some, Option.bind_eq_bind, Option.bind_some, divide,
        if_neg fun h1 => h ⟨hsecond, h1⟩]
      rfl
    · rw [Array1.get, if_neg fun hrange => by have := hrange.2; omega]
      rfl
  rw [solve, if_neg (not_not.2 hfit), sweep, hfirst]
  rfl

theorem isSome_solve_iff (hfit : S.SizesFit x) (hn : 1 ≤ S.b.size)
    (hpivots : PivotsAdmitted small admits S) (undefined : ℤ → K) :
    (S.solve small admits undefined x).isSome ↔ 2 ≤ S.b.size ∧ admits (S.b.elem 1) := by
  constructor
  · intro hsome
    by_contra h
    rw [solve_eq_none hfit hn h] at hsome
    exact Bool.false_ne_true hsome
  · rintro ⟨hsecond, h1⟩
    exact (returns_solve hfit hsecond h1 hpivots undefined).isSome

end Safety

/-- **The answers of `solve_tridiagonal` are solutions.** If none of the numbers that it divides by
is zero, then it returns, and with success only if all equations of the system hold. -/
theorem solve_satisfies_equations [DecidableEq K] {small : K → Prop} [DecidablePred small]
    {S : Tridiagonal K} {x : Array1 K} (hn : 2 ≤ S.b.size) (hfit : S.SizesFit x)
    (h1 : S.b.elem 1 ≠ 0) (hpivots : PivotsAdmitted small (· ≠ 0) S) (undefined : ℤ → K) :
    Returns (S.solve small (· ≠ 0) undefined x) fun r =>
      r.2 = .success → ∀ i : ℕ, 1 ≤ i → i ≤ S.b.size → S.Equation r.1.elem i := by
  refine (returns_solve hfit hn h1 hpivots undefined).mono fun r hr hsuccess i hi hi' => ?_
  rcases hr with ⟨-, ⟨hlast, hrows⟩, hsmall⟩ | ⟨hsingular, -⟩
  · refine equation_of_reduced hrows (fun j hj hj' => ?_) hlast hi hi'
    rcases eq_or_ne j 1 with rfl | hne
    · rwa [pivotOf_one]
    · exact hpivots j (by omega) hj' fun k hk hk' => hsmall k hk (hk'.trans hj')
  · exact absurd (hsingular.symm.trans hsuccess) (by decide)

/-! ### The test of the pivots -/

section Ordered

variable [LinearOrder K]

/-- `abs(m) < TOL_DEFAULT` -/
def TooSmall (m : K) : Prop := |m| < tolDefault

instance : DecidablePred (TooSmall (K := K)) := fun _ => inferInstanceAs (Decidable (_ < _))

/-- **What a safe run is**: all indices are in range, every number that is divided by has passed the
test of the pivots, and the status says whether some row has a pivot that does not. -/
def Safe (S : Tridiagonal K) (undefined : ℤ → K) (x : Array1 K) : Prop :=
  Returns (S.solve TooSmall (¬ TooSmall ·) undefined x) fun r =>
    r.2 = .singular ↔ ∃ i : ℕ, 1 ≤ i ∧ i ≤ S.b.size ∧ TooSmall (S.pivotOf i)

variable [IsStrictOrderedRing K]

theorem tooSmall_zero : TooSmall (0 : K) := by
  rw [TooSmall, abs_zero, tolDefault]
  positivity

/-- **Exactly which systems the routine is safe on.** Indices are in range and no divisor is zero if
there are two rows and the first diagonal element is not zero. No divisor is too small, and the
status belongs to the pivots, if that element would also have passed the test of the pivots. -/
theorem solve_safe_iff {S : Tridiagonal K} {x : Array1 K} (hn : 1 ≤ S.b.size) (hfit : S.SizesFit x)
    (undefined : ℤ → K) :
    ((S.solve TooSmall (· ≠ 0) undefined x).isSome ↔ 2 ≤ S.b.size ∧ S.b.elem 1 ≠ 0) ∧
      (S.Safe undefined x ↔ 2 ≤ S.b.size ∧ tolDefault ≤ |S.b.elem 1|) := by
  have hne : PivotsAdmitted TooSmall (· ≠ 0) S := fun i hi _ hpassed h0 =>
    hpassed i hi le_rfl (h0 ▸ tooSmall_zero)
  have hpassed : PivotsAdmitted TooSmall (¬ TooSmall ·) S := fun i hi _ hpassed =>
    hpassed i hi le_rfl
  have hfirst : tolDefault ≤ |S.b.elem 1| ↔ ¬ TooSmall (S.b.elem 1) := not_lt.symm
  refine ⟨isSome_solve_iff hfit hn hne undefined, ?_⟩
  rw [hfirst]
  constructor
  · intro hsafe
    exact (isSome_solve_iff hfit hn hpassed undefined).1 hsafe.isSome
  · rintro ⟨hsecond, h1⟩
    refine (returns_solve hfit hsecond h1 hpassed undefined).mono fun r hr => ?_
    rcases hr with ⟨hsuccess, -, hrows⟩ | ⟨hsingular, i, hi, hi', hsmall⟩
    · refine ⟨fun h => absurd (hsuccess.symm.trans h) (by decide), ?_⟩
      rintro ⟨i, hi, hi', hsmall⟩
      rcases eq_or_ne i 1 with rfl | hne
      · rw [pivotOf_one] at hsmall
        exact absurd hsmall h1
      · exact absurd hsmall (hrows i (by omega) hi')
    · exact ⟨fun _ => ⟨i, by omega, hi', hsmall⟩, fun _ => hsingular⟩

end Ordered

/-! ### Systems of one, two and three rows -/

/-- The array with the given elements. -/
def arrayOf (l : List ℚ) : Array1 ℚ := ⟨l.length, fun i => l.getD (i - 1).toNat 0⟩

/-- Three rows, with the solution `1, 2, 3`. -/
def threeRows : Tridiagonal ℚ :=
  ⟨arrayOf [1, 1], arrayOf [2, 2, 2], arrayOf [1, 1], arrayOf [4, 8, 8]⟩

/-- `2 x = 4` -/
def oneRow : Tridiagonal ℚ := ⟨arrayOf [], arrayOf [2], arrayOf [], arrayOf [4]⟩

/-- The rows of the identity, interchanged. -/
def zeroFirst : Tridiagonal ℚ := ⟨arrayOf [1], arrayOf [0, 0], arrayOf [1], arrayOf [4, 8]⟩

theorem solve_satisfies_equations_threeRows :
    (threeRows.solve TooSmall (· ≠ 0) 0 (arrayOf [0, 0, 0])).map Prod.snd = some .success ∧
      Returns (threeRows.solve TooSmall (· ≠ 0) 0 (arrayOf [0, 0, 0])) fun r =>
        r.2 = .success → ∀ i : ℕ, 1 ≤ i → i ≤ 3 → threeRows.Equation r.1.elem i :=
  ⟨by with_unfolding_all decide, solve_satisfies_equations (by decide) (by decide) (by decide)
    (fun i hi _ hpassed h0 => hpassed i hi le_rfl (h0 ▸ tooSmall_zero)) 0⟩

theorem solve_safe_iff_threeRows : threeRows.Safe 0 (arrayOf [0, 0, 0]) :=
  (solve_safe_iff (by decide) (by decide) 0).2.2 ⟨by decide, by with_unfolding_all decide⟩

/-- One row is read out of range. With a zero in the first place, it is divided by zero, although
the system has a solution. -/
theorem solve_fails_on_oneRow_and_zeroFirst :
    oneRow.SizesFit (arrayOf [0]) ∧
      (oneRow.solve TooSmall (· ≠ 0) 0 (arrayOf [0])).isSome = false ∧
      zeroFirst.SizesFit (arrayOf [0, 0]) ∧
      (zeroFirst.solve TooSmall (· ≠ 0) 0 (arrayOf [0, 0])).isSome = false ∧
      ¬ oneRow.Safe 0 (arrayOf [0]) ∧ ¬ zeroFirst.Safe 0 (arrayOf [0, 0]) := by
  refine ⟨by decide, by decide, by decide, by decide, ?_, ?_⟩
  · intro h
    exact absurd h.isSome (by decide)
  · intro h
    exact absurd h.isSome (by with_unfolding_all decide)

end Tridiagonal

end DistributedComputing
