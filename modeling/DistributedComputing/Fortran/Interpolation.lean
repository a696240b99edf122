import Mathlib.Algebra.Order.Ring.Rat
import Mathlib.Data.Set.Finite.Lemmas
import DistributedComputing.Foundations.ArrayLoops
import DistributedComputing.Foundations.PiecewiseLinear

/-!
# Linear interpolation in a table

`interp1d` of `numeric_utils.f90`, over an ordered field in place of `real(wp)`. A table is two
arrays, the nodes `xp` and the values `fp` there. Outside the nodes the function returns the value
of the nearest one; inside, it takes the **first** interval that contains `x`, both ends included,
and mixes the values at its ends. Reading an element that an array does not have is a failure, and
so is a division by zero.

With strictly increasing nodes the result is the piecewise linear interpolant of the table
(`returns_interp1d`): the search never comes to the end without an interval, since all nodes it has
passed are less than `x` and the last one is not. `interp1d_faithful` is read off that function.
-/

namespace DistributedComputing

open ArrayLoops PiecewiseLinear

variable {K : Type} [Field K] [LinearOrder K]

/-- The body of the search: the function returns from the loop if the interval contains `x`. -/
def interp1dInterval (xp fp : Array1 K) (x : K) (i : ℤ) (_ : Unit) : Option (Except K Unit) := do
  let left ← xp.get i
  let right ← xp.get (i + 1)
  if left ≤ x ∧ x ≤ right then
    let t ← divide (· ≠ 0) (x - left) (right - left)
    let fleft ← fp.get i
    let fright ← fp.get (i + 1)
    some (.error ((1 - t) * fleft + t * fright))
  else some (.ok ())

/-- `interp1d`. -/
def interp1d (xp fp : Array1 K) (x : K) : Option K := do
  let n : ℤ := xp.size
  let first ← xp.get 1
  if x ≤ first then fp.get 1
  else
    let last ← xp.get n
    if last ≤ x then fp.get n
    else
      let out ← doLoop 1 (n - 1) (leaving (interp1dInterval xp fp x)) (.ok ())
      match out with
      | .error f => some f
      | .ok () => fp.get n

/-- The nodes and the values of a table. -/
structure Table (xp fp : Array1 K) : Prop where
  nonempty : 1 ≤ xp.size
  size_eq : fp.size = xp.size
  nodes : StrictMonoOn xp.elem (Set.Icc 1 xp.size)

namespace Table

variable [IsStrictOrderedRing K] {xp fp : Array1 K} {x : K}

omit [Field K] [IsStrictOrderedRing K] in
theorem inRange (h : Table xp fp) {i : ℤ} (hi : 1 ≤ i) (hi' : i ≤ xp.size) :
    xp.InRange i ∧ fp.InRange i :=
  ⟨⟨hi, hi'⟩, hi, h.size_eq ▸ hi'⟩

/-- **One interval.** Behind its left end, it either is the one, or ends before `x`. -/
theorem returns_interval (h : Table xp fp) {i : ℤ} (hi : 1 ≤ i) (hi' : i < xp.size)
    (hx : xp.elem i < x) :
    Returns (interp1dInterval xp fp x i ()) (Outcome
      (· = interpolant xp.size xp.elem fp.elem x) fun _ => xp.elem (i + 1) < x) := by
  obtain ⟨hleft, hfleft⟩ := h.inRange hi hi'.le
  obtain ⟨hright, hfright⟩ := h.inRange (by omega : 1 ≤ i + 1) hi'
  refine Array1.returns_get hleft (Array1.returns_get hright ?_)
  split
  · next hmem =>
    have hwidth : xp.elem (i + 1) - xp.elem i ≠ 0 := (sub_pos.2 (hx.trans_le hmem.2)).ne'
    refine returns_divide hwidth (Array1.returns_get hfleft (Array1.returns_get hfright ?_))
    exact returns_some (interpolant_of_mem h.nodes hi hi' hmem).symm
  · next hmem => exact returns_some (not_le.1 fun hle => hmem ⟨hx.le, hle⟩)

theorem returns_interp1d (h : Table xp fp) (x : K) :
    Returns (interp1d xp fp x) (· = interpolant xp.size xp.elem fp.elem x) := by
  have hn : (1 : ℤ) ≤ xp.size := by exact_mod_cast h.nonempty
  obtain ⟨hfirst, hffirst⟩ := h.inRange le_rfl hn
  obtain ⟨hlast, hflast⟩ := h.inRange hn le_rfl
  refine Array1.returns_get hfirst ?_
  split
  · next hle => exact ⟨_, Array1.get_eq hffirst, (interpolant_of_le hn h.nodes hle).symm⟩
  next hgt =>
  refine Array1.returns_get hlast ?_
  split
  · next hge => exact ⟨_, Array1.get_eq hflast, (interpolant_of_ge hn h.nodes hge).symm⟩
  next hlt =>
  -- the nodes that the search has passed are less than `x`
  refine (returns_doLoop_leaving (· = interpolant xp.size xp.elem fp.elem x)
    (fun i _ => xp.elem i < x) (by omega) (not_le.1 hgt)
    fun i _ hi hi' hx => h.returns_interval hi (by omega) hx).bind fun out hout => ?_
  rcases out with f | ⟨⟩
  · exact returns_some hout
  · have hpassed : xp.elem (xp.size - 1 + 1) < x := hout
    rw [sub_add_cancel] at hpassed
    exact absurd hpassed.le hlt

omit [Field K] [IsStrictOrderedRing K] in
theorem exists_extremes (h : Table xp fp) :
    ∃ lo hi, IsLeast (fp.elem '' Set.Icc 1 fp.size) lo ∧
      IsGreatest (fp.elem '' Set.Icc 1 fp.size) hi := by
  have hn : (1 : ℤ) ≤ fp.size := by exact_mod_cast h.size_eq ▸ h.nonempty
  have hne : (Set.Icc (1 : ℤ) fp.size).Nonempty := ⟨1, le_rfl, hn⟩
  obtain ⟨i, hi, hmin⟩ := Set.exists_min_image _ fp.elem (Set.finite_Icc _ _) hne
  obtain ⟨j, hj, hmax⟩ := Set.exists_max_image _ fp.elem (Set.finite_Icc _ _) hne
  exact ⟨fp.elem i, fp.elem j, ⟨Set.mem_image_of_mem _ hi, Set.forall_mem_image.2 hmin⟩,
    Set.mem_image_of_mem _ hj, Set.forall_mem_image.2 hmax⟩

end Table

/-- **Interpolation is faithful and monotone.** In a table of any positive number of strictly
increasing nodes, `interp1d` returns a value for every `x`: the table's own one at a node, always
one between the smallest and the largest value, and one that does not decrease with `x` if the
values of the table do not. -/
theorem interp1d_faithful [IsStrictOrderedRing K] {xp fp : Array1 K} (hn : 1 ≤ xp.size)
    (hsize : fp.size = xp.size) (hxp : StrictMonoOn xp.elem (Set.Icc 1 xp.size)) :
    ∃ f : K → K, (∀ x, interp1d xp fp x = some (f x)) ∧
      (∀ i ∈ Set.Icc (1 : ℤ) xp.size, f (xp.elem i) = fp.elem i) ∧
      (∃ lo hi, IsLeast (fp.elem '' Set.Icc 1 fp.size) lo ∧
        IsGreatest (fp.elem '' Set.Icc 1 fp.size) hi ∧ ∀ x, lo ≤ f x ∧ f x ≤ hi) ∧
      (MonotoneOn fp.elem (Set.Icc 1 fp.size) → ∀ x x', x ≤ x' → f x ≤ f x') := by
  have h : Table xp fp := ⟨hn, hsize, hxp⟩
  refine ⟨interpolant xp.size xp.elem fp.elem, fun x => ?_, fun i hi => ?_, ?_,
    fun hfp x x' hx => ?_⟩
  · obtain ⟨f, hf, rfl⟩ := h.returns_interp1d x
    exact hf
  · exact interpolant_node hxp hi
  · obtain ⟨lo, hi, hlo, hhi⟩ := h.exists_extremes
    refine ⟨lo, hi, hlo, hhi, interpolant_mem_Icc (by exact_mod_cast hn) hxp fun i hi' => ?_⟩
    have hmem : fp.elem i ∈ fp.elem '' Set.Icc 1 fp.size := ⟨i, hsize ▸ hi', rfl⟩
    exact ⟨hlo.2 hmem, hhi.2 hmem⟩
  · exact monotone_interpolant hxp (hsize ▸ hfp) hx

/-- The nodes `0, …, 4`. -/
def fiveNodes : Array1 ℚ := ⟨5, fun i => i - 1⟩

/-- The squares of the nodes. -/
def fiveSquares : Array1 ℚ := ⟨5, fun i => (i - 1) ^ 2⟩

/-- In the middle between 2 and 3 the value is the one in the middle between 4 and 9, and nowhere
does it decrease. -/
theorem interp1d_faithful_squares :
    interp1d fiveNodes fiveSquares (5 / 2) = some (13 / 2) ∧
      ∃ f : ℚ → ℚ, (∀ x, interp1d fiveNodes fiveSquares x = some (f x)) ∧ Monotone f := by
  refine ⟨by with_unfolding_all decide, ?_⟩
  have hnodes : StrictMonoOn fiveNodes.elem (Set.Icc 1 fiveNodes.size) := by
    intro i _ j _ hij
    exact sub_lt_sub_right (Int.cast_lt.2 hij) 1
  have hsize : fiveSquares.size = fiveNodes.size := rfl
  obtain ⟨f, hf, -, -, hmono⟩ := interp1d_faithful (by decide) hsize hnodes
  refine ⟨f, hf, fun x x' hx => hmono ?_ x x' hx⟩
  intro i hi j _ hij
  have hnonneg : (0 : ℚ) ≤ i - 1 := sub_nonneg.2 (by exact_mod_cast hi.1)
  exact pow_le_pow_left₀ hnonneg (sub_le_sub_right (Int.cast_le.2 hij) 1) 2

end DistributedComputing
