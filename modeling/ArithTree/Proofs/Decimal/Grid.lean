import ArithTree.Decimal.Shortest

/-!
# The search for the shortest decimal

On one grid the search looks at the two points around the value only, and it goes from coarse grids to
finer ones. What it finds is said here by all points of the grid that lie in the interval, and by all
points of the next coarser one.

* `Interval.NearestMultiple`: a point of a grid in the interval, such that no other one is nearer, and
  that the rule prefers to another one as near.
* `Interval.nearestMultiple_of_onGrid?`, `Interval.not_contains_of_onGrid?`: the search on one grid.
* `Interval.coarsest_spec`: the search ends on a grid with a point in the interval, and no coarser grid
  that it has looked at has any.
-/

namespace ArithTree

/-- Of two points that are equally near, counted in steps, the first is the one to take. -/
def Tie.Prefers (tie : Tie) (c m : Nat) : Prop :=
  match tie with
  | .away => m < c
  | .even => c % 2 = 0

namespace Interval

variable {I : Interval} {tie : Tie} {v step c m : Nat}

/-- How far `n` is from `v`. -/
def distance (v n : Nat) : Nat := ((n : Int) - v).natAbs

/-- The multiple `c` of `step` lies in the interval, is as near to `v` as any other one that does, and is
the one to take of those that are as near. -/
structure NearestMultiple (I : Interval) (tie : Tie) (v step c : Nat) : Prop where
  contains : I.contains (c * step)
  closest : ∀ m, I.contains (m * step) → distance v (c * step) ≤ distance v (m * step)
  prefers : ∀ m, m ≠ c → I.contains (m * step) →
    distance v (m * step) = distance v (c * step) → tie.Prefers c m

/-- What lies between two points of an interval is a point of it. -/
theorem contains_of_between {a b n : Nat} (ha : I.contains a) (hb : I.contains b) (han : a ≤ n)
    (hnb : n ≤ b) : I.contains n := by
  unfold contains at ha hb ⊢
  by_cases hclosed : I.closed
  · rw [if_pos hclosed, Bool.and_eq_true, decide_eq_true_eq, decide_eq_true_eq] at ha hb ⊢
    omega
  · rw [if_neg hclosed, Bool.and_eq_true, decide_eq_true_eq, decide_eq_true_eq] at ha hb ⊢
    omega

/-! ## One grid -/

/-- A multiple in the interval is one to take if every other one is farther, or as near and not
preferred. -/
theorem nearestMultiple_of (hc : I.contains (c * step))
    (h : ∀ m, m ≠ c → I.contains (m * step) → distance v (c * step) < distance v (m * step) ∨
      distance v (c * step) = distance v (m * step) ∧ tie.Prefers c m) :
    I.NearestMultiple tie v step c := by
  refine ⟨hc, fun m hm => ?_, fun m hne hm heq => ?_⟩
  · by_cases hne : m = c
    · exact Nat.le_of_eq (hne ▸ rfl)
    · rcases h m hne hm with hlt | ⟨heq, -⟩
      · exact Nat.le_of_lt hlt
      · exact Nat.le_of_eq heq
  · rcases h m hne hm with hlt | ⟨-, hprefers⟩
    · exact absurd heq.symm (Nat.ne_of_lt hlt)
    · exact hprefers

/-- A multiple is one of the two around the value, or a step farther out than one of them. -/
theorem multiple_cases (v m : Nat) (hpos : 0 < step) :
    v / step * step ≤ v ∧ v < v / step * step + step ∧
      (m = v / step ∨ m = v / step + 1 ∨ m * step + step ≤ v / step * step ∨
        v / step * step + 2 * step ≤ m * step) := by
  refine ⟨Nat.div_mul_le_self v step, Nat.lt_div_mul_add hpos, ?_⟩
  rcases Nat.lt_or_ge m (v / step) with hlt | hge
  · have hle : (m + 1) * step ≤ v / step * step := Nat.mul_le_mul_right _ hlt
    rw [Nat.succ_mul] at hle
    exact Or.inr (Or.inr (Or.inl hle))
  · rcases Nat.lt_or_ge (v / step + 1) m with hlt | hle
    · have hle : (v / step + 2) * step ≤ m * step := Nat.mul_le_mul_right _ hlt
      rw [Nat.add_mul] at hle
      exact Or.inr (Or.inr (Or.inr hle))
    · omega

/-- The multiple below the value, if the next one is farther, or not preferred, or not in the
interval. -/
theorem nearestMultiple_below (hpos : 0 < step) (hbelow : I.contains (v / step * step))
    (h : I.contains ((v / step + 1) * step) →
      2 * v < v / step * step + (v / step + 1) * step ∨
        2 * v = v / step * step + (v / step + 1) * step ∧ tie.Prefers (v / step) (v / step + 1)) :
    I.NearestMultiple tie v step (v / step) := by
  refine nearestMultiple_of hbelow fun m hne hm => ?_
  obtain ⟨hlower, hupper, heq | rfl | hfar | hfar⟩ := multiple_cases v m hpos
  · exact absurd heq hne
  · rw [Nat.succ_mul] at h hm ⊢
    unfold distance
    rcases h hm with hlt | ⟨heq, hprefers⟩
    · exact Or.inl (by omega)
    · exact Or.inr ⟨by omega, hprefers⟩
  · unfold distance
    exact Or.inl (by omega)
  · unfold distance
    exact Or.inl (by omega)

/-- The multiple above the value, likewise. A value that is a multiple itself is the one below. -/
theorem nearestMultiple_above (hv : I.contains v) (hpos : 0 < step)
    (habove : I.contains ((v / step + 1) * step))
    (h : I.contains (v / step * step) →
      v / step * step + (v / step + 1) * step < 2 * v ∨
        2 * v = v / step * step + (v / step + 1) * step ∧ tie.Prefers (v / step + 1) (v / step)) :
    I.NearestMultiple tie v step (v / step + 1) := by
  refine nearestMultiple_of habove fun m hne hm => ?_
  rw [Nat.succ_mul] at h ⊢
  obtain ⟨hlower, hupper, rfl | heq | hfar | hfar⟩ := multiple_cases v m hpos
  · unfold distance
    rcases h hm with hlt | ⟨heq, hprefers⟩
    · exact Or.inl (by omega)
    · exact Or.inr ⟨by omega, hprefers⟩
  · exact absurd heq hne
  · have hne : v / step * step ≠ v := fun heq => by
      rw [heq] at h
      have hnearer := h hv
      omega
    unfold distance
    exact Or.inl (by omega)
  · unfold distance
    exact Or.inl (by omega)

/-- The rule takes the neighbour that it prefers. -/
theorem pick_cases (tie : Tie) (c : Nat) :
    tie.pick c = c ∧ tie.Prefers c (c + 1) ∨ tie.pick c = c + 1 ∧ tie.Prefers (c + 1) c := by
  cases tie with
  | away => exact Or.inr ⟨rfl, Nat.lt_succ_self c⟩
  | even =>
    by_cases heven : c % 2 = 0
    · exact Or.inl ⟨if_pos heven, heven⟩
    · exact Or.inr ⟨if_neg heven, show (c + 1) % 2 = 0 by omega⟩

/-- Of the two multiples around the value the nearer one is taken if both are in the interval. -/
theorem nearestMultiple_nearer (hv : I.contains v) (hpos : 0 < step)
    (hbelow : I.contains (v / step * step)) (habove : I.contains ((v / step + 1) * step)) :
    I.NearestMultiple tie v step (nearer tie v step) := by
  have hsum : (2 * (v / step) + 1) * step = v / step * step + (v / step + 1) * step := by
    rw [← Nat.add_mul, ← Nat.add_assoc, ← Nat.two_mul]
  unfold nearer
  rw [hsum]
  split
  · rename_i hlt
    exact nearestMultiple_below hpos hbelow fun _ => Or.inl (Nat.compare_eq_lt.mp hlt)
  · rename_i hgt
    exact nearestMultiple_above hv hpos habove fun _ => Or.inl (Nat.compare_eq_gt.mp hgt)
  · rename_i heq
    have heq := Nat.compare_eq_eq.mp heq
    obtain ⟨hpick, hprefers⟩ | ⟨hpick, hprefers⟩ := pick_cases tie (v / step)
    · rw [hpick]
      exact nearestMultiple_below hpos hbelow fun _ => Or.inr ⟨heq, hprefers⟩
    · rw [hpick]
      exact nearestMultiple_above hv hpos habove fun _ => Or.inr ⟨heq, hprefers⟩

/-- **What is found on a grid is the point to take there.** -/
theorem nearestMultiple_of_onGrid? (hv : I.contains v) (hpos : 0 < step)
    (h : I.onGrid? tie v step = some c) :
    I.NearestMultiple tie v step c := by
  unfold onGrid? at h
  split at h
  · rename_i hbelow habove
    obtain rfl := Option.some.inj h
    exact nearestMultiple_nearer hv hpos hbelow habove
  · rename_i hbelow habove
    obtain rfl := Option.some.inj h
    exact nearestMultiple_below hpos hbelow fun hcontains =>
      absurd hcontains (Bool.eq_false_iff.mp habove)
  · rename_i hbelow habove
    obtain rfl := Option.some.inj h
    exact nearestMultiple_above hv hpos habove fun hcontains =>
      absurd hcontains (Bool.eq_false_iff.mp hbelow)
  · cases h

/-- **A grid on which nothing is found has no point in the interval.** -/
theorem not_contains_of_onGrid? (hv : I.contains v) (hpos : 0 < step)
    (h : I.onGrid? tie v step = none) (m : Nat) : ¬ I.contains (m * step) := by
  intro hm
  unfold onGrid? at h
  split at h
  · cases h
  · cases h
  · cases h
  · rename_i hbelow habove
    obtain ⟨hlower, hupper, rfl | rfl | hfar | hfar⟩ := multiple_cases v m hpos
    · exact Bool.eq_false_iff.mp hbelow hm
    · exact Bool.eq_false_iff.mp habove hm
    · exact Bool.eq_false_iff.mp hbelow (contains_of_between hm hv (by omega) hlower)
    · rw [Nat.succ_mul] at habove
      exact Bool.eq_false_iff.mp habove (contains_of_between hv hm (by omega) (by omega))

theorem nearer_eq_or (tie : Tie) (v step : Nat) :
    nearer tie v step = v / step ∨ nearer tie v step = v / step + 1 := by
  unfold nearer
  split
  · exact Or.inl rfl
  · exact Or.inr rfl
  · exact (pick_cases tie (v / step)).imp And.left And.left

/-- What is found on a grid is next to the value. -/
theorem eq_or_of_onGrid? (h : I.onGrid? tie v step = some c) :
    c = v / step ∨ c = v / step + 1 := by
  unfold onGrid? at h
  split at h
  · exact Option.some.inj h ▸ nearer_eq_or tie v step
  · exact Or.inl (Option.some.inj h).symm
  · exact Or.inr (Option.some.inj h).symm
  · cases h

/-! ## From coarse grids to finer ones -/

/-- **The search ends with the point to take on its grid**, and the next coarser grid has no point in
the interval, unless the search started on this one. -/
theorem coarsest_spec (tie : Tie) (hv : I.contains v) (k : Nat) :
    ∃ c e : Nat, I.coarsest tie v k = ⟨c, e⟩ ∧ I.NearestMultiple tie v (Nat.pow 10 e) c ∧
      (e = k ∨ ∀ m, ¬ I.contains (m * Nat.pow 10 (e + 1))) := by
  have hpow (j : Nat) : 0 < Nat.pow 10 j := Nat.pow_pos (by decide)
  induction k with
  | zero =>
    have hone : v * Nat.pow 10 0 = v := Nat.mul_one v
    have hself : distance v v = 0 := by
      unfold distance
      omega
    refine ⟨v, 0, rfl, nearestMultiple_of (hone.symm ▸ hv) fun m hne _ => Or.inl ?_, Or.inl rfl⟩
    have hm : m * Nat.pow 10 0 = m := Nat.mul_one m
    rw [hone, hm, hself]
    unfold distance
    omega
  | succ k ih =>
    unfold coarsest
    split
    · rename_i c hgrid
      exact ⟨c, k + 1, rfl, nearestMultiple_of_onGrid? hv (hpow _) hgrid, Or.inl rfl⟩
    · rename_i hnone
      obtain ⟨c, e, hsearch, hnearest, hcoarser⟩ := ih
      refine ⟨c, e, hsearch, hnearest, Or.inr ?_⟩
      rcases hcoarser with rfl | hcoarser
      · exact not_contains_of_onGrid? hv (hpow _) hnone
      · exact hcoarser

end Interval
end ArithTree
