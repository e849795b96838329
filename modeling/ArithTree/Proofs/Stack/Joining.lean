import ArithTree.Proofs.Tree.Leaves
import ArithTree.Stack.Action

/-!
# Joining all operands of a stack

Every binary operation takes the two topmost operands, so the tree that is growing on top is always the
right operand of the next one. Applied one after the other, operations give a tree that is nested to the
right: the operands keep their order, and the operation that was applied last is at the root.

* `Tree.joinRight`: operands joined from the right.
* `Action.applyAll_on_pushAll`: what operations make of as many operands and the one above them. The
  stack below takes no part, so that this covers the stack after any number of operations.
* `Stack.AddsUp`: the loop that adds while there is more than one operand, by its runs.
* `applyAll_joinRight`: the stack after each operation, the tree at the end, and that the loop ends with
  the sum of all operands.
-/

namespace ArithTree

variable {F : Format}

/-! ## Nesting to the right -/

/-- The operands from left to right, each joined by its operation to all that follows; what follows the
last one is `top`. -/
def Tree.joinRight (operands : List (Tree F)) (ops : List Operation) (top : Tree F) : Tree F :=
  (operands.zip ops).foldr (fun (t, op) right => .binary op t right) top

namespace Tree

variable {operands : List (Tree F)} {ops : List Operation}

@[simp] theorem joinRight_nil (top : Tree F) : joinRight [] [] top = top := rfl

/-- An operation that is applied first joins the last operand to the top. -/
theorem joinRight_append (h : operands.length = ops.length) (t : Tree F) (op : Operation)
    (top : Tree F) :
    joinRight (operands ++ [t]) (ops ++ [op]) top = joinRight operands ops (.binary op t top) := by
  unfold joinRight
  rw [List.zip_append h, List.foldr_append]
  rfl

/-- The operands keep their order: the literals from left to right are theirs. -/
theorem literals_joinRight (h : operands.length = ops.length) (top : Tree F) :
    (joinRight operands ops top).literals = (operands ++ [top]).flatMap literals := by
  induction operands generalizing ops with
  | nil =>
    obtain rfl := List.length_eq_zero_iff.mp h.symm
    simp
  | cons t operands ih =>
    obtain ⟨op, ops, rfl⟩ := List.exists_cons_of_length_eq_add_one h.symm
    have hjoin : joinRight (t :: operands) (op :: ops) top
        = .binary op t (joinRight operands ops top) := rfl
    rw [hjoin, literals, ih (Nat.succ.inj h), List.cons_append, List.flatMap_cons]

end Tree

/-! ## Operations one after the other -/

namespace Stack

/-- The stack with several trees on top, the last one topmost. -/
def pushAll (s : Stack F) (ts : List (Tree F)) : Stack F := ts.foldl push s

theorem pushAll_append (s : Stack F) (ts : List (Tree F)) (t : Tree F) :
    s.pushAll (ts ++ [t]) = (s.pushAll ts).push t := List.foldl_append

theorem bottomUp_pushAll (s : Stack F) (ts : List (Tree F)) :
    (s.pushAll ts).bottomUp = s.bottomUp ++ ts := by
  induction ts generalizing s with
  | nil => exact (List.append_nil _).symm
  | cons t ts ih =>
    have hpush : s.pushAll (t :: ts) = (s.push t).pushAll ts := rfl
    rw [hpush, ih, bottomUp_push, List.append_assoc]
    rfl

/-- A stack is known by its operands. -/
theorem eq_of_bottomUp {s s' : Stack F} (h : s.bottomUp = s'.bottomUp) : s = s' :=
  congrArg Stack.mk (List.reverse_inj.mp h)

/-- A stack that is not empty, by its operands below the topmost one. -/
theorem eq_pushAll_push {s : Stack F} {operands : List (Tree F)} {top : Tree F}
    (h : s.bottomUp = operands ++ [top]) : s = (empty.pushAll operands).push top := by
  refine eq_of_bottomUp (h.trans ?_)
  rw [bottomUp_push, bottomUp_pushAll, bottomUp_empty, List.nil_append]

theorem size_eq_length (s : Stack F) : s.size = s.bottomUp.length := List.length_reverse.symm

end Stack

namespace Action

theorem applyAll_cons_on_of_ok {op : Operation} {ops : List Operation} {s s' : Stack F}
    (h : (binary op).on s = (.ok (), s')) : (applyAll (op :: ops)).on s = (applyAll ops).on s' :=
  bind_on_of_ok h

/-- **Operations join as many operands, and the one above them, to a single tree.** What lies below
stays. -/
theorem applyAll_on_pushAll {operands : List (Tree F)} {ops : List Operation}
    (h : operands.length = ops.length) (below : Stack F) (top : Tree F) :
    (applyAll ops).on ((below.pushAll operands).push top) =
      (.ok (), below.push (.joinRight operands ops.reverse top)) := by
  induction ops generalizing operands top with
  | nil =>
    obtain rfl := List.length_eq_zero_iff.mp h
    rfl
  | cons op ops ih =>
    -- The first operation takes the last operand and the top.
    obtain rfl | ⟨operands, t, rfl⟩ := operands.eq_nil_or_concat
    · cases h
    rw [List.concat_eq_append] at h ⊢
    have hlength : operands.length = ops.length := by simpa using h
    rw [Stack.pushAll_append, applyAll_cons_on_of_ok (binary_on_push_push op _ t top), ih hlength,
      List.reverse_cons, Tree.joinRight_append (by rw [List.length_reverse, hlength])]

/-- With more than one operand an operation succeeds, and leaves one operand less. -/
theorem binary_on_of_lt (op : Operation) {s : Stack F} (h : 1 < s.size) :
    ∃ next, (binary op).on s = (.ok (), next) ∧ next.size + 1 = s.size := by
  obtain rfl | ⟨below, r, rfl⟩ := s.eq_empty_or_push
  · cases h
  obtain rfl | ⟨below, l, rfl⟩ := below.eq_empty_or_push
  · exact absurd h (Nat.lt_irrefl 1)
  · exact ⟨_, binary_on_push_push op below l r, rfl⟩

end Action

/-! ## Adding up -/

namespace Stack

/-- The runs of the loop that adds the two topmost operands as long as there is more than one: how many
additions it made, and the stack that it left. An addition that fails would have no run. -/
inductive AddsUp : Stack F → Nat → Stack F → Prop
  | done {s : Stack F} (h : s.size ≤ 1) : AddsUp s 0 s
  | add {s next last : Stack F} {n : Nat} (h : 1 < s.size)
      (hadd : (Action.binary .add).on s = (.ok (), next)) (hrest : next.AddsUp n last) :
      AddsUp s (n + 1) last

variable {s last : Stack F} {n : Nat}

theorem collapse_on_of_le (h : s.size ≤ 1) : Action.collapse.on s = (.ok (), s) := by
  have hzero : s.size - 1 = 0 := by omega
  show (Action.applyAll (List.replicate (s.size - 1) .add)).on s = _
  rw [hzero]
  rfl

theorem collapse_on_of_add {next : Stack F} (hadd : (Action.binary .add).on s = (.ok (), next))
    (hsize : next.size + 1 = s.size) (h : 1 < s.size) :
    Action.collapse.on s = Action.collapse.on next := by
  have hsucc : s.size - 1 = next.size - 1 + 1 := by omega
  show (Action.applyAll (List.replicate (s.size - 1) .add)).on s = _
  rw [hsucc, List.replicate_succ, Action.applyAll_cons_on_of_ok hadd]
  rfl

/-- **The loop has exactly one run**, of one addition less than there are operands. -/
theorem addsUp_iff : s.AddsUp n last ↔ n = s.size - 1 ∧ Action.collapse.on s = (.ok (), last) := by
  constructor
  · intro h
    induction h with
    | done h => exact ⟨by omega, collapse_on_of_le h⟩
    | @add s next last n h hadd _ ih =>
      obtain ⟨next', hadd', hsize⟩ := Action.binary_on_of_lt .add h
      obtain rfl : next = next' := congrArg Prod.snd (hadd.symm.trans hadd')
      obtain ⟨hn, hrest⟩ := ih
      exact ⟨by omega, (collapse_on_of_add hadd hsize h).trans hrest⟩
  · rintro ⟨hn, hcollapse⟩
    induction n generalizing s with
    | zero =>
      have hle : s.size ≤ 1 := by omega
      rw [collapse_on_of_le hle] at hcollapse
      obtain rfl : s = last := congrArg Prod.snd hcollapse
      exact .done hle
    | succ n ih =>
      have hlt : 1 < s.size := by omega
      obtain ⟨next, hadd, hsize⟩ := Action.binary_on_of_lt .add hlt
      rw [collapse_on_of_add hadd hsize hlt] at hcollapse
      exact .add hlt hadd (ih (by omega) hcollapse)

/-- The sum of all operands. -/
theorem collapse_on_of_bottomUp {operands : List (Tree F)} {top : Tree F}
    (h : s.bottomUp = operands ++ [top]) : Action.collapse.on s =
      (.ok (), empty.push (.joinRight operands (List.replicate operands.length .add) top)) := by
  have hsize : s.size - 1 = operands.length := by
    rw [size_eq_length, h, List.length_append]
    rfl
  show (Action.applyAll (List.replicate (s.size - 1) .add)).on s = _
  rw [hsize, eq_pushAll_push h, Action.applyAll_on_pushAll List.length_replicate.symm,
    List.reverse_replicate]

end Stack

/-! ## The stack after each operation -/

/-- After some of the operations, the operands that they have not reached are as they were, and all
others are joined. -/
theorem Action.applyAll_take_on {s : Stack F} {operands : List (Tree F)} {top : Tree F}
    {ops : List Operation} (hs : s.bottomUp = operands ++ [top]) (h : operands.length = ops.length)
    (k : Nat) :
    ∃ s', (applyAll (ops.take k)).on s = (.ok (), s') ∧
      s'.bottomUp = operands.take (ops.length - k) ++
        [.joinRight (operands.drop (ops.length - k)) (ops.take k).reverse top] := by
  have hlength : (operands.drop (ops.length - k)).length = (ops.take k).length := by
    rw [List.length_drop, List.length_take]
    omega
  have hstack : s = ((Stack.empty.pushAll (operands.take (ops.length - k))).pushAll
      (operands.drop (ops.length - k))).push top := by
    refine Stack.eq_of_bottomUp (hs.trans ?_)
    rw [Stack.bottomUp_push, Stack.bottomUp_pushAll, Stack.bottomUp_pushAll, Stack.bottomUp_empty,
      List.nil_append, List.take_append_drop]
  refine ⟨_, hstack ▸ applyAll_on_pushAll hlength _ top, ?_⟩
  rw [Stack.bottomUp_push, Stack.bottomUp_pushAll, Stack.bottomUp_empty, List.nil_append]

/-- **Operations applied one after the other nest to the right.** With one operation less than there are
operands none fails; after any number of them the lowest operands are as they were and the others are
joined to one tree; at the end there is a single tree, in which the operands have their order and the
operations the opposite one, and a further operation fails and changes nothing. The loop that adds as long
as there is more than one operand ends on every stack, with the sum of all operands unless there is
none. -/
theorem applyAll_joinRight (F : Format) :
    (∀ (s : Stack F) (operands : List (Tree F)) (top : Tree F) (ops : List Operation),
      s.bottomUp = operands ++ [top] → operands.length = ops.length →
      (∀ k, ∃ s', (Action.applyAll (ops.take k)).on s = (.ok (), s') ∧
        s'.bottomUp = operands.take (ops.length - k) ++
          [.joinRight (operands.drop (ops.length - k)) (ops.take k).reverse top]) ∧
      (Tree.joinRight operands ops.reverse top).literals =
        (operands ++ [top]).flatMap Tree.literals ∧
      ∃ last, (Action.applyAll ops).on s = (.ok (), last) ∧
        last.finish = .ok (.joinRight operands ops.reverse top) ∧
        ∀ op, (Action.binary op).on last = (.error (.missingLeftOperand op), last)) ∧
    (∀ (s : Stack F) (operands : List (Tree F)) (top : Tree F), s.bottomUp = operands ++ [top] →
      ∃ last, (∀ n s', s.AddsUp n s' ↔ n = operands.length ∧ s' = last) ∧
        last.finish = .ok (.joinRight operands (List.replicate operands.length .add) top)) ∧
    ∀ s : Stack F, ∃ last, s.AddsUp (s.size - 1) last ∧ Action.collapse.on s = (.ok (), last) ∧
      ((∃ cause, last.finish = .error cause) ↔ s = .empty) := by
  refine ⟨fun s operands top ops hs hlength => ?_, fun s operands top hs => ?_, fun s => ?_⟩
  · refine ⟨Action.applyAll_take_on hs hlength,
      Tree.literals_joinRight (by rw [List.length_reverse, hlength]) top,
      .push .empty (.joinRight operands ops.reverse top), ?_, rfl, fun op => ?_⟩
    · rw [Stack.eq_pushAll_push hs]
      exact Action.applyAll_on_pushAll hlength .empty top
    · exact Action.binary_on_single op _
  · refine ⟨_, fun n s' => ?_, Stack.finish_push_empty _⟩
    rw [Stack.addsUp_iff, Stack.collapse_on_of_bottomUp hs, Stack.size_eq_length, hs, List.length_append]
    constructor
    · rintro ⟨hn, hlast⟩
      exact ⟨hn, (congrArg Prod.snd hlast).symm⟩
    · rintro ⟨hn, rfl⟩
      exact ⟨hn, rfl⟩
  · obtain rfl | ⟨below, top, rfl⟩ := s.eq_empty_or_push
    · have hcollapse : Action.collapse.on (.empty : Stack F) = (.ok (), .empty) := rfl
      exact ⟨_, Stack.addsUp_iff.mpr ⟨rfl, hcollapse⟩, hcollapse, iff_of_true ⟨.emptyStack, rfl⟩ rfl⟩
    · have hcollapse := Stack.collapse_on_of_bottomUp (Stack.bottomUp_push below top)
      refine ⟨_, Stack.addsUp_iff.mpr ⟨rfl, hcollapse⟩, hcollapse, iff_of_false ?_ ?_⟩
      · rintro ⟨cause, h⟩
        cases h
      · intro h
        cases h

/-- With `1`, `2` and `3` on the stack, an addition and then a multiplication give `(1 * (2 + 3))`, and
the loop gives `(1 + (2 + 3))` after two additions. -/
theorem applyAll_joinRight_three :
    let one : Tree .binary32 := .num (.ofInt .binary32 1)
    let two : Tree .binary32 := .num (.ofInt .binary32 2)
    let three : Tree .binary32 := .num (.ofInt .binary32 3)
    let s : Stack .binary32 := ((Stack.empty.push one).push two).push three
    s.bottomUp = [one, two] ++ [three] ∧
    (∃ last, (Action.applyAll [.add, .mul]).on s = (.ok (), last) ∧
      last.finish = .ok (.binary .mul one (.binary .add two three))) ∧
    ∃ last, (∀ n s', s.AddsUp n s' ↔ n = 2 ∧ s' = last) ∧
      last.finish = .ok (.binary .add one (.binary .add two three)) := by
  intro one two three s
  have hs : s.bottomUp = [one, two] ++ [three] := rfl
  obtain ⟨happly, hloop, -⟩ := applyAll_joinRight .binary32
  obtain ⟨-, -, last, hlast, hfinish, -⟩ := happly s [one, two] three [.add, .mul] hs rfl
  exact ⟨hs, ⟨last, hlast, hfinish⟩, hloop s [one, two] three hs⟩

end ArithTree
