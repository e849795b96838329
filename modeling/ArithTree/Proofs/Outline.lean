import ArithTree.Proofs.Binary.Conversion
import ArithTree.Proofs.NaN

/-!
# Data in the shape of a tree

Structured data may hold a tree whose leaves are numbers of any type: real numbers of either width,
infinities and NaNs among them, and integers. It is read without loss as far as the format of the tree
allows, however deep it is.

* `Outline`: a tree with numbers of any type at its leaves, and the data that holds it.
* `Scalar.Becomes`, `Outline.Becomes`: the literals and the trees that come of them, by exact values.
* `Outline.readTree_ok_or_error`: an outline is read, or refused for its NaNs, wherever they stand.
* `readTree_outline`: what is read from outlines.
-/

namespace ArithTree

variable {F G : Format}

/-! ## Outlines -/

/-- A number of a type that data knows. Real numbers are given by their encodings. -/
inductive Scalar where
  | real (G : Format) (bits : BitVec G.width)
  | unsigned (n : Nat)
  | signed (i : Int)

/-- A tree with numbers of any type at its leaves. -/
inductive Outline where
  | num (s : Scalar)
  | binary (op : Operation) (left right : Outline)
  | neg (operand : Outline)

/-- The number as data. -/
def Scalar.data : Scalar → Data
  | .real G bits => .real G (.ofBits bits)
  | .unsigned n => .unsigned n
  | .signed i => .signed i

/-- The outline as data: each node is a variant with the name of its kind, and two operands are a
sequence. -/
def Outline.data : Outline → Data
  | .num s => .variant NodeKind.num.name s.data
  | .binary op l r => .variant (NodeKind.binary op).name (.seq [l.data, r.data])
  | .neg e => .variant NodeKind.neg.name e.data

/-- The outline of a tree, with the bits of its literals. -/
def Tree.outline : Tree F → Outline
  | .num x => .num (.real F x.toBits)
  | .binary op l r => .binary op l.outline r.outline
  | .neg e => .neg e.outline

/-- The literals that come of a number: a real number that is not NaN is converted, and an integer becomes
the number nearest to it. An integer zero is positive. -/
def Scalar.Becomes (y : Number F) : Scalar → Prop
  | .real G bits => ∃ x : Number G, x.toBits = bits ∧ x.ConvertsTo y
  | .unsigned n => y.negative = false ∧ y.IsNearest n
  | .signed i => y.negative = decide (i < 0) ∧ y.IsNearest i

/-- The trees that come of an outline have its shape. -/
inductive Outline.Becomes : Outline → Tree F → Prop
  | num {s : Scalar} {y : Number F} (h : s.Becomes y) : Becomes (.num s) (.num y)
  | binary (op : Operation) {l r : Outline} {left right : Tree F} (hl : l.Becomes left)
      (hr : r.Becomes right) : Becomes (.binary op l r) (.binary op left right)
  | neg {e : Outline} {operand : Tree F} (h : e.Becomes operand) : Becomes (.neg e) (.neg operand)

/-! ## Leaves -/

theorem Number.eq_ofInt_iff {y : Number F} {i : Int} :
    ofInt F i = y ↔ y.negative = decide (i < 0) ∧ y.IsNearest i := by
  constructor
  · rintro rfl
    exact ⟨rfl, isNearest_ofInt F i⟩
  · rintro ⟨hsign, hnearest⟩
    exact hnearest.unique (isNearest_ofInt F i) hsign.symm

theorem Scalar.toValue?_data_iff {s : Scalar} {y : Number F} :
    s.data.toValue? F = some (.number y) ↔ s.Becomes y := by
  cases s with
  | real G bits =>
    rw [data, Data.toValue?_real, Option.some_inj]
    unfold Becomes
    constructor
    · intro h
      obtain ⟨-, hv⟩ | ⟨-, x, hv, hx⟩ := Value.ofBits_cases bits
      · rw [hv] at h
        cases h
      · rw [hv] at h
        exact ⟨x, hx, Number.convertsTo_iff.mpr (Value.number.inj h)⟩
    · rintro ⟨x, rfl, h⟩
      rw [Value.ofBits_toBits, ← Number.convertsTo_iff.mp h]
      rfl
  | unsigned n =>
    have h := Number.eq_ofInt_iff (y := y) (i := n)
    rw [decide_eq_false (by omega), Int.cast_natCast] at h
    rw [Becomes, ← h, data, Data.toValue?, Option.some_inj, Value.number.injEq]
  | signed i =>
    rw [Becomes, ← Number.eq_ofInt_iff, data, Data.toValue?, Option.some_inj, Value.number.injEq]

theorem Scalar.readLiteral_data_iff {s : Scalar} {y : Number F} :
    s.data.readLiteral F = .ok y ↔ s.Becomes y :=
  Data.readLiteral_eq_ok_iff.trans toValue?_data_iff

theorem Data.exists_readLiteral {d : Data} {y : Number F} (h : d.toValue? F = some (.number y)) :
    ∃ y, d.readLiteral F = .ok y ∧ ¬ d.HasNaN :=
  ⟨y, readLiteral_eq_ok_iff.mpr h, not_hasNaN_of_toValue? h⟩

/-- A number is read as a literal, or is a NaN and refused. -/
theorem Scalar.readLiteral_ok_or_error (F : Format) (s : Scalar) :
    (∃ y, s.data.readLiteral F = .ok y ∧ ¬ s.data.HasNaN) ∨
      s.data.readLiteral F = .error .nanLiteral ∧ s.data.HasNaN := by
  cases s with
  | real G bits =>
    have hvalue : (data (.real G bits)).toValue? F = some ((Value.ofBits bits).convert F) :=
      Data.toValue?_real F _
    obtain ⟨hnan, hv⟩ | ⟨-, x, hv, -⟩ := Value.ofBits_cases bits
    · rw [hv] at hvalue
      refine Or.inr ⟨?_, ?_⟩
      · unfold Data.readLiteral
        rw [hvalue]
        rfl
      · cases G with
        | binary32 => exact .real32 hnan
        | binary64 => exact .real64 hnan
    · rw [hv] at hvalue
      exact Or.inl (Data.exists_readLiteral hvalue)
  | unsigned n => exact Or.inl (Data.exists_readLiteral (d := .unsigned n) rfl)
  | signed i => exact Or.inl (Data.exists_readLiteral (d := .signed i) rfl)

/-! ## Nodes -/

namespace Data

theorem readTree_binary (F : Format) (op : Operation) (l r : Data) :
    (variant (NodeKind.binary op).name (.seq [l, r])).readTree F =
      l.readTree F >>= fun left => r.readTree F >>= fun right => .ok (.binary op left right) := by
  rw [readTree, NodeKind.ofName_eq_ok_iff.mpr rfl]
  rfl

theorem readTree_neg (F : Format) (content : Data) :
    (variant NodeKind.neg.name content).readTree F =
      content.readTree F >>= fun operand => .ok (.neg operand) := by
  rw [readTree, NodeKind.ofName_eq_ok_iff.mpr rfl]
  rfl

theorem hasNaN_variant_iff {name : List Char} {content : Data} :
    (variant name content).HasNaN ↔ content.HasNaN := by
  constructor
  · rintro (_ | _ | _ | h)
    exact h
  · exact .variant

theorem hasNaN_pair_iff {l r : Data} : (seq [l, r]).HasNaN ↔ l.HasNaN ∨ r.HasNaN := by
  constructor
  · rintro (_ | _ | ⟨hmem, h⟩)
    rcases List.mem_pair.mp hmem with rfl | rfl
    · exact Or.inl h
    · exact Or.inr h
  · rintro (h | h)
    · exact .seq (List.mem_cons_self ..) h
    · exact .seq (List.mem_cons_of_mem _ (List.mem_singleton_self _)) h

end Data

namespace Outline

/-- **What is read from an outline is what comes of it**, and nothing else. -/
theorem readTree_data_iff {o : Outline} {t : Tree F} : o.data.readTree F = .ok t ↔ o.Becomes t := by
  induction o generalizing t with
  | num s =>
    simp only [data, Data.readTree_num, bind_eq_ok_iff, Scalar.readLiteral_data_iff]
    constructor
    · rintro ⟨y, hy, h⟩
      cases h
      exact .num hy
    · rintro ⟨hy⟩
      exact ⟨_, hy, rfl⟩
  | binary op l r ihl ihr =>
    simp only [data, Data.readTree_binary, bind_eq_ok_iff, ihl, ihr]
    constructor
    · rintro ⟨left, hl, right, hr, h⟩
      cases h
      exact .binary op hl hr
    · rintro (_ | ⟨_, hl, hr⟩)
      exact ⟨_, hl, _, hr, rfl⟩
  | neg e ih =>
    simp only [data, Data.readTree_neg, bind_eq_ok_iff, ih]
    constructor
    · rintro ⟨operand, he, h⟩
      cases h
      exact .neg he
    · rintro (_ | _ | he)
      exact ⟨_, he, rfl⟩

/-- **An outline is read, or refused for its NaNs**, wherever they stand. -/
theorem readTree_ok_or_error (F : Format) (o : Outline) :
    (∃ t, o.data.readTree F = .ok t ∧ ¬ o.data.HasNaN) ∨
      o.data.readTree F = .error .nanLiteral ∧ o.data.HasNaN := by
  induction o with
  | num s =>
    rw [data, Data.readTree_num, Data.hasNaN_variant_iff]
    obtain ⟨y, hy, hn⟩ | ⟨he, hn⟩ := s.readLiteral_ok_or_error F
    · rw [hy]
      exact Or.inl ⟨_, rfl, hn⟩
    · rw [he]
      exact Or.inr ⟨rfl, hn⟩
  | binary op l r ihl ihr =>
    rw [data, Data.readTree_binary, Data.hasNaN_variant_iff, Data.hasNaN_pair_iff]
    obtain ⟨left, hl, hnl⟩ | ⟨hl, hnl⟩ := ihl
    · obtain ⟨right, hr, hnr⟩ | ⟨hr, hnr⟩ := ihr
      · rw [hl, hr]
        exact Or.inl ⟨_, rfl, not_or.mpr ⟨hnl, hnr⟩⟩
      · rw [hl, hr]
        exact Or.inr ⟨rfl, Or.inr hnr⟩
    · rw [hl]
      exact Or.inr ⟨rfl, Or.inl hnl⟩
  | neg e ih =>
    rw [data, Data.readTree_neg, Data.hasNaN_variant_iff]
    obtain ⟨operand, he, hn⟩ | ⟨he, hn⟩ := ih
    · rw [he]
      exact Or.inl ⟨_, rfl, hn⟩
    · rw [he]
      exact Or.inr ⟨rfl, hn⟩

end Outline

/-! ## Trees -/

theorem Tree.outline_becomes (t : Tree F) : t.outline.Becomes t := by
  induction t with
  | num x => exact .num ⟨x, rfl, x.convertsTo_self⟩
  | binary op l r ihl ihr => exact .binary op ihl ihr
  | neg e ih => exact .neg ih

/-- **Data in the shape of a tree is read without loss.** The data of a tree is read as this tree, with the
same bits at its leaves, infinities, zeros of either sign and subnormal numbers included. Data whose leaves
are numbers of any type is read as the tree of its shape with these numbers in the format of the tree:
infinity stays infinity, any other real number and any integer becomes the number nearest to it, even
between two numbers, and in a format that is not narrower a real number becomes itself. If any leaf is
a NaN, wherever it stands, the data is refused for it. -/
theorem readTree_outline :
    (∀ (F : Format) (t : Tree F), t.outline.data.readTree F = .ok t) ∧
    (∀ (F : Format) (o : Outline) (t : Tree F), o.data.readTree F = .ok t ↔ o.Becomes t) ∧
    (∀ (F : Format) (o : Outline), ¬ o.data.HasNaN → ∃ t : Tree F, o.data.readTree F = .ok t) ∧
    (∀ (F : Format) (o : Outline), o.data.HasNaN → o.data.readTree F = .error .nanLiteral) ∧
    Mismatch.nanLiteral.message = "Invalid literal - number literal must not be NaN" ∧
    ∀ (F G : Format) (x : Number G) (y : Number F), G.width ≤ F.width → x.isInfinite = false →
      x.ConvertsTo y → y.isInfinite = false ∧ y.value = x.value := by
  refine ⟨fun F t => Outline.readTree_data_iff.mpr t.outline_becomes,
    fun F o t => Outline.readTree_data_iff, fun F o hnone => ?_, fun F o hnan => ?_, rfl,
    fun F G x y hwidth hx h => h.exact hwidth hx⟩
  · obtain ⟨t, ht, -⟩ | ⟨-, hnan⟩ := o.readTree_ok_or_error F
    · exact ⟨t, ht⟩
    · exact absurd hnan hnone
  · obtain ⟨-, -, hnone⟩ | ⟨he, -⟩ := o.readTree_ok_or_error F
    · exact absurd hnan hnone
    · exact he

/-- An integer times the least subnormal number of 32 bits, of which 64 bits lose nothing. A sum with
a signalling NaN under a sign change is refused. -/
theorem readTree_outline_mixed :
    let least : Number .binary32 := ⟨false, 1, by decide⟩
    let product : Outline :=
      .binary .mul (.num (.signed (-3))) (.num (.real .binary32 0x00000001#32))
    let sum : Outline := .binary .add (.num (.unsigned 18446744073709551615))
      (.neg (.num (.real .binary64 0x7ff0000000000001#64)))
    ¬ product.data.HasNaN ∧ (∃ t : Tree .binary64, product.data.readTree .binary64 = .ok t) ∧
      sum.data.HasNaN ∧ sum.data.readTree .binary32 = .error .nanLiteral ∧
      (least.convert .binary64).value = least.value := by
  intro least product sum
  obtain ⟨-, hread, hsome, hnan, -, hexact⟩ := readTree_outline
  have hproduct : product.Becomes (.binary .mul (.num (.ofInt .binary64 (-3)))
      (.num (least.convert .binary64))) :=
    .binary .mul (.num (Number.eq_ofInt_iff.mp rfl))
      (.num ⟨least, rfl, Number.convertsTo_convert _ least⟩)
  have hnone : ¬ product.data.HasNaN :=
    (Data.readTree_eq_ok_iff.mp ((hread _ product _).mpr hproduct)).not_hasNaN
  have hsum : sum.data.HasNaN :=
    .variant (.seq (List.mem_cons_of_mem _ (List.mem_singleton_self _))
      (.variant (.variant (.real64 ((Format.isNaN_iff .binary64 _).mpr (by decide))))))
  exact ⟨hnone, hsome .binary64 product hnone, hsum, hnan .binary32 sum hsum,
    (hexact .binary64 .binary32 least _ (by decide) (by decide)
      (Number.convertsTo_convert _ least)).2⟩

end ArithTree
