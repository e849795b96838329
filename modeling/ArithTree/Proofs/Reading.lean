import ArithTree.Data

/-!
# What is read from drafts and from structured data

A draft and a piece of structured data are read from left to right and refused at the first fault.
Here is what the readers accept, said without them.

* `Tree.draft`, `build_eq_ok_iff`: a draft is built exactly if it is a tree written as a draft.
* `Data.Describes`, `readTree_eq_ok_iff`: data is read as a tree exactly if it describes that tree,
  node by node and with nothing else in it.
-/

namespace ArithTree

variable {F : Format}

/-- A computation followed by another gives a result exactly if both do. -/
theorem bind_eq_ok_iff {ε α β : Type} {x : Except ε α} {f : α → Except ε β} {b : β} :
    x >>= f = .ok b ↔ ∃ a, x = .ok a ∧ f a = .ok b := by
  cases x with
  | error e => simp [bind, Except.bind]
  | ok a => simp [bind, Except.bind]

/-- It fails exactly if the first one does, or the second one behind it. -/
theorem bind_eq_error_iff {ε α β : Type} {x : Except ε α} {f : α → Except ε β} {e : ε} :
    x >>= f = .error e ↔ x = .error e ∨ ∃ a, x = .ok a ∧ f a = .error e := by
  cases x with
  | error e' => simp [bind, Except.bind]
  | ok a => simp [bind, Except.bind]

/-! ## Literals -/

theorem Value.toLiteral_eq_ok_iff {v : Value F} {x : Number F} :
    v.toLiteral = .ok x ↔ v = .number x := by
  cases v <;> simp [toLiteral]

/-! ## Drafts -/

/-- The values at the leaves, from left to right. -/
def Draft.values : Draft F → List (Value F)
  | .num v => [v]
  | .binary _ l r => l.values ++ r.values
  | .neg e => e.values

/-- A tree as a draft. -/
def Tree.draft : Tree F → Draft F
  | .num x => .num (.number x)
  | .binary op l r => .binary op l.draft r.draft
  | .neg e => .neg e.draft

theorem Draft.build_eq_ok_iff {d : Draft F} {t : Tree F} : d.build = .ok t ↔ d = t.draft := by
  induction d generalizing t with
  | num v =>
    simp only [build, bind_eq_ok_iff, Value.toLiteral_eq_ok_iff]
    constructor
    · rintro ⟨x, rfl, h⟩
      cases h
      rfl
    · intro h
      cases t with
      | num x => cases h; exact ⟨x, rfl, rfl⟩
      | binary op l r => cases h
      | neg e => cases h
  | binary op l r ihl ihr =>
    simp only [build, bind_eq_ok_iff, ihl, ihr]
    constructor
    · rintro ⟨left, rfl, right, rfl, h⟩
      cases h
      rfl
    · intro h
      cases t with
      | num x => cases h
      | binary op left right => cases h; exact ⟨left, rfl, right, rfl, rfl⟩
      | neg e => cases h
  | neg e ih =>
    simp only [build, bind_eq_ok_iff, ih]
    constructor
    · rintro ⟨operand, rfl, h⟩
      cases h
      rfl
    · intro h
      cases t with
      | num x => cases h
      | binary op l r => cases h
      | neg operand => cases h; exact ⟨operand, rfl, rfl⟩

/-- A draft is built or holds a NaN, which is then the cause. -/
theorem Draft.build_ok_or_error (d : Draft F) :
    (∃ t, d.build = .ok t ∧ .nan ∉ d.values) ∨
      d.build = .error .nanLiteral ∧ .nan ∈ d.values := by
  induction d with
  | num v =>
    cases v with
    | nan => exact Or.inr ⟨rfl, List.mem_singleton_self _⟩
    | number x => exact Or.inl ⟨.num x, rfl, by simp [values]⟩
  | binary op l r ihl ihr =>
    obtain ⟨left, hl, hnl⟩ | ⟨hl, hnl⟩ := ihl
    · obtain ⟨right, hr, hnr⟩ | ⟨hr, hnr⟩ := ihr
      · refine Or.inl ⟨.binary op left right, ?_, by simp [values, hnl, hnr]⟩
        unfold build
        rw [hl, hr]
        rfl
      · refine Or.inr ⟨?_, by simp [values, hnr]⟩
        unfold build
        rw [hl, hr]
        rfl
    · refine Or.inr ⟨?_, by simp [values, hnl]⟩
      unfold build
      rw [hl]
      rfl
  | neg e ih =>
    obtain ⟨operand, he, hn⟩ | ⟨he, hn⟩ := ih
    · refine Or.inl ⟨.neg operand, ?_, hn⟩
      unfold build
      rw [he]
      rfl
    · refine Or.inr ⟨?_, hn⟩
      unfold build
      rw [he]
      rfl

/-! ## Structured data -/

theorem NodeKind.ofName_eq_ok_iff {name : List Char} {kind : NodeKind} :
    ofName name = .ok kind ↔ name = kind.name := by
  constructor
  · intro h
    unfold ofName at h
    split at h
    · rename_i kind' hfind
      cases h
      have hname := List.find?_some hfind
      exact (beq_iff_eq.mp hname).symm
    · cases h
  · rintro rfl
    unfold ofName
    rw [ofName?_name]

theorem Data.readLiteral_eq_ok_iff {d : Data} {x : Number F} :
    d.readLiteral F = .ok x ↔ d.toValue? F = some (.number x) := by
  unfold readLiteral
  split <;> simp_all

/-- Data describes a tree: it is a variant with the name of the tree's kind, and its content is a
number that is not NaN, the data of the operand, or the data of the two operands and nothing else. -/
inductive Data.Describes : Data → Tree F → Prop
  | num {content : Data} {x : Number F} (h : content.toValue? F = some (.number x)) :
      Describes (.variant NodeKind.num.name content) (.num x)
  | binary (op : Operation) {l r : Data} {left right : Tree F} (hl : l.Describes left)
      (hr : r.Describes right) :
      Describes (.variant (NodeKind.binary op).name (.seq [l, r])) (.binary op left right)
  | neg {content : Data} {e : Tree F} (h : content.Describes e) :
      Describes (.variant NodeKind.neg.name content) (.neg e)

theorem Data.describes_of_readTree {d : Data} {t : Tree F} (h : d.readTree F = .ok t) :
    d.Describes t := by
  fun_induction Data.readTree F d generalizing t with
  | case1 name content ihcontent ihitems =>
    obtain ⟨kind, hkind, hnode⟩ := bind_eq_ok_iff.mp h
    clear h
    obtain rfl := NodeKind.ofName_eq_ok_iff.mp hkind
    cases kind with
    | num =>
      obtain ⟨x, hx, htree⟩ := bind_eq_ok_iff.mp hnode
      cases htree
      exact .num (readLiteral_eq_ok_iff.mp hx)
    | neg =>
      obtain ⟨e, he, htree⟩ := bind_eq_ok_iff.mp hnode
      cases htree
      exact .neg (ihcontent he)
    | binary op =>
      match content, ihitems, hnode with
      | .seq [l], _, hnode =>
        obtain ⟨_, _, herror⟩ := bind_eq_ok_iff.mp hnode
        cases herror
      | .seq (l :: r :: others), ⟨ihl, ihr⟩, hnode =>
        obtain ⟨left, hl, hnode⟩ := bind_eq_ok_iff.mp hnode
        obtain ⟨right, hr, htree⟩ := bind_eq_ok_iff.mp hnode
        cases others with
        | nil =>
          cases htree
          exact .binary op (ihl hl) (ihr hr)
        | cons other others => cases htree
  | case2 => cases h

theorem Data.readTree_of_describes {d : Data} {t : Tree F} (h : d.Describes t) :
    d.readTree F = .ok t := by
  induction h with
  | num h =>
    have hx := readLiteral_eq_ok_iff.mpr h
    rw [readTree]
    refine bind_eq_ok_iff.mpr ⟨.num, NodeKind.ofName_eq_ok_iff.mpr rfl, ?_⟩
    exact bind_eq_ok_iff.mpr ⟨_, hx, rfl⟩
  | binary op hl hr ihl ihr =>
    rw [readTree]
    refine bind_eq_ok_iff.mpr ⟨.binary op, NodeKind.ofName_eq_ok_iff.mpr rfl, ?_⟩
    exact bind_eq_ok_iff.mpr ⟨_, ihl, bind_eq_ok_iff.mpr ⟨_, ihr, rfl⟩⟩
  | neg h ih =>
    rw [readTree]
    refine bind_eq_ok_iff.mpr ⟨.neg, NodeKind.ofName_eq_ok_iff.mpr rfl, ?_⟩
    exact bind_eq_ok_iff.mpr ⟨_, ih, rfl⟩

/-- **Data is read as a tree exactly if it describes that tree.** -/
theorem Data.readTree_eq_ok_iff {d : Data} {t : Tree F} :
    d.readTree F = .ok t ↔ d.Describes t :=
  ⟨describes_of_readTree, readTree_of_describes⟩

end ArithTree
