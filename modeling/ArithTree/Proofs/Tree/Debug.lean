import Mathlib.Data.List.Forall2
import ArithTree.Proofs.Json.RoundTrip
import ArithTree.Stack

/-!
# Debug output and JSON texts are unambiguous

In debug output a node is a name with its arguments in parentheses, and the same comma stands between
the operands of a node as between those of a stack. It is told where a tree ends without a look at what
stands behind it: names have one length, and the parenthesis that closes a number cannot stand in it.

* `Number.debugText_injective`: positional or with an exponent, the text of a finite number is a numeral,
  and its value is that of the shortest decimal of no other magnitude.
* `Tree.debugText_append_inj`: a text that starts with a tree determines the tree and the rest.
* `Tree.intercalate_append_inj`: the same for a list of trees, up to the bracket that closes it.
* `debug_eq_iff`: equal texts, in debug output or in JSON, are those of identical trees.
-/

namespace ArithTree

variable {F : Format}

/-! ## Numbers -/

namespace Number

variable {x y : Number F}

theorem signText_inj : x.signText = y.signText ↔ x.negative = y.negative := by
  unfold signText
  cases x.negative <;> cases y.negative <;> simp

/-- Numbers whose shortest decimals have the same value have the same magnitude. -/
theorem rank_eq_of_value_shortest_eq {tie : Tie}
    (h : (x.shortest tie).value = (y.shortest tie).value) : x.rank = y.rank := by
  obtain ⟨p, hp, hvalue⟩ := exists_steps_shortest tie x
  obtain ⟨q, hq, hvalue'⟩ := exists_steps_shortest tie y
  rw [h, hvalue'] at hvalue
  obtain rfl : q = p := by exact_mod_cast hvalue
  exact rank_eq_of_contains hp hq

theorem debugText_of_isInfinite (hx : x.isInfinite) :
    x.debugText = x.signText ++ ['i', 'n', 'f'] := by
  unfold debugText
  rw [if_pos hx]

/-- The text of a finite number is a numeral that stands for its shortest decimal. -/
theorem exists_spells_debugText (hx : x.isInfinite = false) :
    ∃ n : Json.Numeral, n.Spells x.debugText ∧ n.negative = x.negative ∧
      n.value = (x.shortest NumberStyle.debug.tie).value := by
  obtain ⟨n, hspells, hstands⟩ := Json.Numeral.exists_spells_write .debug x.negative
    (x.shortest NumberStyle.debug.tie)
  refine ⟨n, ?_, hstands.negative_eq, hstands.value_eq⟩
  unfold debugText
  rw [if_neg (Bool.eq_false_iff.mp hx)]
  exact hspells.spells

/-- A character in the text of a number is one of a numeral, or of infinity. -/
theorem isTextChar_of_mem_debugText {c : Char} (h : c ∈ x.debugText) :
    Json.Numeral.isTextChar c ∨ (c ∈ ['i', 'n', 'f'] ∧ x.isInfinite) := by
  by_cases hx : x.isInfinite
  · rw [debugText_of_isInfinite hx] at h
    rcases List.mem_append.mp h with h | h
    · unfold signText at h
      split at h
      · exact Or.inl (List.mem_singleton.mp h ▸ rfl)
      · cases h
    · exact Or.inr ⟨h, hx⟩
  · obtain ⟨n, hspells, -⟩ := exists_spells_debugText (Bool.not_eq_true _ ▸ hx)
    exact Or.inl (Json.Numeral.isTextChar_of_mem hspells h)

theorem i_mem_debugText : 'i' ∈ x.debugText ↔ x.isInfinite := by
  constructor
  · intro h
    rcases isTextChar_of_mem_debugText h with h | ⟨-, h⟩
    · cases h
    · exact h
  · intro h
    rw [debugText_of_isInfinite h]
    exact List.mem_append_right _ (List.mem_cons_self ..)

theorem parenthesis_notMem_debugText (x : Number F) : ')' ∉ x.debugText := by
  intro h
  rcases isTextChar_of_mem_debugText h with h | ⟨h, -⟩
  · cases h
  · exact absurd h (by decide)

/-- **The text of a number in debug output determines the number**, infinities and the sign of a zero
included. -/
theorem debugText_injective : Function.Injective (debugText (F := F)) := by
  intro x y h
  have hinfinite : x.isInfinite = y.isInfinite := by
    rw [Bool.eq_iff_iff, ← i_mem_debugText, ← i_mem_debugText, h]
  by_cases hx : x.isInfinite
  · have hy : y.isInfinite := hinfinite ▸ hx
    rw [debugText_of_isInfinite hx, debugText_of_isInfinite hy] at h
    have hsign := signText_inj.mp (List.append_cancel_right h)
    exact Number.ext hsign ((isInfinite_iff.mp hx).trans (isInfinite_iff.mp hy).symm)
  · rw [Bool.not_eq_true] at hx
    obtain ⟨n, hspells, hnegative, hvalue⟩ := exists_spells_debugText hx
    obtain ⟨n', hspells', hnegative', hvalue'⟩ := exists_spells_debugText (hinfinite ▸ hx)
    rw [← h] at hspells'
    obtain rfl := hspells.unique hspells'
    exact Number.ext (hnegative.symm.trans hnegative')
      (rank_eq_of_value_shortest_eq (hvalue.symm.trans hvalue'))

end Number

/-! ## Trees -/

theorem NodeKind.length_name (kind : NodeKind) : kind.name.length = 3 := by
  rcases kind with _ | (_ | _) | _ <;> rfl

/-- What begins with the name of a kind begins with no other. -/
theorem NodeKind.name_append_inj {kind kind' : NodeKind} {u v : List Char}
    (h : kind.name ++ u = kind'.name ++ v) : kind = kind' ∧ u = v := by
  obtain ⟨hname, hrest⟩ := List.append_inj h (by rw [length_name, length_name])
  have hkind := congrArg ofName? hname
  rw [ofName?_name, ofName?_name] at hkind
  exact ⟨Option.some.inj hkind, hrest⟩

/-- What stands before a character that is in neither part. -/
theorem append_cons_inj {l l' u v : List Char} {c : Char} (hl : c ∉ l) (hl' : c ∉ l')
    (h : l ++ c :: u = l' ++ c :: v) : l = l' ∧ u = v := by
  have hbefore {l u : List Char} (hl : c ∉ l) : (l ++ c :: u).takeWhile (· != c) = l := by
    rw [List.takeWhile_append_of_pos fun d hd => bne_iff_ne.mpr (ne_of_mem_of_not_mem hd hl)]
    simp
  obtain rfl : l = l' := by rw [← hbefore hl, h, hbefore hl']
  exact ⟨rfl, (List.cons.inj (List.append_cancel_left h)).2⟩

namespace Tree

/-- The kind of the node at the root. -/
def kind : Tree F → NodeKind
  | .num _ => .num
  | .binary op _ _ => .binary op
  | .neg _ => .neg

/-- The texts of nodes with something behind them, from the left to the right. -/
theorem num_debugText_append (x : Number F) (u : List Char) :
    (num x).debugText ++ u = NodeKind.num.name ++
      (['(', 'N', 'u', 'm', 'b', 'e', 'r', '('] ++ (x.debugText ++ ')' :: (')' :: u))) := by
  simp [debugText, leafOpening]

theorem binary_debugText_append (op : Operation) (l r : Tree F) (u : List Char) :
    (binary op l r).debugText ++ u = (NodeKind.binary op).name ++
      '(' :: (l.debugText ++ ',' :: ' ' :: (r.debugText ++ ')' :: u)) := by
  simp [debugText]

theorem neg_debugText_append (e : Tree F) (u : List Char) :
    (neg e).debugText ++ u = NodeKind.neg.name ++ '(' :: (e.debugText ++ ')' :: u) := by
  simp [debugText]

theorem exists_name_append (t : Tree F) (u : List Char) :
    ∃ rest, t.debugText ++ u = t.kind.name ++ rest := by
  cases t with
  | num x => exact ⟨_, num_debugText_append x u⟩
  | binary op l r => exact ⟨_, binary_debugText_append op l r u⟩
  | neg e => exact ⟨_, neg_debugText_append e u⟩

/-- Texts that are equal start with nodes of the same kind. -/
theorem kind_eq_of_debugText_append {a b : Tree F} {u v : List Char}
    (h : a.debugText ++ u = b.debugText ++ v) : a.kind = b.kind := by
  obtain ⟨rest, ha⟩ := a.exists_name_append u
  obtain ⟨rest', hb⟩ := b.exists_name_append v
  rw [ha, hb] at h
  exact (NodeKind.name_append_inj h).1

/-- **A text that starts with a tree in debug output determines the tree and the rest.** -/
theorem debugText_append_inj {a b : Tree F} {u v : List Char}
    (h : a.debugText ++ u = b.debugText ++ v) : a = b ∧ u = v := by
  have hkind := kind_eq_of_debugText_append h
  induction a generalizing b u v with
  | num x =>
    cases b with
    | num y =>
      rw [num_debugText_append, num_debugText_append] at h
      have harguments := List.append_cancel_left (List.append_cancel_left h)
      obtain ⟨hnumber, hrest⟩ :=
        append_cons_inj x.parenthesis_notMem_debugText y.parenthesis_notMem_debugText harguments
      rw [Number.debugText_injective hnumber]
      exact ⟨rfl, (List.cons.inj hrest).2⟩
    | binary op l r => cases hkind
    | neg e => cases hkind
  | binary op l r ihl ihr =>
    cases b with
    | num y => cases hkind
    | binary op' l' r' =>
      obtain rfl := NodeKind.binary.inj hkind
      rw [binary_debugText_append, binary_debugText_append] at h
      have harguments := (List.cons.inj (List.append_cancel_left h)).2
      obtain ⟨rfl, hcomma⟩ := ihl harguments (kind_eq_of_debugText_append harguments)
      have hright := (List.cons.inj (List.cons.inj hcomma).2).2
      obtain ⟨rfl, hrest⟩ := ihr hright (kind_eq_of_debugText_append hright)
      exact ⟨rfl, (List.cons.inj hrest).2⟩
    | neg e => cases hkind
  | neg e ih =>
    cases b with
    | num y => cases hkind
    | binary op l r => cases hkind
    | neg e' =>
      rw [neg_debugText_append, neg_debugText_append] at h
      have hoperand := (List.cons.inj (List.append_cancel_left h)).2
      obtain ⟨rfl, hrest⟩ := ih hoperand (kind_eq_of_debugText_append hoperand)
      exact ⟨rfl, (List.cons.inj hrest).2⟩

/-- The text of a tree begins with a letter. -/
theorem debugText_append_ne_bracket (t : Tree F) (u v : List Char) :
    t.debugText ++ u ≠ ']' :: v := by
  intro h
  obtain ⟨rest, hname⟩ := t.exists_name_append u
  rw [hname] at h
  generalize t.kind = kind at h
  rcases kind with _ | (_ | _) | _ <;> exact absurd (List.cons.inj h).1 (by decide)

theorem debug_injective : Function.Injective (debug (F := F)) := fun a b h => by
  rw [debug_eq, debug_eq] at h
  exact (debugText_append_inj (congrArg (· ++ []) (String.ofList_injective h))).1

/-- The JSON texts of different trees with finite literals are different: enough brackets given, each
text is read as its tree. -/
theorem toJson_inj {a b : Tree F} (ha : ∀ x ∈ a.literals, x.isInfinite = false)
    (hb : ∀ x ∈ b.literals, x.isInfinite = false) (h : a.toJson = b.toJson) : a = b := by
  have htext : a.jsonText = b.jsonText := by rw [← toList_toJson, h, toList_toJson]
  have hread := Json.readTree_jsonText ⟨ha, le_max_left a.nesting b.nesting⟩ []
  rw [htext, Json.readTree_jsonText ⟨hb, le_max_right a.nesting b.nesting⟩ []] at hread
  exact (congrArg Prod.fst (Except.ok.inj hread)).symm

/-! ## Lists of trees -/

/-- The texts of the trees, each behind a comma. -/
def behindText (trees : List (Tree F)) : List Char :=
  trees.flatMap fun t => ',' :: ' ' :: t.debugText

theorem intercalate_debugText (t : Tree F) (trees : List (Tree F)) :
    [',', ' '].intercalate ((t :: trees).map debugText) = t.debugText ++ behindText trees := by
  induction trees generalizing t with
  | nil => exact (List.intercalate_singleton).trans (List.append_nil _).symm
  | cons u trees ih =>
    rw [List.map_cons, List.map_cons, List.intercalate_cons_cons, ← List.map_cons, ih,
      List.append_assoc]
    rfl

theorem behindText_cons_append (t : Tree F) (trees : List (Tree F)) (u : List Char) :
    behindText (t :: trees) ++ u = ',' :: ' ' :: (t.debugText ++ (behindText trees ++ u)) := by
  simp [behindText]

/-- The bracket that closes a list is not the comma in front of one more tree. -/
theorem behindText_append_inj {ts us : List (Tree F)} {u v : List Char}
    (h : behindText ts ++ ']' :: u = behindText us ++ ']' :: v) : ts = us := by
  induction ts generalizing us with
  | nil =>
    cases us with
    | nil => rfl
    | cons t' us =>
      rw [behindText_cons_append] at h
      exact absurd (List.cons.inj h).1 (by decide)
  | cons t ts ih =>
    cases us with
    | nil =>
      rw [behindText_cons_append] at h
      exact absurd (List.cons.inj h).1 (by decide)
    | cons t' us =>
      rw [behindText_cons_append, behindText_cons_append] at h
      obtain ⟨rfl, hrest⟩ := debugText_append_inj (List.cons.inj (List.cons.inj h).2).2
      rw [ih hrest]

/-- **The texts of trees with commas between them determine the trees**, in number and order. -/
theorem intercalate_append_inj {ts us : List (Tree F)} {u v : List Char}
    (h : [',', ' '].intercalate (ts.map debugText) ++ ']' :: u =
      [',', ' '].intercalate (us.map debugText) ++ ']' :: v) : ts = us := by
  cases ts with
  | nil =>
    cases us with
    | nil => rfl
    | cons t' us =>
      rw [intercalate_debugText, List.append_assoc] at h
      exact absurd h.symm (debugText_append_ne_bracket t' _ _)
  | cons t ts =>
    rw [intercalate_debugText, List.append_assoc] at h
    cases us with
    | nil => exact absurd h (debugText_append_ne_bracket t _ _)
    | cons t' us =>
      rw [intercalate_debugText, List.append_assoc] at h
      obtain ⟨rfl, hrest⟩ := debugText_append_inj h
      rw [behindText_append_inj hrest]

theorem forall₂_identical_iff {ts us : List (Tree F)} :
    List.Forall₂ Identical ts us ↔ ts = us := by
  have hidentical : (Identical : Tree F → Tree F → Prop) = Eq := by
    funext a b
    exact propext identical_iff
  rw [hidentical, List.forall₂_eq_eq_eq]

end Tree

/-! ## Stacks -/

theorem Stack.toList_debug (s : Stack F) :
    s.debug.toList = "ExprStack \x7b operands: [".toList ++
      ([',', ' '].intercalate (s.bottomUp.map Tree.debugText) ++ [']', ' ', '\x7d']) := by
  have hoperands : (s.bottomUp.map Tree.debug).map String.toList =
      s.bottomUp.map Tree.debugText := by
    simp [Tree.debug_eq]
  unfold debug
  rw [String.toList_append, String.toList_append, String.toList_intercalate, hoperands,
    List.append_assoc]
  rfl

theorem Stack.debug_inj {s s' : Stack F} (h : s.debug = s'.debug) : s.bottomUp = s'.bottomUp := by
  have htext := congrArg String.toList h
  rw [toList_debug, toList_debug] at htext
  exact Tree.intercalate_append_inj (List.append_cancel_left htext)

/-- **The texts of trees and stacks determine them.** Trees have the same debug output exactly if they have
the same shape and the same bits at their leaves, infinities included. So have stacks exactly if they
hold as many trees and these are identical in their order. Trees with finite literals only have the same
JSON text exactly if they are identical. -/
theorem debug_eq_iff (F : Format) :
    (∀ a b : Tree F, a.debug = b.debug ↔ a.Identical b) ∧
    (∀ s s' : Stack F,
      s.debug = s'.debug ↔ List.Forall₂ Tree.Identical s.bottomUp s'.bottomUp) ∧
    ∀ a b : Tree F, (∀ x ∈ a.literals, x.isInfinite = false) →
      (∀ x ∈ b.literals, x.isInfinite = false) → (a.toJson = b.toJson ↔ a.Identical b) := by
  refine ⟨fun a b => ?_, fun s s' => ?_, fun a b ha hb => ?_⟩
  · rw [Tree.identical_iff]
    exact Tree.debug_injective.eq_iff
  · rw [Tree.forall₂_identical_iff]
    constructor
    · exact Stack.debug_inj
    · intro h
      unfold Stack.debug
      rw [h]
  · rw [Tree.identical_iff]
    exact ⟨Tree.toJson_inj ha hb, congrArg Tree.toJson⟩

/-- Both zeros are of equal value, but their texts differ; and two operands are not their sum. -/
theorem debug_eq_iff_zeros :
    let x : Tree .binary32 := .num (.zero false)
    let y : Tree .binary32 := .num (.zero true)
    x.same y ∧ x.toJson ≠ y.toJson ∧
      (Stack.empty.push (.binary .add x y)).debug ≠ ((Stack.empty.push x).push y).debug := by
  intro x y
  obtain ⟨-, hstack, hjson⟩ := debug_eq_iff .binary32
  refine ⟨rfl, mt (hjson x y (by decide) (by decide)).mp ?_, mt (hstack _ _).mp ?_⟩
  · rw [Tree.identical_iff]
    decide
  · rw [Tree.forall₂_identical_iff]
    decide

end ArithTree
