import Mathlib.Data.List.Infix
import ArithTree.Proofs.Json.Numeral
import ArithTree.Proofs.Json.Quoted
import ArithTree.Tree

/-!
# The grammar of trees in JSON

`Derives` says of a text as a whole which tree it is: a tree is an object with one entry, whose name is
the name of the tree's kind, and whose content is a numeral, a list of two trees, or a tree. Blanks may
stand between any two tokens. Which number a numeral stands for is left open (`Literal`).

The grammar has no bound on nesting. The brackets that are open at once can be counted in the text,
without regard to the grammar (`BracketsWithin`), and in the tree, without regard to the text
(`Tree.nesting`).

* `Derives.peaks`: both counts agree for every text of a tree.
-/

namespace ArithTree

variable {F : Format}

namespace Json

/-! ## Texts of trees -/

/-- A text of blanks. -/
def Blank (w : List Char) : Prop := ∀ c ∈ w, isBlank c

theorem blank_nil : Blank [] := fun _ hc => nomatch hc

/-- A text with blanks around it. -/
inductive Padded (core : List Char) : List Char → Prop
  | blanks {w w' : List Char} (hw : Blank w) (hw' : Blank w') : Padded core (w ++ core ++ w')

/-- An object with one entry: the name of a kind as a string, and a content. -/
inductive Entry (kind : NodeKind) (content : List Char) : List Char → Prop
  | braces {raw name body : List Char} (hraw : Quoted.Spells raw kind.name)
      (hname : Padded ('"' :: raw ++ ['"']) name) (hbody : Padded content body) :
      Entry kind content ('\x7b' :: (name ++ ':' :: body) ++ ['\x7d'])

/-- A list of two elements. -/
inductive Pair (left right : List Char) : List Char → Prop
  | brackets {l r : List Char} (hl : Padded left l) (hr : Padded right r) :
      Pair left right ('[' :: (l ++ ',' :: r) ++ [']'])

/-- The text derives the tree, where `Literal` says which numbers a numeral stands for. -/
inductive Derives (Literal : Numeral → Number F → Prop) : List Char → Tree F → Prop
  | num {content s : List Char} {n : Numeral} {x : Number F} (hn : n.Spells content)
      (hx : Literal n x) (h : Entry .num content s) : Derives Literal s (.num x)
  | binary (op : Operation) {left right content s : List Char} {l r : Tree F}
      (hl : Derives Literal left l) (hr : Derives Literal right r)
      (hcontent : Pair left right content) (h : Entry (.binary op) content s) :
      Derives Literal s (.binary op l r)
  | neg {content s : List Char} {e : Tree F} (he : Derives Literal content e)
      (h : Entry .neg content s) : Derives Literal s (.neg e)

/-! ## Open brackets -/

/-- What a character adds to the number of open brackets. -/
def bracket (c : Char) : Int :=
  if c = '\x7b' ∨ c = '[' then 1 else if c = '\x7d' ∨ c = ']' then -1 else 0

/-- The brackets that a text opens, less those that it closes. -/
def openBrackets : List Char → Int
  | [] => 0
  | c :: s => bracket c + openBrackets s

/-- Nowhere in the text are more than `n` brackets open. -/
def BracketsWithin (n : Int) (s : List Char) : Prop := ∀ p, p <+: s → openBrackets p ≤ n

variable {n : Int} {s u v : List Char}

theorem bracketsWithin_nil : BracketsWithin n [] ↔ 0 ≤ n := by
  constructor
  · intro h
    exact h [] (List.nil_prefix)
  · intro h p hp
    rw [List.prefix_nil.mp hp]
    exact h

theorem BracketsWithin.nonneg (h : BracketsWithin n s) : 0 ≤ n := h [] List.nil_prefix

theorem bracketsWithin_cons {c : Char} :
    BracketsWithin n (c :: s) ↔ 0 ≤ n ∧ BracketsWithin (n - bracket c) s := by
  constructor
  · intro h
    refine ⟨h.nonneg, fun p hp => ?_⟩
    have hcons : bracket c + openBrackets p ≤ n := h (c :: p) (List.cons_prefix_cons.mpr ⟨rfl, hp⟩)
    omega
  · rintro ⟨hn, h⟩ p hp
    cases p with
    | nil => exact hn
    | cons d p =>
      obtain ⟨rfl, htail⟩ := List.cons_prefix_cons.mp hp
      have hopen := h p htail
      show bracket d + openBrackets p ≤ n
      omega

theorem BracketsWithin.of_prefix {p : List Char} (h : BracketsWithin n s) (hp : p <+: s) :
    BracketsWithin n p := fun _ hq => h _ (hq.trans hp)

/-- The text closes all the brackets that it opens, and opens at most `k` at once. This is said by
what may stand behind it: as much as without it. -/
def Peaks (k : Nat) (s : List Char) : Prop :=
  ∀ (n : Int) (v : List Char), BracketsWithin n (s ++ v) ↔ k ≤ n ∧ BracketsWithin n v

theorem peaks_nil : Peaks 0 [] := fun _ _ => ⟨fun h => ⟨h.nonneg, h⟩, fun h => h.2⟩

theorem Peaks.append {j k : Nat} (hu : Peaks j u) (hv : Peaks k v) : Peaks (max j k) (u ++ v) := by
  intro n w
  rw [List.append_assoc, hu, hv]
  have hmax : ((max j k : Nat) : Int) ≤ n ↔ (j : Int) ≤ n ∧ (k : Int) ≤ n := by omega
  rw [hmax, and_assoc]

theorem Peaks.cons {k : Nat} {c : Char} (hc : bracket c = 0) (hs : Peaks k s) :
    Peaks k (c :: s) := by
  intro n v
  have hzero : n - bracket c = n := by omega
  rw [List.cons_append, bracketsWithin_cons, hzero, hs]
  constructor
  · exact fun h => h.2
  · exact fun h => ⟨h.2.nonneg, h⟩

/-- A text without brackets. -/
theorem peaks_of_flat (hs : ∀ c ∈ s, bracket c = 0) : Peaks 0 s := by
  induction s with
  | nil => exact peaks_nil
  | cons c s ih =>
    exact (ih fun d hd => hs d (List.mem_cons_of_mem _ hd)).cons (hs c (List.mem_cons_self ..))

theorem bracketsWithin_append_flat (hv : ∀ c ∈ v, bracket c = 0) :
    BracketsWithin n (s ++ v) ↔ BracketsWithin n s := by
  induction s generalizing n with
  | nil =>
    have hflat := peaks_of_flat hv n []
    rw [List.append_nil] at hflat
    rw [List.nil_append, hflat]
    exact ⟨fun h => h.2, fun h => ⟨h.nonneg, h⟩⟩
  | cons c s ih => rw [List.cons_append, bracketsWithin_cons, ih, bracketsWithin_cons]

/-- A bracket, a text, and the bracket that closes. -/
theorem Peaks.enclosed {k : Nat} {c d : Char} (hc : bracket c = 1) (hd : bracket d = -1)
    (hs : Peaks k s) : Peaks (1 + k) (c :: s ++ [d]) := by
  intro n v
  have hinner : n - bracket c - bracket d = n := by omega
  rw [List.cons_append, List.cons_append, List.append_assoc, bracketsWithin_cons, hs,
    List.singleton_append, bracketsWithin_cons, hinner, hc]
  constructor
  · rintro ⟨-, hk, -, hv⟩
    exact ⟨by omega, hv⟩
  · rintro ⟨hk, hv⟩
    exact ⟨hv.nonneg, by omega, by omega, hv⟩

/-! ## Nesting of trees and of their texts -/

theorem bracket_of_isBlank {c : Char} (h : isBlank c) : bracket c = 0 := by
  simp only [isBlank, Bool.or_eq_true, beq_iff_eq] at h
  rcases h with ((rfl | rfl) | rfl) | rfl <;> rfl

theorem Peaks.padded {k : Nat} {core : List Char} (hcore : Peaks k core) (h : Padded core s) :
    Peaks k s := by
  obtain ⟨hw, hw'⟩ := h
  have hblank {w : List Char} (hw : Blank w) : Peaks 0 w :=
    peaks_of_flat fun c hc => bracket_of_isBlank (hw c hc)
  simpa using ((hblank hw).append hcore).append (hblank hw')

theorem bracket_of_isTextChar {c : Char} (h : Numeral.isTextChar c) : bracket c = 0 := by
  unfold bracket
  rw [if_neg, if_neg]
  · rintro (rfl | rfl) <;> cases h
  · rintro (rfl | rfl) <;> cases h

theorem bracket_of_isEscapeChar {c : Char} (h : Quoted.isEscapeChar c) : bracket c = 0 := by
  unfold bracket
  rw [if_neg, if_neg]
  · rintro (rfl | rfl) <;> cases h
  · rintro (rfl | rfl) <;> cases h

theorem bracket_of_mem_name {kind : NodeKind} {c : Char} (h : c ∈ kind.name) : bracket c = 0 := by
  have hname : ∀ d ∈ kind.name, bracket d = 0 := by
    rcases kind with _ | (_ | _) | _ <;> simp [NodeKind.name, bracket]
  exact hname c h

theorem peaks_numeral {n : Numeral} (h : n.Spells s) : Peaks 0 s :=
  peaks_of_flat fun _ hc => bracket_of_isTextChar (Numeral.isTextChar_of_mem h hc)

/-- The string of a name has no brackets, however it is spelled. -/
theorem peaks_name {kind : NodeKind} {raw : List Char} (h : Quoted.Spells raw kind.name) :
    Peaks 0 ('"' :: raw ++ ['"']) := by
  refine peaks_of_flat fun c hc => ?_
  rcases List.mem_append.mp hc with hc | hc
  · rcases List.mem_cons.mp hc with rfl | hc
    · rfl
    · rcases Quoted.mem_or_isEscapeChar h hc with hc | hc
      · exact bracket_of_mem_name hc
      · exact bracket_of_isEscapeChar hc
  · exact List.mem_singleton.mp hc ▸ rfl

theorem Entry.peaks {kind : NodeKind} {k : Nat} {content : List Char} (h : Entry kind content s)
    (hcontent : Peaks k content) : Peaks (1 + k) s := by
  obtain ⟨hraw, hname, hbody⟩ := h
  have hinner := ((peaks_name hraw).padded hname).append ((hcontent.padded hbody).cons
    (c := ':') rfl)
  rw [Nat.zero_max] at hinner
  exact hinner.enclosed rfl rfl

theorem Pair.peaks {j k : Nat} {left right : List Char} (h : Pair left right s)
    (hleft : Peaks j left) (hright : Peaks k right) : Peaks (1 + max j k) s := by
  obtain ⟨hl, hr⟩ := h
  exact ((hleft.padded hl).append ((hright.padded hr).cons (c := ',') rfl)).enclosed rfl rfl

end Json

/-- The number of brackets that are open at once in a text of the tree: one for every node, and one
more for two operands. -/
def Tree.nesting : Tree F → Nat
  | .num _ => 1
  | .binary _ l r => 2 + max l.nesting r.nesting
  | .neg e => 1 + e.nesting

namespace Json

/-- **In every text of a tree as many brackets are open at once as the tree is nested.** -/
theorem Derives.peaks {Literal : Numeral → Number F → Prop} {s : List Char} {t : Tree F}
    (h : Derives Literal s t) : Peaks t.nesting s := by
  induction h with
  | num hn _ h => exact h.peaks (peaks_numeral hn)
  | binary op _ _ hcontent h ihl ihr =>
    have hpeaks := h.peaks (hcontent.peaks ihl ihr)
    rwa [← Nat.add_assoc] at hpeaks
  | neg _ h ih => exact h.peaks ih

theorem Derives.bracketsWithin_iff {Literal : Numeral → Number F → Prop} {core s : List Char}
    {t : Tree F} (h : Derives Literal core t) (hs : Padded core s) (n : Nat) :
    BracketsWithin n s ↔ t.nesting ≤ n := by
  have hpeaks := h.peaks.padded hs n []
  rw [List.append_nil, bracketsWithin_nil] at hpeaks
  rw [hpeaks]
  omega

end Json

end ArithTree
