import ArithTree.Json.Reading
import ArithTree.Proofs.Binary.Bits
import ArithTree.Proofs.Reading
import ArithTree.Proofs.Tree.Leaves
import ArithTree.Stack.Calls

/-!
# No tree holds a NaN

A leaf holds a `Number`, and no number is encoded as a NaN. So it remains to say what becomes of the
NaNs that are handed in (`SPEC_FULL.md`, A.2): every place where a literal comes in refuses exactly
the encodings of NaNs and accepts every other one, infinities, both zeros and subnormal numbers
included.

* `Tree.Obtainable`: the trees that can be obtained, in any combination of ways.
* `refusesNaN_toLiteral`, `refusesNaN_pushLiteral`, `refusesNaN_readTree`: literals on their own, on
  a stack, and in structured data of either width, read as a tree over either format.
* `Data.Describes.not_hasNaN`: no data with a NaN anywhere in it is read as a tree.
* `obtainable_nan_free`: all of it together.
-/

namespace ArithTree

variable {F G : Format}

/-! ## Where trees come from -/

/-- The trees that can be obtained by any finite combination of the ways there are. -/
inductive Tree.Obtainable : Tree F → Prop
  /-- A literal that was accepted, as a tree. -/
  | literal {bits : BitVec F.width} {x : Number F} (h : (Value.ofBits bits).toLiteral = .ok x) :
      Obtainable (.num x)
  | binary (op : Operation) {l r : Tree F} (hl : l.Obtainable) (hr : r.Obtainable) :
      Obtainable (.binary op l r)
  | neg {e : Tree F} (h : e.Obtainable) : Obtainable (.neg e)
  /-- A finished stack, after any run that pushes obtainable trees. -/
  | stack {calls : List (Call F)} {t : Tree F} (hpushed : ∀ u, Call.push u ∈ calls → u.Obtainable)
      (h : (Stack.empty.after calls).finish = .ok t) : Obtainable t
  | json {s : String} {t : Tree F} (h : Tree.ofJson F s = .ok t) : Obtainable t
  | data {d : Data} {t : Tree F} (h : d.readTree F = .ok t) : Obtainable t

/-! ## Where literals come in -/

/-- Of all encodings exactly those of NaNs are refused, and exactly the others are accepted. -/
def RefusesNaN (G : Format) (refused accepted : BitVec G.width → Prop) : Prop :=
  ∀ bits, (refused bits ↔ G.IsNaN bits) ∧ (accepted bits ↔ ¬ G.IsNaN bits)

/-- It suffices to know what becomes of NaN and of every number. -/
theorem refusesNaN_of {refused accepted : BitVec G.width → Prop}
    (hnan : ∀ bits, Value.ofBits bits = .nan → refused bits ∧ ¬ accepted bits)
    (hnumber : ∀ (bits) (x : Number G), Value.ofBits bits = .number x → x.toBits = bits →
      accepted bits ∧ ¬ refused bits) : RefusesNaN G refused accepted := by
  intro bits
  obtain ⟨h, hv⟩ | ⟨h, x, hv, hx⟩ := Value.ofBits_cases bits
  · obtain ⟨hr, ha⟩ := hnan bits hv
    exact ⟨iff_of_true hr h, iff_of_false ha (not_not_intro h)⟩
  · obtain ⟨ha, hr⟩ := hnumber bits x hv hx
    exact ⟨iff_of_false hr h, iff_of_true ha h⟩

/-- A literal on its own keeps its bits. -/
theorem refusesNaN_toLiteral (F : Format) :
    RefusesNaN F (fun bits => (Value.ofBits bits).toLiteral = .error .nanLiteral)
      (fun bits => ∃ x, (Value.ofBits bits).toLiteral = .ok x ∧ x.toBits = bits) := by
  refine refusesNaN_of (fun bits hv => ?_) (fun bits x hv hx => ?_)
  · simp [hv, Value.toLiteral]
  · simp [hv, hx, Value.toLiteral]

/-- A literal for a stack is put on top with its bits, or leaves the stack as it was. -/
theorem refusesNaN_pushLiteral (s : Stack F) :
    RefusesNaN F (fun bits => (Action.pushLiteral (.ofBits bits)).on s = (.error .nanLiteral, s))
      (fun bits => ∃ x, x.toBits = bits ∧
        (Action.pushLiteral (.ofBits bits)).on s = (.ok (), s.push (.num x))) := by
  refine refusesNaN_of (fun bits hv => ?_) (fun bits x hv hx => ?_)
  · simp [hv]
  · refine ⟨⟨x, hx, ?_⟩, ?_⟩
    · rw [hv, Action.pushLiteral_number_on]
    · simp [hv]

/-- A real number as data. -/
def Data.real : (G : Format) → Value G → Data
  | .binary32, v => .real32 v
  | .binary64, v => .real64 v

theorem Data.toValue?_real (F : Format) (v : Value G) :
    (Data.real G v).toValue? F = some (v.convert F) := by
  cases G <;> rfl

/-- Data of a leaf gives what its content gives. -/
theorem Data.readTree_num (F : Format) (content : Data) :
    (Data.variant NodeKind.num.name content).readTree F =
      content.readLiteral F >>= fun x => .ok (.num x) := by
  rw [readTree, NodeKind.ofName_eq_ok_iff.mpr rfl]
  rfl

/-- A literal in data of either width is read for either format. No payload that the narrower width
cannot hold makes a number of a NaN. -/
theorem refusesNaN_readTree (F G : Format) :
    RefusesNaN G
      (fun bits => (Data.variant NodeKind.num.name (.real G (.ofBits bits))).readTree F =
        .error .nanLiteral)
      (fun bits => ∃ x, (Data.variant NodeKind.num.name (.real G (.ofBits bits))).readTree F =
        .ok (.num x)) := by
  refine refusesNaN_of (fun bits hv => ?_) (fun bits x hv _ => ?_)
  · have hread : (Data.variant NodeKind.num.name (.real G (.ofBits bits))).readTree F =
        .error .nanLiteral := by
      rw [Data.readTree_num, Data.readLiteral, Data.toValue?_real, hv]
      rfl
    simp [hread]
  · have hread : (Data.variant NodeKind.num.name (.real G (.ofBits bits))).readTree F =
        .ok (.num (x.convert F)) := by
      rw [Data.readTree_num, Data.readLiteral, Data.toValue?_real, hv]
      rfl
    simp [hread]

/-- An integer in data is always accepted. -/
theorem Data.readTree_integer (F : Format) (n : Nat) (i : Int) :
    (Data.variant NodeKind.num.name (.unsigned n)).readTree F = .ok (.num (.ofInt F n)) ∧
      (Data.variant NodeKind.num.name (.signed i)).readTree F = .ok (.num (.ofInt F i)) :=
  ⟨readTree_num F (.unsigned n), readTree_num F (.signed i)⟩

/-! ## NaNs inside drafts and data -/

/-- A NaN stands at some leaf of the draft. -/
def Draft.HasNaN (d : Draft F) : Prop :=
  ∃ bits : BitVec F.width, F.IsNaN bits ∧ Value.ofBits bits ∈ d.values

/-- Every format has NaNs. -/
theorem Format.exists_isNaN (F : Format) : ∃ bits : BitVec F.width, F.IsNaN bits :=
  ⟨BitVec.allOnes F.width, by cases F <;> decide⟩

theorem Draft.hasNaN_iff {d : Draft F} : d.HasNaN ↔ .nan ∈ d.values := by
  constructor
  · rintro ⟨bits, h, hmem⟩
    rwa [(Value.ofBits_eq_nan_iff bits).mpr h] at hmem
  · intro hmem
    obtain ⟨bits, h⟩ := F.exists_isNaN
    refine ⟨bits, h, ?_⟩
    rwa [(Value.ofBits_eq_nan_iff bits).mpr h]

/-- A draft is refused exactly if it has a NaN, and otherwise built as it is. -/
theorem Draft.build_refuses (d : Draft F) :
    (d.build = .error .nanLiteral ↔ d.HasNaN) ∧
      ((∃ t, d.build = .ok t ∧ d = t.draft) ↔ ¬ d.HasNaN) := by
  rw [hasNaN_iff]
  obtain ⟨t, ht, hn⟩ | ⟨he, hn⟩ := d.build_ok_or_error
  · exact ⟨iff_of_false (by simp [ht]) hn, iff_of_true ⟨t, ht, build_eq_ok_iff.mp ht⟩ hn⟩
  · exact ⟨iff_of_true he hn, iff_of_false (by simp [he]) (not_not_intro hn)⟩

/-- A NaN of either width stands somewhere in the data. -/
inductive Data.HasNaN : Data → Prop
  | real64 {bits : BitVec 64} (h : Format.IsNaN .binary64 bits) :
      HasNaN (.real64 (.ofBits bits))
  | real32 {bits : BitVec 32} (h : Format.IsNaN .binary32 bits) :
      HasNaN (.real32 (.ofBits bits))
  | seq {items : List Data} {d : Data} (hmem : d ∈ items) (h : d.HasNaN) : HasNaN (.seq items)
  | variant {name : List Char} {content : Data} (h : content.HasNaN) :
      HasNaN (.variant name content)

/-- Data that holds a number holds no NaN. -/
theorem Data.not_hasNaN_of_toValue? {d : Data} {x : Number F}
    (hd : d.toValue? F = some (.number x)) : ¬ d.HasNaN := by
  intro h
  cases h with
  | real64 h =>
    rw [(Value.ofBits_eq_nan_iff _).mpr h] at hd
    cases hd
  | real32 h =>
    rw [(Value.ofBits_eq_nan_iff _).mpr h] at hd
    cases hd
  | seq => cases hd
  | variant => cases hd

/-- Data that describes a tree holds no NaN, however deep. -/
theorem Data.Describes.not_hasNaN {d : Data} {t : Tree F} (hd : d.Describes t) : ¬ d.HasNaN := by
  induction hd with
  | num hvalue =>
    intro h
    cases h with
    | variant h => exact not_hasNaN_of_toValue? hvalue h
  | binary op hl hr ihl ihr =>
    intro h
    cases h with
    | variant h =>
      cases h with
      | seq hmem h =>
        rcases List.mem_cons.mp hmem with rfl | hmem
        · exact ihl h
        · obtain rfl := List.mem_singleton.mp hmem
          exact ihr h
  | neg hd ih =>
    intro h
    cases h with
    | variant h => exact ih h

theorem Data.readTree_error_of_hasNaN (F : Format) {d : Data} (h : d.HasNaN) :
    ∃ m, d.readTree F = .error m := by
  cases hread : d.readTree F with
  | error m => exact ⟨m, rfl⟩
  | ok t => exact absurd h (readTree_eq_ok_iff.mp hread).not_hasNaN

/-! ## All together -/

/-- **No tree holds a NaN, by whatever ways it was obtained.** No leaf of such a tree is encoded as a
NaN. Literals on their own, on a stack, in drafts and in data of either width are refused exactly if
they are encoded as NaNs; an integer never is; and data with a NaN anywhere is not a tree. -/
theorem obtainable_nan_free :
    (∀ (F : Format) (t : Tree F), t.Obtainable → ∀ x ∈ t.literals, ¬ F.IsNaN x.toBits) ∧
    (∀ F : Format,
      RefusesNaN F (fun bits => (Value.ofBits bits).toLiteral = .error .nanLiteral)
        (fun bits => ∃ x, (Value.ofBits bits).toLiteral = .ok x ∧ x.toBits = bits)) ∧
    (∀ (F : Format) (s : Stack F),
      RefusesNaN F
        (fun bits => (Action.pushLiteral (.ofBits bits)).on s = (.error .nanLiteral, s))
        (fun bits => ∃ x, x.toBits = bits ∧
          (Action.pushLiteral (.ofBits bits)).on s = (.ok (), s.push (.num x)))) ∧
    (∀ (F : Format) (d : Draft F),
      (d.build = .error .nanLiteral ↔ d.HasNaN) ∧
        ((∃ t, d.build = .ok t ∧ d = t.draft) ↔ ¬ d.HasNaN)) ∧
    (∀ F G : Format,
      RefusesNaN G
        (fun bits => (Data.variant NodeKind.num.name (.real G (.ofBits bits))).readTree F =
          .error .nanLiteral)
        (fun bits => ∃ x, (Data.variant NodeKind.num.name (.real G (.ofBits bits))).readTree F =
          .ok (.num x))) ∧
    (∀ (F : Format) (n : Nat) (i : Int),
      (Data.variant NodeKind.num.name (.unsigned n)).readTree F = .ok (.num (.ofInt F n)) ∧
        (Data.variant NodeKind.num.name (.signed i)).readTree F = .ok (.num (.ofInt F i))) ∧
    ∀ (F : Format) (d : Data), d.HasNaN → ∃ m, d.readTree F = .error m :=
  ⟨fun _ _ _ x _ => x.not_isNaN_toBits, refusesNaN_toLiteral, fun _ => refusesNaN_pushLiteral,
    fun _ => Draft.build_refuses, refusesNaN_readTree, Data.readTree_integer,
    fun F _ => Data.readTree_error_of_hasNaN F⟩

/-- The sum of `-0` and infinity is obtainable. A signalling NaN of 64 bits whose payload is a single
bit that 32 bits have no place for is refused in data, also below a sign change. -/
theorem obtainable_nan_free_sum :
    (Tree.binary .add (.num (.zero true)) (.num (.infinity false)) : Tree .binary32).Obtainable ∧
    ¬ Format.IsNaN .binary32 (Number.zero true : Number .binary32).toBits ∧
    (Data.variant NodeKind.neg.name
      (.variant NodeKind.num.name (.real64 (.ofBits 0x7ff0000000000001#64)))).HasNaN ∧
    ∃ m, (Data.variant NodeKind.neg.name (.variant NodeKind.num.name
      (.real64 (.ofBits 0x7ff0000000000001#64)))).readTree .binary32 = .error m := by
  have hliteral : ∀ x : Number .binary32, (Tree.num x).Obtainable := fun x =>
    .literal (Value.toLiteral_eq_ok_iff.mpr (Value.ofBits_toBits x))
  have hsum := Tree.Obtainable.binary .add (hliteral (.zero true)) (hliteral (.infinity false))
  have hnan : (Data.variant NodeKind.neg.name
      (.variant NodeKind.num.name (.real64 (.ofBits 0x7ff0000000000001#64)))).HasNaN :=
    .variant (.variant (.real64 ((Format.isNaN_iff .binary64 _).mpr (by decide))))
  obtain ⟨htree, -, -, -, -, -, hdata⟩ := obtainable_nan_free
  exact ⟨hsum, htree .binary32 _ hsum (.zero true) (by simp [Tree.literals]), hnan,
    hdata .binary32 _ hnan⟩

end ArithTree
