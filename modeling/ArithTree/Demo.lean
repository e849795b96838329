import ArithTree.Tree.Text

/-!
# A demonstration

One tree, its value and its text (`SPEC_FULL.md`, A.6 and the end-to-end scenario of section 8), and
the program that prints them.
-/

namespace ArithTree.Demo

/-- `(2.5 + 3.5) * -5`. -/
def tree : Tree .binary64 :=
  .binary .mul
    (.binary .add (.num (.ofDecimal _ false ⟨25, -1⟩)) (.num (.ofDecimal _ false ⟨35, -1⟩)))
    (.neg (.num (.ofInt _ 5)))

/-- What the demonstration prints: the value and the rendered tree, a line each. -/
def output : String := String.ofList tree.eval.debugText ++ "\n" ++ tree.render ++ "\n"

example : output = "-30.0\n((2.5 + 3.5) * (-5))\n" := by decide +kernel

/-- The exit code of the demonstration. -/
def exitCode : UInt32 := 0

/-- Prints the demonstration. -/
def main : IO UInt32 := do
  IO.print output
  return exitCode

end ArithTree.Demo
