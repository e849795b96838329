import ArithTree.Data
import ArithTree.Demo
import ArithTree.Session
import ArithTree.Proofs.Binary.Order
import ArithTree.Proofs.Json.Spelling
import ArithTree.Proofs.Json.Truncation
import ArithTree.Proofs.Outline
import ArithTree.Proofs.Stack.Calculating
import ArithTree.Proofs.Stack.Events
import ArithTree.Proofs.Stack.Joining
import ArithTree.Proofs.Stack.Postfix
import ArithTree.Proofs.Tree.Equality
import ArithTree.Proofs.Tree.Integers
import ArithTree.Proofs.Tree.Parentheses
