import DocQuery.Main
import DocQuery.Matches.Textual
import DocQuery.Proofs.Clauses.Isolation
import DocQuery.Proofs.Comparison.Consistency
import DocQuery.Proofs.Comparison.Transitivity
import DocQuery.Proofs.Errors.Offsets
import DocQuery.Proofs.Evaluation.Records
import DocQuery.Proofs.Evaluation.Sources
import DocQuery.Proofs.Grammar.Discipline
import DocQuery.Proofs.Grammar.Joining
import DocQuery.Proofs.Merging.Outcome
import DocQuery.Proofs.Merging.Repetition
import DocQuery.Proofs.Numbers.Integers
import DocQuery.Proofs.Output.Feedback
import DocQuery.Proofs.Patterns.Expressions
import DocQuery.Proofs.RoundTrip.Inverse
import DocQuery.Proofs.Selection.Cutting
import DocQuery.Proofs.Selection.Preorder
import DocQuery.Proofs.Selection.Slices
