import Codemod.Main
import Codemod.Proofs.Diff.Patching
import Codemod.Proofs.Patch.Source
import Codemod.Proofs.Rule.Clash
import Codemod.Proofs.Patch.Revision
import Codemod.Proofs.Files.Place
import Codemod.Proofs.Patch.Build
import Codemod.Proofs.RuleSet.Accepted
import Codemod.Proofs.Run.Effect
import Codemod.Proofs.Patch.LineFeed
import Codemod.Proofs.Diff.Summary
import Codemod.Proofs.Tree.Item
import Codemod.Proofs.Rule.ItemName
import Codemod.Proofs.Name.Spelling
import Codemod.Proofs.Rule.Leaf
import Codemod.Proofs.Rule.Name
import Codemod.Proofs.Grammar.Quote
import Codemod.Proofs.Grammar.Reader
import Codemod.Proofs.Grammar.Token
import Codemod.Proofs.Grammar.Path
import Codemod.Proofs.Grammar.Type
import Codemod.Proofs.Grammar.Expression
import Codemod.Proofs.Grammar.Item
import Codemod.Proofs.Grammar.SourceFile
import Codemod.Proofs.Rule.Quoted
import Codemod.Proofs.Diff.Context
import Codemod.Proofs.Diff.Minimal
import Codemod.Proofs.Diff.Rounds
import Codemod.Proofs.Rule.Composition
import Codemod.Proofs.Rule.Independence
import Codemod.Proofs.Rule.Agreement
import Codemod.Proofs.Rule.FirstFailure
import Codemod.Proofs.Rule.KindFilter
import Codemod.Proofs.RuleSet.Report
import Codemod.Proofs.Tree.Visit
import Codemod.Proofs.Files.Source
import Codemod.Proofs.CommandLine.Pipeline
import Codemod.Proofs.Tree.Partition
