import LetLang.Main
import LetLang.Proofs.Verdict
import LetLang.Proofs.Evaluation
import LetLang.Proofs.Occurrence
import LetLang.Proofs.Kinding
import LetLang.Proofs.Source.Terminals
import LetLang.Proofs.Source.Tokenization
import LetLang.Proofs.Source.Grammar
import LetLang.Proofs.Source.Unambiguity
import LetLang.Proofs.Source.Parsing
import LetLang.Proofs.Endings
import LetLang.Proofs.Reports
import LetLang.Proofs.Order
import LetLang.Proofs.FreeNames
import LetLang.Proofs.Substitution
import LetLang.Proofs.Source.Printing
import LetLang.Proofs.Source.Continuation
import LetLang.Proofs.Source.Incomplete
import LetLang.Proofs.Definitions
import LetLang.Proofs.History
import LetLang.Proofs.Source.Placement
import LetLang.Proofs.Lines
import LetLang.Proofs.DefinitionAsLet
import LetLang.Proofs.Source.Offsets
import LetLang.Proofs.Number.Nearest
import LetLang.Proofs.Number.IntegerOperations
import LetLang.Proofs.Convertible
import LetLang.Proofs.PrintedIntegers
import LetLang.Proofs.LiteralTexts
import LetLang.Proofs.CommandLineAsSession
import LetLang.Proofs.Number.IntegerDivision
import LetLang.Proofs.ArgumentOrder
import LetLang.Proofs.Source.Pieces
import LetLang.Proofs.Source.InsertedLayout
import LetLang.Proofs.Attribution
import LetLang.Proofs.DefinedNames
import LetLang.Proofs.Number.DoubleTexts
import LetLang.Proofs.DisplayedTrees
import LetLang.Proofs.Source.Columns
import LetLang.Proofs.Source.InvisibleCharacters
import LetLang.Proofs.Source.JoinedWords
import LetLang.Proofs.DisplayedValues
