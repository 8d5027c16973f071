import DocForest.Documentation
import DocForest.Forest.Lemmas
import DocForest.Forest.Pattern
import DocForest.Json.Printer
import DocForest.Proofs.FileNames
import DocForest.Proofs.Headings
import DocForest.Proofs.Naming
import DocForest.Proofs.Noninterference
import DocForest.Proofs.Parentage
import DocForest.Proofs.Placing
import DocForest.Proofs.Typing
import DocForest.Proofs.Coverage
import DocForest.Proofs.Uniqueness
import DocForest.Proofs.CategoryFiles
import DocForest.Proofs.Requests
import DocForest.Proofs.Interleaving
import DocForest.Proofs.TopDirectory
import DocForest.Proofs.Stacking
import DocForest.Proofs.Histories
import DocForest.Proofs.Pruning
import DocForest.Proofs.TopLevel
import DocForest.Proofs.Thresholds
import DocForest.Proofs.Refusals
import DocForest.Proofs.Repeats
import DocForest.Proofs.Hinting
import DocForest.Proofs.KeptSections
import DocForest.Proofs.Crossing
import DocForest.Proofs.Inheriting
import DocForest.Proofs.SectionHeads
import DocForest.Proofs.OpenLevels
import DocForest.Proofs.Spelling
import DocForest.Proofs.Ordering
import DocForest.Proofs.CategoryIndex
import DocForest.Proofs.GivenIds
import DocForest.Proofs.FileNameReading
import DocForest.Proofs.MarkComments
import DocForest.Proofs.RequirementHeadings
import DocForest.Proofs.Layering
import DocForest.Proofs.CategoryTargets
import DocForest.Proofs.Paragraphs
import DocForest.Proofs.AbstractFiles
import DocForest.Proofs.ModuleNotes
import DocForest.Proofs.NestingSearch
import DocForest.Proofs.ReadingOrder
import DocForest.Proofs.NamesInTurn
import DocForest.Arena.Lemmas
