import JsonTypes.Json.Printer
import JsonTypes.Main
import JsonTypes.Proofs.CheckErrors
import JsonTypes.Proofs.WalkErrors
import JsonTypes.Proofs.Placeholders
import JsonTypes.Proofs.TaggedValues
import JsonTypes.Proofs.ForeignPlaceholders
import JsonTypes.Proofs.Inhabitation
import JsonTypes.Proofs.Recursion
import JsonTypes.Proofs.DeclarationOrder
import JsonTypes.Proofs.FinishedInstances
import JsonTypes.Proofs.QualifiedRecords
import JsonTypes.Proofs.WrittenTrees
import JsonTypes.Proofs.WrittenTypes
import JsonTypes.Proofs.WrittenSentences
import JsonTypes.Proofs.ResolutionOrder
import JsonTypes.Proofs.TypeKeys
import JsonTypes.Proofs.FailingRuns
import JsonTypes.Proofs.Reports
import JsonTypes.Proofs.FailurePlaces
import JsonTypes.Proofs.CheckExpansions
import JsonTypes.Proofs.WalkCalls
import JsonTypes.Proofs.SyntaxPlaces
import JsonTypes.Proofs.MemberOrder
import JsonTypes.Proofs.Strictness
import JsonTypes.Proofs.Lists
import JsonTypes.Proofs.Trees
import JsonTypes.Proofs.DepthLimits
import JsonTypes.Proofs.ReachedBodies
import JsonTypes.Proofs.DeclaredMembers
import JsonTypes.Proofs.RenamedTags
import JsonTypes.Proofs.QualifiedConstruction
import JsonTypes.Proofs.FaithfulTraces
import JsonTypes.Proofs.SingleExpansions
import JsonTypes.Proofs.OwnPlaceholders
import JsonTypes.Proofs.ReadConfigurations
import JsonTypes.Proofs.Registrations
import JsonTypes.Proofs.AppliedFactories
