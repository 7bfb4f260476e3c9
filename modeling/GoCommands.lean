import GoCommands.Main
import GoCommands.FileSystem.Disk
import GoCommands.Proofs.Constraint.Derivation
import GoCommands.Proofs.Go.Documentation
import GoCommands.Proofs.Package.CommandNames
import GoCommands.Proofs.Package.ExactPromotion
import GoCommands.Proofs.Walk.Termination
import GoCommands.Proofs.Wrapper.Agreement
import GoCommands.Proofs.Wrapper.Rediscovery
import GoCommands.Proofs.Walk.ListingOrder
import GoCommands.Proofs.Go.Comments
import GoCommands.Proofs.Constraint.Header
import GoCommands.Proofs.Package.FileOrder
import GoCommands.Proofs.Wrapper.ReadBack
import GoCommands.Proofs.Constraint.Completeness
import GoCommands.Proofs.Wrapper.Unquoting
import GoCommands.Proofs.Package.Commented
import GoCommands.Proofs.Package.FileIndex
import GoCommands.Proofs.Path.Course
import GoCommands.Proofs.FileSystem.Listing
import GoCommands.Proofs.StructTag.Reflected
import GoCommands.Proofs.Constraint.Rendering
import GoCommands.Proofs.Walk.Selected
import GoCommands.Proofs.Go.ContextImports
import GoCommands.Proofs.Go.Uncommented
import GoCommands.Proofs.Package.Descriptions
import GoCommands.Proofs.Package.Rejection
import GoCommands.Proofs.Package.CommandLookup
import GoCommands.Proofs.Wrapper.LiteralReading
import GoCommands.Proofs.Wrapper.Canonical
import GoCommands.Proofs.Go.NumberReach
import GoCommands.Proofs.Wrapper.WhiteRuns
import GoCommands.Proofs.Go.TokenReach
import GoCommands.Proofs.Go.TokenStream
import GoCommands.Proofs.Wrapper.LaidTokens
import GoCommands.Proofs.Wrapper.SteadyText
import GoCommands.Proofs.Wrapper.LiteralsKept
import GoCommands.Proofs.CommandName.Hyphens
import GoCommands.Proofs.CommandName.Words
import GoCommands.Proofs.Go.DeclaredNames
import GoCommands.Proofs.StructTag.Written
import GoCommands.Proofs.CommandName.Duplicates
import GoCommands.Proofs.Wrapper.OutputNames
import GoCommands.Proofs.StructTag.Overrides
import GoCommands.Proofs.FileSystem.Ancestors
