import EnumMacros.Main
import EnumMacros.Proofs.Identifier.Scoping
import EnumMacros.Proofs.Text.Decimal
import EnumMacros.Proofs.Style.Naming
import EnumMacros.Proofs.Preprocessor.Symbols
import EnumMacros.Proofs.Preprocessor.Tokens
import EnumMacros.Proofs.Preprocessor.Expansion
import EnumMacros.Proofs.Preprocessor.Calls
import EnumMacros.Proofs.Definition.Composing
import EnumMacros.Proofs.Definition.Dividing
import EnumMacros.Proofs.Preprocessor.Checks
import EnumMacros.Proofs.Definition.Reading
import EnumMacros.Proofs.Definition.Coverage
import EnumMacros.Proofs.Size.Meeting
import EnumMacros.Proofs.Header.Growth
import EnumMacros.Proofs.Files.Paths
import EnumMacros.Proofs.Files.Writing
import EnumMacros.Proofs.Header.Placing
import EnumMacros.Proofs.Header.Reading
import EnumMacros.Proofs.Header.Tiling
import EnumMacros.Proofs.Header.Visibility
import EnumMacros.Proofs.Identifier.Correspondence
import EnumMacros.Proofs.Identifier.Comparing
import EnumMacros.Proofs.Identifier.Reserving
import EnumMacros.Proofs.Identifier.Inverting
import EnumMacros.Proofs.Definition.Declaring
import EnumMacros.Proofs.Header.Packing
import EnumMacros.Proofs.Header.Capping
import EnumMacros.Proofs.Text.Reading
import EnumMacros.Proofs.Text.Decoding
import EnumMacros.Proofs.Template.Message
import EnumMacros.Proofs.Definition.Remembering
import EnumMacros.Proofs.Files.Running
import EnumMacros.Proofs.Header.Delivering
import EnumMacros.Proofs.Header.Fitting
import EnumMacros.Proofs.Header.Agreement
import EnumMacros.Proofs.Header.Containment
import EnumMacros.Proofs.Command.Refusing
import EnumMacros.Proofs.Command.Failing
import EnumMacros.Proofs.Definition.Histories
import EnumMacros.Proofs.Definition.Growing
import EnumMacros.Proofs.Header.Searching
import EnumMacros.Proofs.Definition.Hygiene
import EnumMacros.Proofs.Identifier.Recording
import EnumMacros.Proofs.Template.Grammar
import EnumMacros.Proofs.Definition.Registering
import EnumMacros.Proofs.Header.Walking
import EnumMacros.Proofs.Header.Nesting
import EnumMacros.Proofs.Size.Ranges
import EnumMacros.Proofs.Command.Listing
import EnumMacros.Proofs.Header.Ending
import EnumMacros.Proofs.Header.Exhausting
import EnumMacros.Proofs.Header.Bounding
import EnumMacros.Proofs.Definition.Printing
