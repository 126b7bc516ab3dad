import SchemaStructs.Command.Disk
import SchemaStructs.Json.Printer
import SchemaStructs.Main
import SchemaStructs.Proofs.Alias.Representable
import SchemaStructs.Proofs.Alias.Hop
import SchemaStructs.Proofs.Alias.Walk
import SchemaStructs.Proofs.Alias.Agree
import SchemaStructs.Proofs.Struct.Meaning
import SchemaStructs.Proofs.Struct.Operations
import SchemaStructs.Proofs.Struct.Step
import SchemaStructs.Proofs.Struct.Invariant
import SchemaStructs.Proofs.Struct.Run
import SchemaStructs.Proofs.Struct.Slots
import SchemaStructs.Proofs.Merge.Leader
import SchemaStructs.Proofs.Merge.Refine
import SchemaStructs.Proofs.Merge.Merged
import SchemaStructs.Proofs.Merge.Append
import SchemaStructs.Proofs.Struct.Complete
import SchemaStructs.Proofs.Collect
import SchemaStructs.Proofs.Growth
import SchemaStructs.Proofs.Struct.Agree
import SchemaStructs.Proofs.Struct.Budget
import SchemaStructs.Proofs.Struct.Extends
import SchemaStructs.Proofs.Struct.Loops
import SchemaStructs.Proofs.Ending
import SchemaStructs.Proofs.Struct.Order
import SchemaStructs.Proofs.Header.Emission
import SchemaStructs.Proofs.Struct.Recursion
import SchemaStructs.Proofs.Header.Order
import SchemaStructs.Proofs.Header.Dynamic
import SchemaStructs.Proofs.Header.Evaluation
import SchemaStructs.Proofs.Struct.Names
import SchemaStructs.Proofs.Text.Identifier
import SchemaStructs.Proofs.Text.Capital
import SchemaStructs.Proofs.Text.Literal
import SchemaStructs.Proofs.Struct.Reserved
import SchemaStructs.Proofs.Header.Denotation
import SchemaStructs.Proofs.Header.Ident
import SchemaStructs.Proofs.Header.Legal
import SchemaStructs.Proofs.Header.Shadow
import SchemaStructs.Proofs.Header.Conformance
import SchemaStructs.Proofs.Header.RoundTrip
import SchemaStructs.Proofs.Header.Scanner
import SchemaStructs.Proofs.Header.Reads
import SchemaStructs.Proofs.Header.Banner
import SchemaStructs.Proofs.Header.Lexing
import SchemaStructs.Proofs.Header.Text
import SchemaStructs.Proofs.Header.Apart
import SchemaStructs.Proofs.Manifest
import SchemaStructs.Proofs.Command.Disk
import SchemaStructs.Proofs.Command.Select
import SchemaStructs.Proofs.Command.FileName
import SchemaStructs.Proofs.Command.Generate
import SchemaStructs.Proofs.Command.Check
import SchemaStructs.Proofs.NameMap
import SchemaStructs.Proofs.Json.Record
import SchemaStructs.Proofs.Schema.Format
import SchemaStructs.Proofs.Struct.Populated
import SchemaStructs.Proofs.Struct.Survey
import SchemaStructs.Proofs.Struct.Underway
import SchemaStructs.Proofs.Struct.Blame
import SchemaStructs.Proofs.Rejection
import SchemaStructs.Proofs.Merge.Identity
import SchemaStructs.Proofs.Merge.Bisimilar
import SchemaStructs.Proofs.Struct.Plain
import SchemaStructs.Proofs.Acyclic
import SchemaStructs.Proofs.Bookkeeping
import SchemaStructs.Proofs.Alias.Moment
import SchemaStructs.Proofs.Alias.Search
