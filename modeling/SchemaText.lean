import SchemaText.Error
import SchemaText.Event
import SchemaText.Proofs.Index.Retarget
import SchemaText.Proofs.Rename.References
import SchemaText.Proofs.Sample.Table
import SchemaText.Proofs.Table.KeyEditing
import SchemaText.Proofs.Table.KeyLists
import SchemaText.Proofs.Table.ReferenceCount
import SchemaText.Rename.Rebuild
import SchemaText.Proofs.Statement.Parts
import SchemaText.Proofs.Statement.Refusal
import SchemaText.Proofs.Table.Growth
import SchemaText.Proofs.Table.KeyDirections
import SchemaText.Proofs.Table.KeyEntries
import SchemaText.Proofs.Expr.Derivation
import SchemaText.Proofs.Table.EnteredDefault
import SchemaText.Proofs.Rename.Composition
import SchemaText.Proofs.Table.Commas
import SchemaText.Proofs.Table.FormAgreement
import SchemaText.Proofs.Rename.Latest
import SchemaText.Proofs.Token.Literal
import SchemaText.Proofs.Token.Seam
