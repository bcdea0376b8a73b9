import EntityWeaver.Main
import EntityWeaver.Proofs.Merge.Removal
import EntityWeaver.Proofs.Merge.CandidateOrder
import EntityWeaver.Proofs.Merge.Bodies
import EntityWeaver.Proofs.Merge.Membership
import EntityWeaver.Proofs.Merge.Isolation
import EntityWeaver.Proofs.Merge.Splices
import EntityWeaver.Proofs.Merge.Setter
import EntityWeaver.Proofs.Merge.Bystander
import EntityWeaver.Proofs.Codec.Fields
import EntityWeaver.Proofs.Reference
import EntityWeaver.Proofs.Resolution
import EntityWeaver.Proofs.Inheritance
import EntityWeaver.Proofs.EntityStream.Revisions
import EntityWeaver.Proofs.EntityStream.Validation
import EntityWeaver.Proofs.EntityStream.Interpolation
import EntityWeaver.Proofs.History.Files
import EntityWeaver.Proofs.Pass.ComponentOrder
import EntityWeaver.Proofs.Pass.Implementation
import EntityWeaver.Proofs.Pass.Superclass
import EntityWeaver.Proofs.Pass.Histories
import EntityWeaver.Proofs.Declaration.Json
import EntityWeaver.Proofs.Pass.Registration
import EntityWeaver.Proofs.EntityStream.Dispatch
import EntityWeaver.Proofs.FieldSet.Accounts
import EntityWeaver.Proofs.FieldSet.Declared
import EntityWeaver.Proofs.Reset
import EntityWeaver.Proofs.Signature
import EntityWeaver.Proofs.Codec.Table
import EntityWeaver.Proofs.Pass.Methods
import EntityWeaver.Proofs.Codec.Normalization
import EntityWeaver.Proofs.MethodBody.Return
import EntityWeaver.Proofs.MethodBody.ClassBody
import EntityWeaver.Proofs.MethodBody.Statements
import EntityWeaver.Proofs.CanonicalForm
import EntityWeaver.Proofs.Emission
import EntityWeaver.Proofs.Helper
import EntityWeaver.Proofs.MethodBody.Comment
import EntityWeaver.Proofs.Pass.Rounds
import EntityWeaver.Proofs.Printing
import EntityWeaver.Proofs.Verbatim
import EntityWeaver.Proofs.ControlFlow
