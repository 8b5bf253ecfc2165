import Symtab.Arena.Lemmas
import Symtab.Arena.Operation
import Symtab.Settings.Document
import Symtab.Table.Operation
import Symtab.Proofs.Key
import Symtab.Proofs.TextBytes
import Symtab.Proofs.Key.Order
import Symtab.Proofs.Name.Grammar
import Symtab.Proofs.Piece
import Symtab.Proofs.Numeral
import Symtab.Proofs.GeneratedName
import Symtab.Proofs.Toml.Document
import Symtab.Proofs.Settings
import Symtab.Proofs.Listing
import Symtab.Proofs.Table.Step
import Symtab.Proofs.Table.Representation
import Symtab.Proofs.Table.FirstDeclaration
import Symtab.Proofs.Table.Substitution
import Symtab.Proofs.Table.VisibleEquations
import Symtab.Proofs.Table.Standing
import Symtab.Proofs.Table.FreshName
import Symtab.Proofs.Table.Listing
import Symtab.Proofs.Table.WrittenNumbers
import Symtab.Proofs.Table.BoundedListing
import Symtab.Proofs.Arena
import Symtab.Proofs.Table.Log
import Symtab.Proofs.Table.Clearing
import Symtab.Proofs.Table.SubstitutionByParts
import Symtab.Proofs.Table.FreshNumber
import Symtab.Proofs.Table.LabelWrites
import Symtab.Proofs.Table.LabelValues
import Symtab.Proofs.Table.DeclaredEquations
import Symtab.Proofs.Table.VisibleNames
