import StorageSlots.Main
import StorageSlots.Files.Tree
import StorageSlots.Packing.SearchLaws
import StorageSlots.Proofs.Exactness
import StorageSlots.Proofs.Fallback
import StorageSlots.Proofs.Refill
import StorageSlots.Proofs.Identity
import StorageSlots.Proofs.Failure
import StorageSlots.Proofs.Independence
import StorageSlots.Proofs.Minimum
import StorageSlots.Proofs.Cutting
import StorageSlots.Proofs.Waste
import StorageSlots.Proofs.Isolation
import StorageSlots.Proofs.RoundTrip
import StorageSlots.Proofs.Reading
import StorageSlots.Proofs.Ratio
import StorageSlots.Proofs.SizeOrder
import StorageSlots.Proofs.FirstViolation
import StorageSlots.Proofs.NormalForm
import StorageSlots.Proofs.Aggregation
import StorageSlots.Proofs.Sizing
import StorageSlots.Proofs.Labels
import StorageSlots.Proofs.Visibility
import StorageSlots.Proofs.Certification
