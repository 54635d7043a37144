import Assortment.Goods.Pricing
import Assortment.Service.Settings
import Assortment.Storage.Script
import Assortment.Storage.Wire
import Assortment.Proofs.Service.History
import Assortment.Proofs.Service.Interleaving
import Assortment.Proofs.Service.Refinement
import Assortment.Proofs.Service.Upkeep
import Assortment.Proofs.Storage.Transaction
import Assortment.Proofs.Storage.Agreement
import Assortment.Proofs.Service.Overtaken
import Assortment.Proofs.Records.Conformance
import Assortment.Proofs.Records.Codec
import Assortment.Proofs.Service.Plans
import Assortment.Proofs.Storage.Precision
import Assortment.Proofs.Service.Precision
import Assortment.Proofs.Records.Payload
import Assortment.Proofs.Service.Loading
import Assortment.Proofs.Goods.Ledger
import Assortment.Proofs.Service.Delivery
import Assortment.Proofs.Service.Validation
import Assortment.Proofs.Goods.Pricing
import Assortment.Proofs.Goods.Display
import Assortment.Proofs.Records.Resubmission
import Assortment.Proofs.Goods.Window
import Assortment.Proofs.Storage.Binding
import Assortment.Proofs.Time.Clock
import Assortment.Proofs.Storage.Typed
