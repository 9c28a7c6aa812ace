import InertText.Context.Registry
import InertText.Main
import InertText.Rules.Definition
import InertText.Proofs.Cdata.Deletion
import InertText.Proofs.Cdata.Section
import InertText.Proofs.Html.Expansion
import InertText.Proofs.Script.Evaluation
import InertText.Proofs.Xml.Expansion
import InertText.Proofs.Uri.Decoding
import InertText.Proofs.Json.Reading
import InertText.Proofs.Delivery.Chunks
import InertText.Proofs.Rules.Length
import InertText.Proofs.Delivery.Streaming
import InertText.Proofs.Rules.Filtering
import InertText.Proofs.Cdata.Filtering
import InertText.Proofs.Script.Markup
import InertText.Proofs.Context.Agreement
import InertText.Proofs.Delivery.Run
import InertText.Proofs.Delivery.Boundaries
import InertText.Proofs.Cdata.Cuts
import InertText.Proofs.Context.Calls
import InertText.Proofs.Context.Inert
import InertText.Proofs.Context.Characters
import InertText.Proofs.Rules.Keeping
import InertText.Proofs.Rules.Entities
import InertText.Proofs.Rules.Extension
import InertText.Proofs.Context.Order
import InertText.Proofs.Uri.Nesting
import InertText.Proofs.Delivery.Conservation
import InertText.Proofs.Rules.PropertyOrder
import InertText.Proofs.Rules.Acceptance
import InertText.Proofs.Bench.Session
import InertText.Proofs.Text.HexWidth
