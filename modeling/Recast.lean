import Recast.Convert
import Recast.Desk.File
import Recast.Desk.Session
import Recast.Detect
import Recast.Proofs.Text.Boundary
import Recast.Proofs.Convert.JsonOutput
import Recast.Proofs.Blocks.Balance
import Recast.Proofs.Blocks.RoundTrip
import Recast.Proofs.Blocks.Nesting
import Recast.Proofs.Schema.Soundness
import Recast.Proofs.Schema.Rendering
import Recast.Proofs.Types.Unfolding
import Recast.Proofs.Yaml.RoundTrip
import Recast.Proofs.Desk.Swap
import Recast.Proofs.Json.Braces
import Recast.Proofs.Convert.Prettify
import Recast.Proofs.Types.Unambiguous
import Recast.Proofs.Naming.Property
import Recast.Proofs.Types.Interface
import Recast.Proofs.Validator.Reading
import Recast.Proofs.Naming.Keys
import Recast.Proofs.Codec.Escape
import Recast.Proofs.Codec.Token
import Recast.Proofs.Desk.Independence
import Recast.Proofs.Schema.Target
import Recast.Proofs.Types.Inhabitants
import Recast.Proofs.Detect.Confidence
import Recast.Proofs.Blocks.Pairing
import Recast.Proofs.Types.Lifting
import Recast.Proofs.Xml.Gathering
import Recast.Proofs.Xml.Tree
import Recast.Proofs.Xml.Entries
import Recast.Proofs.Xml.Attribute
import Recast.Proofs.Markup.Renaming
import Recast.Proofs.Markup.Component
import Recast.Proofs.Markup.Order
import Recast.Proofs.Markup.Tidying
import Recast.Proofs.Detect.Letters
import Recast.Proofs.Validator.Acceptance
import Recast.Proofs.Desk.Reload
import Recast.Proofs.Yaml.Keys
import Recast.Proofs.Catalogue.Resolution
import Recast.Proofs.Naming.Pascal
import Recast.Proofs.Types.Depth
