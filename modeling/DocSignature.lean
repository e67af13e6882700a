import DocSignature.Http.Server
import DocSignature.Main
import DocSignature.Proofs.Comments
import DocSignature.Proofs.Placeholders
import DocSignature.Proofs.Response
import DocSignature.Proofs.ParsedTree
import DocSignature.Proofs.Serving
import DocSignature.Proofs.SourceOrder
import DocSignature.Proofs.Totality
import DocSignature.Proofs.Translation
import DocSignature.Proofs.SettingsHistory
import DocSignature.Proofs.Support
import DocSignature.Proofs.Blocks
import DocSignature.Proofs.Nearest
import DocSignature.Proofs.LiteralValue
import DocSignature.Proofs.StringLiteral
import DocSignature.Proofs.Spans
import DocSignature.Proofs.Coordinates
import DocSignature.Proofs.FirstFault
import DocSignature.Proofs.Events
