import HttpFraming.Bytes
import HttpFraming.Collecting.Source
import HttpFraming.Endpoint.Server
import HttpFraming.Framing
import HttpFraming.Proofs.Arrival.Independence
import HttpFraming.Proofs.Conversing.Pipeline
import HttpFraming.Proofs.Pairing.Agreement
import HttpFraming.Proofs.RoundTrip.Messages
import HttpFraming.Serving.Run
import HttpFraming.Proofs.Collecting.Messages
import HttpFraming.Proofs.Pairing.Refusals
import HttpFraming.Proofs.RoundTrip.Blanks
import HttpFraming.Proofs.RoundTrip.Boundaries
import HttpFraming.Proofs.Arrival.Fronts
import HttpFraming.Proofs.Serving.Stops
import HttpFraming.Proofs.Serving.Finals
import HttpFraming.Proofs.Arrival.Streams
import HttpFraming.Proofs.Collecting.Bounds
import HttpFraming.Proofs.Serving.Handing
import HttpFraming.Proofs.Serving.Delimiting
import HttpFraming.Proofs.Pairing.Closure
import HttpFraming.Proofs.Tunnel.Writing
import HttpFraming.Proofs.Tunnel.Reading
import HttpFraming.Proofs.Collecting.Oversize
import HttpFraming.Proofs.Collecting.Selection
import HttpFraming.Proofs.RoundTrip.Truncation
import HttpFraming.Proofs.Serving.Closing
import HttpFraming.Proofs.Serving.Lockstep
import HttpFraming.Proofs.Serving.Journals
import HttpFraming.Proofs.Serving.Announcing
import HttpFraming.Proofs.Framing.Codings
import HttpFraming.Proofs.Framing.Agreement
import HttpFraming.Proofs.Chunked.Acceptance
import HttpFraming.Proofs.Chunked.TrailerLimit
import HttpFraming.Proofs.Framing.Rewriting
import HttpFraming.Proofs.Encoding.Bodies
import HttpFraming.Proofs.Collecting.Refusals
import HttpFraming.Proofs.Draining.Loops
