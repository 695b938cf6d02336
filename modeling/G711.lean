import G711.Pipeline
import G711.Bisimulation
import G711.Surfaces
import G711.Framing
import G711.Tandem
import G711.Distortion
import G711.Order
import G711.ZeroSuppression
import G711.Channels
import G711.Headers
import G711.Lines
import G711.Registration
import G711.Chains
import G711.Fuzz.Streaming
import G711.Fuzz.Pipelines
import G711.Fuzz.Totality
import G711.Fuzz.PerSample
import G711.Conversion
import G711.Corpus
