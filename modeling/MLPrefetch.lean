import MLPrefetch.Basic
import MLPrefetch.QTable
import MLPrefetch.Encoding
import MLPrefetch.Persistence
import MLPrefetch.Loader
import MLPrefetch.Signature
import MLPrefetch.Tracker
import MLPrefetch.Controller
import MLPrefetch.Epoch
import MLPrefetch.Run
import MLPrefetch.Actions
import MLPrefetch.Width
import MLPrefetch.Values
import MLPrefetch.Policy
import MLPrefetch.Attribution
import MLPrefetch.Usage
import MLPrefetch.Learning
import MLPrefetch.Footprint
import MLPrefetch.Sensors
import MLPrefetch.Frame
import MLPrefetch.Process
