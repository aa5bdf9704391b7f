import WebserverEthercat.Lib.EventMachine
import WebserverEthercat.Festo
import WebserverEthercat.Loop.StepMachine
import WebserverEthercat.Loop.ProcessImage
import WebserverEthercat.Loop.Cycle
import WebserverEthercat.Loop.MotionSafety
import WebserverEthercat.Loop.Exchange
import WebserverEthercat.Lib.WriteBack
import WebserverEthercat.Lib.RingBuffer
import WebserverEthercat.Lib.Scanf
import WebserverEthercat.Lib.Fgets
import WebserverEthercat.Lib.WebText
import WebserverEthercat.Loop.WebUpdate
import WebserverEthercat.Lib.CString
import WebserverEthercat.Post.Connections
import WebserverEthercat.Post.Body
import WebserverEthercat.Lib.Decimal
import WebserverEthercat.Form.KeyValue
import WebserverEthercat.Form.PostData
import WebserverEthercat.Form.Grammar
import WebserverEthercat.Form.RoundTrip
import WebserverEthercat.Startup.Procedures
import WebserverEthercat.Startup.Link
import WebserverEthercat.Startup.Pointers
import WebserverEthercat.Dump.Row
import WebserverEthercat.Dump.Sii
import WebserverEthercat.Dump.SiiRefinement
import WebserverEthercat.Dump.SiiSection
import WebserverEthercat.Dump.SiiDecoded
import WebserverEthercat.Dump.SiiInside
import WebserverEthercat.Lib.Checked
import WebserverEthercat.Dump.SiiTables
import WebserverEthercat.Dump.AssignReads
import WebserverEthercat.Dump.Tiling
import WebserverEthercat.Lib.Rounding
import WebserverEthercat.Get.PolledValue
import WebserverEthercat.Form.NumberRange
import WebserverEthercat.Post.AllocationFailure
import WebserverEthercat.Monitor.Pass
import WebserverEthercat.Monitor.Guard
import WebserverEthercat.Dump.Sdo
import WebserverEthercat.Dump.PdoAssign
import WebserverEthercat.Get.Handler
import WebserverEthercat.Dump.Mapping
import WebserverEthercat.Dump.SameMapping
import WebserverEthercat.Dump.Positions
import WebserverEthercat.Dump.ObjectDictionary
import WebserverEthercat.Dump.Attribution
import WebserverEthercat.Dump.Slaveinfo
import WebserverEthercat.Dump.ErrorList
import WebserverEthercat.Pdo.RowReading
import WebserverEthercat.Pdo.RowRoundTrip
import WebserverEthercat.Pdo.Json
import WebserverEthercat.Pdo.Page
import WebserverEthercat.Pdo.RowSeen
import WebserverEthercat.Dump.CoeLines
import WebserverEthercat.Pdo.PdoTxt
import WebserverEthercat.Pdo.Sections
import WebserverEthercat.Pdo.InputSection
import WebserverEthercat.Pdo.SameInputs
import WebserverEthercat.Dump.Files
import WebserverEthercat.Dump.Separable
import WebserverEthercat.Dump.RightlyFiled
import WebserverEthercat.Startup.StateChecks
import WebserverEthercat.Dump.OctetString
import WebserverEthercat.Dump.IntegerText
import WebserverEthercat.Lib.Alternation
import WebserverEthercat.Loop.RoundTrips
import WebserverEthercat.Form.LongPairs
import WebserverEthercat.Lib.Stdio
import WebserverEthercat.Dump.Redirect
import WebserverEthercat.Lib.Forest
import WebserverEthercat.Lib.Pieces
import WebserverEthercat.Lib.Reads
import WebserverEthercat.Topology.Parents
import WebserverEthercat.Topology.Configdc
import WebserverEthercat.Topology.Delays
import WebserverEthercat.Topology.Chain
import WebserverEthercat.IoMap.Segments
import WebserverEthercat.IoMap.Frames
import WebserverEthercat.IoMap.Network
import WebserverEthercat.IoMap.Records
import WebserverEthercat.Eeprom.Cache
import WebserverEthercat.Eeprom.CachedReads
import WebserverEthercat.Eeprom.Sii
import WebserverEthercat.Eeprom.Image
import WebserverEthercat.Eeprom.SectionBodies
import WebserverEthercat.Eeprom.Config
import WebserverEthercat.Eeprom.Lookup
import WebserverEthercat.Eeprom.Configured
import WebserverEthercat.Eeprom.PdoSection
import WebserverEthercat.Eeprom.Search
import WebserverEthercat.Coe.Accesses
import WebserverEthercat.Coe.LossyUpload
import WebserverEthercat.Driver.Port
import WebserverEthercat.Driver.Answers
