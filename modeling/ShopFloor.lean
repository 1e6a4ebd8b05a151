import ShopFloor.Text.Blank
import ShopFloor.Text.Case
import ShopFloor.Text.Decimal
import ShopFloor.Text.Split
import ShopFloor.NameMap
import ShopFloor.NameSet
import ShopFloor.Allocation.Status
import ShopFloor.Fault
import ShopFloor.Skill.Level
import ShopFloor.Skill.Requirement
import ShopFloor.Window.Basic
import ShopFloor.Window.Split
import ShopFloor.Window.Cover
import ShopFloor.Window.Peak
import ShopFloor.Profile
import ShopFloor.Variant
import ShopFloor.Allocation.Record
import ShopFloor.Coverage
import ShopFloor.Selection.Policy
import ShopFloor.Selection.Feasibility
import ShopFloor.Selection.Choice
import ShopFloor.Ledger.Book
import ShopFloor.Ledger.Basic
import ShopFloor.Ledger.Queries
import ShopFloor.Ledger.Utilization
import ShopFloor.Ledger.Indicators
import ShopFloor.InTurn
import ShopFloor.Memo
import ShopFloor.Event.Basic
import ShopFloor.Event.Buffer
import ShopFloor.Event.Outlet
import ShopFloor.Registry
import ShopFloor.Integrity
import ShopFloor.Settings
import ShopFloor.Binary64.Shortest
import ShopFloor.Json.Numeral
import ShopFloor.Json.Basic
import ShopFloor.Json.Writer
import ShopFloor.Json.Reader
import ShopFloor.Json.Codec
import ShopFloor.Json.Shape
import ShopFloor.Json.Tagged
import ShopFloor.Wire.Model
import ShopFloor.Wire.Answer
import ShopFloor.Wire.Event
import ShopFloor.Wire.Settings
import ShopFloor.Intake
import ShopFloor.Engine
import ShopFloor.Proofs.Window.Peak
import ShopFloor.Proofs.Ledger.Book
import ShopFloor.Proofs.Ledger.Run
import ShopFloor.Proofs.Ledger.Consistency
import ShopFloor.Proofs.Ledger.InsertionOrder
import ShopFloor.Proofs.Ledger.Coherence
import ShopFloor.Proofs.Ledger.Crowding
import ShopFloor.Proofs.Ledger.Lifecycle
import ShopFloor.Proofs.Ledger.Revision
import ShopFloor.Proofs.Ledger.Locality
import ShopFloor.Proofs.Ledger.Refusal
import ShopFloor.Proofs.Ledger.Independence
import ShopFloor.Proofs.Ledger.Arrivals
import ShopFloor.Proofs.Ledger.Rollup
import ShopFloor.Proofs.Ledger.Resolution
import ShopFloor.Proofs.Binary64.Whole
import ShopFloor.Proofs.Selection.Ranking
import ShopFloor.Proofs.Selection.Feasible
import ShopFloor.Proofs.Selection.Outcome
import ShopFloor.Proofs.Names
import ShopFloor.Proofs.Coverage.Pool
import ShopFloor.Proofs.Coverage.Easing
import ShopFloor.Proofs.Selection.Reordering
import ShopFloor.Proofs.Selection.Easing
import ShopFloor.Proofs.Intake.Recall
import ShopFloor.Proofs.InTurn
import ShopFloor.Proofs.Skill.Reading
import ShopFloor.Proofs.Binary64.Rounding
import ShopFloor.Proofs.Selection.Tolerance
import ShopFloor.Proofs.Json.Origin
import ShopFloor.Proofs.Wire.Restrictions
import ShopFloor.Proofs.Binary64.Conversion
import ShopFloor.Proofs.Json.ReadBack
import ShopFloor.Proofs.Json.Lossless
import ShopFloor.Proofs.Wire.RoundTrip
import ShopFloor.Proofs.Skill.Writing
import ShopFloor.Proofs.Event.Buffer
import ShopFloor.Proofs.Ledger.Flags
import ShopFloor.Proofs.Engine.Run
import ShopFloor.Proofs.Engine.Events
import ShopFloor.Proofs.Engine.Loading
import ShopFloor.Proofs.Integrity.Cells
import ShopFloor.Proofs.Coverage.Order
import ShopFloor.Proofs.Coverage.BestFirst
import ShopFloor.Proofs.Coverage.Staffing
import ShopFloor.Proofs.Coverage.Specialists
import ShopFloor.Proofs.Ledger.Account
import ShopFloor.Proofs.Ledger.Moves
import ShopFloor.Proofs.Ledger.Tally
import ShopFloor.Proofs.Registry.History
import ShopFloor.Proofs.Window.Instants
import ShopFloor.Proofs.Ledger.BookedTime
import ShopFloor.Proofs.Text.Pieces
import ShopFloor.Proofs.Skill.Grammar
import ShopFloor.Proofs.Intake.Lists
import ShopFloor.Proofs.Memo
import ShopFloor.Proofs.Window.Union
import ShopFloor.Proofs.Engine.OneByOne
import ShopFloor.Proofs.Engine.Conflicts
import ShopFloor.Proofs.Integrity.Defects
import ShopFloor.Proofs.Window.Tiling
import ShopFloor.Proofs.Window.Sweep
import ShopFloor.Proofs.Window.Words
