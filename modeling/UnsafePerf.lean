import UnsafePerf.Concurrency.RelyGuarantee
import UnsafePerf.CpuCycle.Totals
import UnsafePerf.CpuCycle.Conservation
import UnsafePerf.CpuCycle.Nesting
import UnsafePerf.Heap.Tracker
import UnsafePerf.Heap.Sequential
import UnsafePerf.Heap.LiveObjects
import UnsafePerf.Heap.UnsafeShare
import UnsafePerf.Heap.Concurrent
import UnsafePerf.Text.Decimal
import UnsafePerf.Coverage.Analyze
import UnsafePerf.Coverage.RoundTrip
import UnsafePerf.Files.FileTree
import UnsafePerf.Pipeline.Collect
import UnsafePerf.Pipeline.Crates
import UnsafePerf.Pipeline.Attribution
import UnsafePerf.Heap.Events
import UnsafePerf.Heap.Report
import UnsafePerf.Heap.Lifetimes
import UnsafePerf.CpuCycle.ExitReport
import UnsafePerf.CpuCycle.Saturation
import UnsafePerf.CpuCycle.Inheritance
import UnsafePerf.CpuCycle.Afterlife
import UnsafePerf.Coverage.Fraction
import UnsafePerf.Concurrency.Commuting
import UnsafePerf.UnsafeCounter.Bitset
import UnsafePerf.UnsafeCounter.Tracker
import UnsafePerf.UnsafeCounter.Aggregate
import UnsafePerf.Concurrency.Locks
import UnsafePerf.Heap.Reentrancy
import UnsafePerf.Heap.SubHistogram
import UnsafePerf.Heap.WriteOutput
import UnsafePerf.Heap.Placement
import UnsafePerf.Files.PathText
import UnsafePerf.Pipeline.Launch
import UnsafePerf.Pipeline.Selection
import UnsafePerf.UnsafeCounter.OneShot
import UnsafePerf.Pipeline.OutputDir
import UnsafePerf.Coverage.Locations
import UnsafePerf.Concurrency.Turns
import UnsafePerf.CpuCycle.Occupancy
import UnsafePerf.Concurrency.Components
import UnsafePerf.CpuCycle.ThreadStart
import UnsafePerf.Concurrency.CriticalSections
import UnsafePerf.Concurrency.Observer
import UnsafePerf.Concurrency.Once
import UnsafePerf.Coverage.Locked
import UnsafePerf.CpuCycle.Advance
import UnsafePerf.CpuCycle.Handover
import UnsafePerf.CpuCycle.LiveReport
import UnsafePerf.CpuCycle.ReportOnce
import UnsafePerf.Concurrency.Assuming
import UnsafePerf.Concurrency.Budget
import UnsafePerf.Files.CopyTree
import UnsafePerf.Pipeline.Provision
import UnsafePerf.UnsafeCounter.Publication
import UnsafePerf.UnsafeCounter.RunningReport
import UnsafePerf.Concurrency.Debts
import UnsafePerf.Concurrency.Recording
import UnsafePerf.Heap.Holdings
import UnsafePerf.Heap.Balances
import UnsafePerf.Pipeline.StatFiles
