import KvmUnitTests.PageAlloc.Safety
import KvmUnitTests.PageAlloc.Coalescing
import KvmUnitTests.PageAlloc.Completeness
import KvmUnitTests.PageAlloc.Reservation
import KvmUnitTests.PageAlloc.Fresh
import KvmUnitTests.PageAlloc.Areas
import KvmUnitTests.Vmalloc.Contract
import KvmUnitTests.Vmalloc.Ranges
import KvmUnitTests.Vmalloc.Ioremap
import KvmUnitTests.PhysAlloc.Contract
import KvmUnitTests.RiscvMmu.Refinement
import KvmUnitTests.IntelIommu.Refinement
import KvmUnitTests.ArmMmu.Refinement
import KvmUnitTests.Ept.Refinement
import KvmUnitTests.Its.Completion
import KvmUnitTests.Its.Encoding
import KvmUnitTests.Virtio.Queue
import KvmUnitTests.Sclp.LineMode
import KvmUnitTests.Sclp.Input
import KvmUnitTests.Printf.RoundTrip
import KvmUnitTests.Smp.Deadlock
import KvmUnitTests.Argv.Boot
import KvmUnitTests.MemRegions.Contract
import KvmUnitTests.Report.Prefix
import KvmUnitTests.Lib.Glob
import KvmUnitTests.Lib.Ldiv32
import KvmUnitTests.Lib.StrtolContract
import KvmUnitTests.Rand.Contract
import KvmUnitTests.X86Smp.Active
import KvmUnitTests.X86Smp.Calls
import KvmUnitTests.Pci.Capabilities
import KvmUnitTests.Pci.Translate
import KvmUnitTests.UnittestsCfg.Contract
import KvmUnitTests.Access.Contract
import KvmUnitTests.Access.Enumeration
import KvmUnitTests.X86Vm.Lookup
import KvmUnitTests.Gic.Distributor
import KvmUnitTests.Gic.Ipi
import KvmUnitTests.Acpi.Madt
import KvmUnitTests.Css.MeasurementBlock
