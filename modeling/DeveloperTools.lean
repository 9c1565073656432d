import DeveloperTools.Cctools.ArchiveToc
import DeveloperTools.Cctools.OverlapCheck
import DeveloperTools.Cctools.SliceOrder
import DeveloperTools.Cctools.VersionNumbers
import DeveloperTools.Ld64.BranchFixupsSound
import DeveloperTools.Ld64.BranchIslandSpacing
import DeveloperTools.Ld64.Chain32
import DeveloperTools.Ld64.CodeDedupSound
import DeveloperTools.Ld64.DataInCode
import DeveloperTools.Ld64.DeadStripInput
import DeveloperTools.Ld64.DylibOrdinals
import DeveloperTools.Ld64.ExportsTrieLookup
import DeveloperTools.Ld64.FatFile
import DeveloperTools.Ld64.FixupCoverageSound
import DeveloperTools.Ld64.FunctionStarts
import DeveloperTools.Ld64.HintGuards
import DeveloperTools.Ld64.LazyBinding
import DeveloperTools.Ld64.MachOTrieRun
import DeveloperTools.Ld64.RebaseRuns
import DeveloperTools.Ld64.ReferenceCoalescing
import DeveloperTools.Ld64.SectionsApart
import DeveloperTools.Ld64.SplitSegV1
import DeveloperTools.Ld64.SplitSegV2
import DeveloperTools.Ld64.SymbolResolutionOrder
import DeveloperTools.Ld64.ThreadedFaithful
import DeveloperTools.Mig.Counts
import DeveloperTools.Mig.Dispatch
import DeveloperTools.Tapi.Declarations
import DeveloperTools.Tapi.SymbolVerifier
