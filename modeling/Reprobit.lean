import Reprobit.Evidence.Roots
import Reprobit.Evidence.QuarantineMap
import Reprobit.Coff.Frame
import Reprobit.Overlay.Relocation
import Reprobit.Producer.Literals
import Reprobit.Producer.BuildOrder
import Reprobit.Transaction.Preserve
import Reprobit.Pe.KeptReferences
import Reprobit.Linkage.DefKeywords
import Reprobit.Refactor.FillLoop
import Reprobit.Cache.CollectionSafety
import Reprobit.Cache.Observers
import Reprobit.Json.StrictJson
import Reprobit.Refactor.CaptureFlow
import Reprobit.Floating.SquaredExact
import Reprobit.Region.ScratchSlot
import Reprobit.Overlay.Edits
import Reprobit.SealedNamespace.Lease
import Reprobit.Coff.Replacements
import Reprobit.Register.Repair
