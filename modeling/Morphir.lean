import Morphir.Typing.TypeScope
import Morphir.Typing.ExpansionAgreement
import Morphir.Typing.TypeContext
import Morphir.Host.Negotiation
import Morphir.Host.SessionObjectRuns
import Morphir.Toml.Located
import Morphir.Scheme.SpecRoundTrip
import Morphir.Mep.FrameRoundTrip
import Morphir.Executions.OwnerHistories
import Morphir.Engine.PlanTargets
import Morphir.Engine.ModelDocumentRuns
import Morphir.Moonbit.LocalNames
import Morphir.Execution.Codec
import Morphir.Intent.InspectionAgreement
import Morphir.Files.Grants
import Morphir.Files.SavingRuns
import Morphir.Authority.NativeAuthority
import Morphir.Artifacts.Transfers
import Morphir.Yaml.Scalars
import Morphir.Scheme.Arithmetic
import Morphir.Toml.KeyText
import Morphir.Mep.GuestSessionRuns
import Morphir.Scheme.PreviewPrefix
import Morphir.Typing.GroupOrder
import Morphir.Typing.RelationVerdicts
import Morphir.Host.StderrTail
import Morphir.Sdk.Sorting
import Morphir.Sdk.Text
import Morphir.Sdk.DictRuns
import Morphir.Mep.ModelBudgetRuns
import Morphir.Moonbit.DecimalConstant
import Morphir.Moonbit.LoweredTypes
import Morphir.Engine.Lineage
import Morphir.Engine.Glob
import Morphir.Wasm.Capping
import Morphir.Engine.Scaffold
import Morphir.Engine.Generation
import Morphir.Execution.RunCleanup
import Morphir.Metadata.AddressRoundTrip
import Morphir.Metadata.ContextOrders
import Morphir.Elm.Generation
import Morphir.Elm.Spellings
import Morphir.Frontend.NumericLiteral
import Morphir.Execution.Equality
import Morphir.IR.TreeNames
