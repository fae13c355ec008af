import FxVol.TerminalAbsorption
import FxVol.BookConsistency
import FxVol.KeyedLog
import FxVol.FillOrderIndependence
import FxVol.ComboBooking
import FxVol.SessionReplay
import FxVol.ReplayAttribution
import FxVol.ClaimProtocol
import FxVol.LiveSubmit
import FxVol.PlacementSystem
import FxVol.ClaimColumns
import FxVol.PlacementClaims
import FxVol.ReservationLedger
import FxVol.TableTotals
import FxVol.CloseHeadroom
import FxVol.CloseInterleavings
import FxVol.TradeCloses
import FxVol.Ledger
import FxVol.PositionCloseFinaliser
import FxVol.StructurePnl
import FxVol.ReadyGate
import FxVol.PositionCloseSubmit
import FxVol.PositionReconciliation
import FxVol.ReaperAgreement
import FxVol.MirrorFills
import FxVol.OrderSlots
import FxVol.RollbackRuns
import FxVol.RollbackCover
import FxVol.CompletionCascade
import FxVol.CompletionOnce
import FxVol.CompletionRestart
import FxVol.CommissionFolds
import FxVol.CommissionTotals
import FxVol.HedgeConvergence
import FxVol.MirrorFaithfulness
import FxVol.BreakExactness
import FxVol.StructureOutcome
import FxVol.OrderAdoption
import FxVol.ReadModifyWrite
import FxVol.SpotOrders
import FxVol.SpotFolding
import FxVol.PreviewRequests
import FxVol.PreviewSubmission
import FxVol.GreekScaling
import FxVol.TradePreviews
import FxVol.PretradeGate
import FxVol.GateUnits
import FxVol.GateClosure
import FxVol.BookExposure
import FxVol.GreekCapRuns
import FxVol.MirrorLag
import FxVol.GreekLimits
import FxVol.OptionPrices
import FxVol.PreviewPricing
import FxVol.PreviewScaling
import FxVol.LegInstruments
import FxVol.BookState
import FxVol.BookingPaths
import FxVol.BookRefreshes
import FxVol.RefreshRuns
import FxVol.PositionMarks
import FxVol.MonitoredPnl
import FxVol.ExitRules
import FxVol.ExitAlerts
import FxVol.StagedWork
import FxVol.MonitorSessions
import FxVol.RiskSnapshots
import FxVol.RiskAggregate
import FxVol.PnlAttributions
import FxVol.DailyRollups
import FxVol.RetriedPrograms
import FxVol.WriterBatches
import FxVol.FairRuns
import FxVol.WriterShutdown
import FxVol.ConfigVersions
import FxVol.ListedTenors
import FxVol.ContractMonths
import FxVol.KillSwitch
import FxVol.SubmitGate
import FxVol.HedgesInFlight
import FxVol.PanelAgreement
import FxVol.GreekPnlHistory
import FxVol.HedgeDispatch
import FxVol.ExpiringHashes
import FxVol.MarkFreshness
import FxVol.ModelSwitch
import FxVol.SignalSeries
import FxVol.ReferencedSignals
import FxVol.StackingGuard
import FxVol.SymbolBuilders
import FxVol.DisplayPasses
import FxVol.FreeTemplates
import FxVol.Polyline
import FxVol.SmileLookup
import FxVol.ComboContracts
import FxVol.BlackFormula
import FxVol.Pricers
import FxVol.StressLaws
import FxVol.ComponentVar
import FxVol.AttributionPivot
import FxVol.FairVolCache
import FxVol.SsviSurface
import FxVol.PricerAgreement
import FxVol.AlignedChanges
import FxVol.MarginalVar
import FxVol.EventFrames
import FxVol.AccountVar
import FxVol.GarchTerm
import FxVol.HyperbolaArm
import FxVol.SviSmile
import FxVol.DiscountedMean
import FxVol.NavAnchor
import FxVol.BlackGreeks
import FxVol.ImpliedVol
import FxVol.SignAlignment
import FxVol.PcaOrientation
import FxVol.HistoricalVar
import FxVol.TickPublisher
import FxVol.LiveFanOut
import FxVol.TickFeed
import FxVol.EventCalendar
import FxVol.FairTerm
import FxVol.RegimeGate
import FxVol.WindowRecursion
import FxVol.HarTerm
import FxVol.LeastSquares
import FxVol.FeatureEnrichment
import FxVol.RegimeFeatures
import FxVol.ExecutionWatch
import FxVol.NewestFirst
import FxVol.PublishedViews
import FxVol.SurfaceHistory
import FxVol.ShadowModel
