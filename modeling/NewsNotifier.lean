import NewsNotifier.LetterCase
import NewsNotifier.InterleavedPrograms
import NewsNotifier.InterleavedRules
import NewsNotifier.InterleavedContracts
import NewsNotifier.KeyedRows
import NewsNotifier.PyValues
import NewsNotifier.NewsRows
import NewsNotifier.TitleSimhash
import NewsNotifier.SearchMerge
import NewsNotifier.ArticleScoring
import NewsNotifier.NewsDatabase
import NewsNotifier.NewsStatements
import NewsNotifier.NewsExecution
import NewsNotifier.BatchPrograms
import NewsNotifier.CandidateProgram
import NewsNotifier.DeliveryProgram
import NewsNotifier.MarketProgram
import NewsNotifier.ServicePrograms
import NewsNotifier.TaskStatements
import NewsNotifier.NewsSystem
import NewsNotifier.DeliveryLedger
import NewsNotifier.LedgerInvariants
import NewsNotifier.LedgerSteps
import NewsNotifier.LedgerFrame
import NewsNotifier.LedgerRefinement
import NewsNotifier.LedgerRules
import NewsNotifier.BatchSpecs
import NewsNotifier.CandidateSpecs
import NewsNotifier.DeliverySpecs
import NewsNotifier.MarketSpecs
import NewsNotifier.LedgerGoverns
import NewsNotifier.NewsRuns
import NewsNotifier.BatchClosing
import NewsNotifier.IdempotencyKeys
import NewsNotifier.MarketDedup
import NewsNotifier.StoredArticles
import NewsNotifier.DeliveryProgress
import NewsNotifier.DeliveryFrame
import NewsNotifier.DeliveryRefinement
import NewsNotifier.DeliveryRules
import NewsNotifier.DeliveryAttempts
import NewsNotifier.DeliveryResumes
import NewsNotifier.DeliveryGoverns
import NewsNotifier.ResumableDelivery
import NewsNotifier.WatermarkUpdates
import NewsNotifier.CycleDates
import NewsNotifier.CycleRuns
import NewsNotifier.CycleChronology
import NewsNotifier.CandidateAnswers
import NewsNotifier.CandidateSlots
import NewsNotifier.ResolvedSlots
import NewsNotifier.PollJobs
import NewsNotifier.PollChains
import NewsNotifier.SweepRecovery
import NewsNotifier.Utf8Decoding
import NewsNotifier.QueryStrings
import NewsNotifier.UrlSplitting
import NewsNotifier.UrlNormalForm
import NewsNotifier.UrlInvariance
import NewsNotifier.UrlSeparation
import NewsNotifier.ExecutionTraces
import NewsNotifier.CommittedRows
import NewsNotifier.RepeatedSearches
import NewsNotifier.BatchDispatch
import NewsNotifier.BatchSlots
import NewsNotifier.DispatchLedger
import NewsNotifier.PausedTasks
import NewsNotifier.SilentSteps
import NewsNotifier.PausedMarkets
import NewsNotifier.FutureDates
import NewsNotifier.ExecutionRounds
import NewsNotifier.DeliveryTally
import NewsNotifier.AttemptBudget
import NewsNotifier.BoundedRetries
import NewsNotifier.DeliveryTurns
import NewsNotifier.WatermarkTurns
import NewsNotifier.WatermarkRuns
import NewsNotifier.WatermarkCover
import NewsNotifier.CharacterRuns
import NewsNotifier.TitleFingerprints
import NewsNotifier.HalfEvenRounding
import NewsNotifier.SourceReputation
import NewsNotifier.TelegramMessage
import NewsNotifier.QuoteVerification
import NewsNotifier.PollCadence
import NewsNotifier.FuturePolls
import NewsNotifier.SearchCompleteness
import NewsNotifier.InterleavedTotal
import NewsNotifier.MsnExtractor
import NewsNotifier.MsnRefresh
import NewsNotifier.MsnRotation
import NewsNotifier.TrackedJobs
import NewsNotifier.AbortedJobs
import NewsNotifier.FinalisedOrder
import NewsNotifier.DeliveredOrder
import NewsNotifier.ArqQueue
import NewsNotifier.RetrySweep
import NewsNotifier.SlotStages
import NewsNotifier.AbortMarks
import NewsNotifier.StableRanking
import NewsNotifier.CandidateRanking
import NewsNotifier.ExecutionOrigins
import NewsNotifier.SessionViews
import NewsNotifier.ArticleProvenance
import NewsNotifier.RowReferences
import NewsNotifier.ReferentialIntegrity
import NewsNotifier.MarketIsolation
import NewsNotifier.FiniteRuns
import NewsNotifier.PageScraper
import NewsNotifier.ScraperBatches
import NewsNotifier.ScraperOutcomes
import NewsNotifier.ScraperProgress
import NewsNotifier.LoneRuns
import NewsNotifier.RecoveryRuns
import NewsNotifier.RecoverableBatches
import NewsNotifier.LockedRuns
import NewsNotifier.LockedSessions
import NewsNotifier.DeliveredArticles
import NewsNotifier.RecoverablePolls
import NewsNotifier.Subscriptions
import NewsNotifier.OrderedPages
import NewsNotifier.NewsFeed
import NewsNotifier.FirstOccurrences
import NewsNotifier.SubscriberInbox
import NewsNotifier.QueryGeneration
import NewsNotifier.AnswerTraces
import NewsNotifier.LlmClient
import NewsNotifier.LlmRetries
import NewsNotifier.JsonText
import NewsNotifier.WebhookBody
