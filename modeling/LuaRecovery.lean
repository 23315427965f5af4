import LuaRecovery.Lua.Number
import LuaRecovery.Lua.Ast
import LuaRecovery.Lua.Semantics
import LuaRecovery.Lua.Interpreter
import LuaRecovery.Oracle.SemanticOracle
import LuaRecovery.Oracle.TraceReplay
import LuaRecovery.Oracle.Progression
import LuaRecovery.Cfg.Dispatcher
import LuaRecovery.Oracle.TraceReproduction
import LuaRecovery.Cfg.DecisionTree
import LuaRecovery.Cfg.DispatcherBlocks
import LuaRecovery.Evaluator.FoldValue
import LuaRecovery.Cfg.LeafTransitions
import LuaRecovery.Analysis.OracleSeparation
import LuaRecovery.Lua.Lockstep
import LuaRecovery.Transforms.Inertness
import LuaRecovery.Transforms.Correspondence
import LuaRecovery.Transforms.Congruence
import LuaRecovery.Transforms.Statements
import LuaRecovery.Transforms.RewritingSound
import LuaRecovery.Transforms.FoldSafety
import LuaRecovery.Transforms.FoldSound
import LuaRecovery.Transforms.Cleanup
import LuaRecovery.Transforms.CleanupSafety
import LuaRecovery.Transforms.CleanupSound
import LuaRecovery.Queue.LeaseExclusivity
import LuaRecovery.Queue.RedisQueue
import LuaRecovery.Transforms.StateRemoval
import LuaRecovery.Queue.RedisReplies
import LuaRecovery.Queue.RedisClient
import LuaRecovery.Gateway.RateLimiter
import LuaRecovery.Gateway.ArtifactStore
import LuaRecovery.Gateway.SubmissionIsolation
import LuaRecovery.Queue.RedisIdempotency
import LuaRecovery.Queue.RedisLoss
import LuaRecovery.Gateway.SourcePurge
import LuaRecovery.Api.IdempotencyKeys
import LuaRecovery.Gateway.ArtifactConfidentiality
import LuaRecovery.Api.Cancellation
import LuaRecovery.Auth.AssertionReplay
import LuaRecovery.Auth.OAuthStates
import LuaRecovery.Auth.SessionLifetime
import LuaRecovery.Auth.SessionRotation
import LuaRecovery.Auth.DiscordOAuth
import LuaRecovery.Auth.IdentityStore
import LuaRecovery.Oracle.TraceComparison
import LuaRecovery.Lua.Lexer
import LuaRecovery.Lua.ParserRuns
import LuaRecovery.Lua.Generator
import LuaRecovery.Lua.Numerals
import LuaRecovery.Lua.Legibility
import LuaRecovery.Lua.TextLexing
import LuaRecovery.Lua.SpellingLexes
import LuaRecovery.Lua.Reparsing
import LuaRecovery.Lua.ReadPrograms
import LuaRecovery.Lua.SourceRoundTrip
import LuaRecovery.Lib.Base64
import LuaRecovery.Adapters.CustomBase64
import LuaRecovery.Adapters.StringPool
import LuaRecovery.Lua.LiteralRoundTrip
import LuaRecovery.Lua.SynthesizedStrings
import LuaRecovery.Lua.LiteralMeaning
import LuaRecovery.Lua.SpelledLexemes
import LuaRecovery.Lua.TokenPositions
import LuaRecovery.Transforms.VisitorRecursion
import LuaRecovery.Lua.CompoundAssignment
import LuaRecovery.Lua.AcceptedTrees
import LuaRecovery.Analysis.EvaluationOrder
import LuaRecovery.Cfg.StateOwnership
import LuaRecovery.Analysis.SemanticEmitter
import LuaRecovery.Native.PreflightGuard
import LuaRecovery.Analysis.VarargCounts
import LuaRecovery.Analysis.PointsToRuns
import LuaRecovery.Gateway.SlidingWindowExact
import LuaRecovery.Api.SubmissionCost
import LuaRecovery.Gateway.RedisLockout
import LuaRecovery.Discord.AddressSpellings
import LuaRecovery.Discord.RedirectBound
import LuaRecovery.Community.StoreInvariant
import LuaRecovery.Community.StoreAtomicity
import LuaRecovery.Transforms.RecoveryPipeline
import LuaRecovery.Api.ProductLifecycle
import LuaRecovery.Analysis.EmittedNames
