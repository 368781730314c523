import RelayKeeper.CommandLine.Dotenv
import RelayKeeper.CommandLine.Options
import RelayKeeper.CommandLine.Run
import RelayKeeper.Config.Settings
import RelayKeeper.Document.ClientConfig
import RelayKeeper.Document.KeyScript
import RelayKeeper.Document.RuntimeProxy
import RelayKeeper.Document.ServiceUnit
import RelayKeeper.Files.UserDirectories
import RelayKeeper.Json.Reader
import RelayKeeper.Machine.Calls
import RelayKeeper.Machine.Ground
import RelayKeeper.Proofs.AbandonedStarts
import RelayKeeper.Proofs.AddressGrammar
import RelayKeeper.Proofs.AddressRoundTrip
import RelayKeeper.Proofs.AddressText
import RelayKeeper.Proofs.Attempts
import RelayKeeper.Proofs.BagKeeping
import RelayKeeper.Proofs.BagMoments
import RelayKeeper.Proofs.BagSnapshots
import RelayKeeper.Proofs.BoundedWait
import RelayKeeper.Proofs.CanonicalBase64
import RelayKeeper.Proofs.CanonicalState
import RelayKeeper.Proofs.ConsumerFiles
import RelayKeeper.Proofs.DecodedText
import RelayKeeper.Proofs.Deferral
import RelayKeeper.Proofs.FingerprintText
import RelayKeeper.Proofs.Finishing
import RelayKeeper.Proofs.HandingOut
import RelayKeeper.Proofs.HealthClaims
import RelayKeeper.Proofs.HookPairs
import RelayKeeper.Proofs.HookPlans
import RelayKeeper.Proofs.HookRuns
import RelayKeeper.Proofs.HostPuts
import RelayKeeper.Proofs.InstallPlan
import RelayKeeper.Proofs.InstalledPackages
import RelayKeeper.Proofs.IpText
import RelayKeeper.Proofs.Isolation
import RelayKeeper.Proofs.JsonRoundTrip
import RelayKeeper.Proofs.KeyLines
import RelayKeeper.Proofs.KeyReadiness
import RelayKeeper.Proofs.KeyReading
import RelayKeeper.Proofs.LedgerRefinement
import RelayKeeper.Proofs.MachinePairs
import RelayKeeper.Proofs.MindfulHosts
import RelayKeeper.Proofs.PastedAddress
import RelayKeeper.Proofs.PathSteps
import RelayKeeper.Proofs.ProxyTexts
import RelayKeeper.Proofs.Publishing
import RelayKeeper.Proofs.ReconcilePasses
import RelayKeeper.Proofs.RecordBags
import RelayKeeper.Proofs.RecordFiles
import RelayKeeper.Proofs.RecordPlace
import RelayKeeper.Proofs.RecordWrites
import RelayKeeper.Proofs.Registration
import RelayKeeper.Proofs.Reinstall
import RelayKeeper.Proofs.RelayPlans
import RelayKeeper.Proofs.RootedRecord
import RelayKeeper.Proofs.RuntimeProxies
import RelayKeeper.Proofs.SettingsText
import RelayKeeper.Proofs.StandardBase64
import RelayKeeper.Proofs.StartingDaemon
import RelayKeeper.Proofs.StatusQueries
import RelayKeeper.Proofs.TellingHooks
import RelayKeeper.Proofs.TomlEntries
import RelayKeeper.Proofs.TomlReading
import RelayKeeper.Proofs.TomlStrings
import RelayKeeper.Proofs.TomlWriting
import RelayKeeper.Proofs.TreeAdditions
import RelayKeeper.Proofs.TreeBeside
import RelayKeeper.Proofs.TreeContents
import RelayKeeper.Proofs.TreeGrowth
import RelayKeeper.Proofs.TreePairs
import RelayKeeper.Proofs.TreeReach
import RelayKeeper.Proofs.TreeWalk
import RelayKeeper.Proofs.TrimmedText
import RelayKeeper.Proofs.UnitAddress
import RelayKeeper.Proofs.UnitFile
import RelayKeeper.Proofs.UrlParts
import RelayKeeper.Proofs.WrittenRoundTrip
import RelayKeeper.Record.Profile
import RelayKeeper.Rehearsal.Checks
import RelayKeeper.Rehearsal.Memory
import RelayKeeper.Rehearsal.Stage
