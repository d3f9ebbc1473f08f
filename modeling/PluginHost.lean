import PluginHost.Main
import PluginHost.Rehearsal
import PluginHost.Store.Supplied
import PluginHost.Proofs.Compiling.Contract
import PluginHost.Proofs.Compiling.Fingerprints
import PluginHost.Proofs.Compiling.Origins
import PluginHost.Proofs.Compiling.Renaming
import PluginHost.Proofs.Compiling.Repeats
import PluginHost.Proofs.Compiling.Shuffles
import PluginHost.Proofs.Fetching.Backing
import PluginHost.Proofs.Fetching.Gate
import PluginHost.Proofs.Fetching.Generations
import PluginHost.Proofs.Resolving.Fallback
import PluginHost.Proofs.Cdn.Replicas
import PluginHost.Proofs.Store.Supplied
import PluginHost.Proofs.Fetching.Overwriting
import PluginHost.Proofs.Host.Listings
import PluginHost.Proofs.Installing.Sharing
import PluginHost.Proofs.Compiling.States
import PluginHost.Proofs.Cdn.Garbled
import PluginHost.Proofs.Module.History
import PluginHost.Proofs.Installing.Hits
import PluginHost.Proofs.Installing.Failures
import PluginHost.Proofs.Cdn.Addresses
import PluginHost.Proofs.Cdn.Entries
import PluginHost.Proofs.Module.Memory
import PluginHost.Proofs.Fetching.Calls
import PluginHost.Proofs.Fetching.Metadata
import PluginHost.Proofs.Module.Executions
import PluginHost.Proofs.Compiling.Dependencies
import PluginHost.Proofs.Compiling.Fields
import PluginHost.Proofs.Installing.Bundled
import PluginHost.Proofs.Module.Reports
import PluginHost.Proofs.Compiling.Excerpts
import PluginHost.Proofs.Path.Parents
import PluginHost.Proofs.Installing.Fallbacks
import PluginHost.Proofs.Module.Confinement
