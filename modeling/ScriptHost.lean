import ScriptHost.Detached
import ScriptHost.Main
import ScriptHost.Session
import ScriptHost.Variant.Nesting
import ScriptHost.Proofs.Box.Fields
import ScriptHost.Proofs.Box.Operators
import ScriptHost.Proofs.Box.Overrides
import ScriptHost.Proofs.Box.Secrecy
import ScriptHost.Proofs.Box.Simulation
import ScriptHost.Proofs.Codec.Shape
import ScriptHost.Proofs.Codec.Stability
import ScriptHost.Proofs.Session.Errors
import ScriptHost.Proofs.Session.Fetching
import ScriptHost.Proofs.Session.Refusals
import ScriptHost.Proofs.Party.Interleaving
import ScriptHost.Proofs.Variant.Reflexivity
import ScriptHost.Proofs.Box.Callables
import ScriptHost.Proofs.Codec.Marked
import ScriptHost.Proofs.Codec.Keys
import ScriptHost.Proofs.Codec.Merging
import ScriptHost.Proofs.Session.Edits
import ScriptHost.Proofs.Variant.Writes
import ScriptHost.Proofs.Variant.Methods
import ScriptHost.Proofs.Box.Signals
import ScriptHost.Proofs.CommandLine.Clusters
import ScriptHost.Proofs.Settings.Spelling
import ScriptHost.Proofs.Hook.Lists
import ScriptHost.Proofs.Runner.Outcome
import ScriptHost.Proofs.Session.Ledger
