import LayeredSets.Main
import LayeredSets.Proofs.Layer.Tracked
import LayeredSets.Proofs.Packed.Balance
import LayeredSets.Proofs.Script.Balance
import LayeredSets.Proofs.Script.Exact
import LayeredSets.Proofs.Script.Faithful
import LayeredSets.Proofs.Script.Reprint
import LayeredSets.Proofs.Session
import LayeredSets.Proofs.Version
import LayeredSets.Proofs.Smt.Agrees
import LayeredSets.Proofs.Trace.Recorded
import LayeredSets.Proofs.Trace.Rename
import LayeredSets.Proofs.Explicit.Unused
import LayeredSets.Proofs.Guarded.Runs
import LayeredSets.Proofs.Packed.Filling
import LayeredSets.Proofs.Chain.Native
import LayeredSets.Proofs.Script.Offending
import LayeredSets.Proofs.Trace.Exact
import LayeredSets.Proofs.Trace.Joined
import LayeredSets.Proofs.Input
import LayeredSets.Proofs.Invocation.Appended
import LayeredSets.Proofs.Invocation.Rendered
import LayeredSets.Proofs.Assembly.Finish
import LayeredSets.Proofs.Smt.Names
import LayeredSets.Proofs.Observer.Failure
import LayeredSets.Proofs.Observer.Log
import LayeredSets.Proofs.Token.Breaks
import LayeredSets.Proofs.Walk.Linear
