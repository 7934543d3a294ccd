import Binisaya.Command
import Binisaya.Main
import Binisaya.Proofs.Command.Stored
import Binisaya.Proofs.ControlFlow.Scoped
import Binisaya.Proofs.Scoping.Forest
import Binisaya.Proofs.Source.Layout
import Binisaya.Proofs.Source.Literals
import Binisaya.Proofs.Source.Rejection
import Binisaya.Proofs.SourceRuns
import Binisaya.Proofs.Stepwise.Reading
import Binisaya.Scope.Forest
import Binisaya.Session
import Binisaya.Proofs.Scoping.Names
import Binisaya.Proofs.Stepwise.LaterInput
import Binisaya.Launch
import Binisaya.Proofs.Launch
import Binisaya.Proofs.Types.Consecutive
import Binisaya.Proofs.Types.Declared
import Binisaya.Proofs.Types.Sharing
import Binisaya.Proofs.Input.Numbers
import Binisaya.Proofs.Printing
import Binisaya.Proofs.StoredSchema
import Binisaya.Proofs.Input.NumberSyntax
import Binisaya.Proofs.Input.Fields
import Binisaya.Proofs.Source.NormalForm
import Binisaya.Proofs.Stepwise.DebugLog
