import Libbgp.Proof.Channel
import Libbgp.Proof.HashmapCalls
import Libbgp.Proof.HeldRoutes
import Libbgp.Proof.Interruption
import Libbgp.Proof.LocalPref
import Libbgp.Proof.LoopCheck
import Libbgp.Proof.Ownership
import Libbgp.Proof.PrefixOrder
import Libbgp.Proof.RadixMap
import Libbgp.Proof.SessionEvents
import Libbgp.Proof.StateChanges
import Libbgp.Proof.StoredEdit
import Libbgp.Proof.Timers
import Libbgp.Proof.Uninterrupted
import Libbgp.Proof.UpdateCall
