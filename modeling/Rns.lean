import Rns.Git.Days
import Rns.Git.Isolation
import Rns.Git.Push
import Rns.Git.Recreation
import Rns.Git.SignedCommits
import Rns.Git.WorkGrants
import Rns.Git.WorkSignatures
import Rns.Hdlc
import Rns.HolePunch.Agreement
import Rns.HolePunch.Ownership
import Rns.Ifac
import Rns.Link.Idle
import Rns.LinkManager.Acknowledgement
import Rns.LinkManager.Interference
import Rns.LinkManager.Tracking
import Rns.RNode
import Rns.Resource.Requests
import Rns.Resource.Window
import Rns.Shell.Listener
import Rns.Transport.AnnounceCap
import Rns.Transport.CapacityRuns
import Rns.Transport.Dedup
import Rns.Transport.DirectPath
import Rns.Transport.Failover
import Rns.Transport.Forged
import Rns.Transport.HopLimit
import Rns.Transport.Rebroadcasts
import Rns.Transport.VerifyRoom
