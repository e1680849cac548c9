import Taboo.Soundness.AcceptedQueries
import Taboo.Soundness.AnswerOrder
import Taboo.Soundness.ArrayKeeperRuns
import Taboo.Soundness.AttachedPrefixes
import Taboo.Soundness.Conditions
import Taboo.Soundness.ErrorReplies
import Taboo.Soundness.FarmRuns
import Taboo.Soundness.Grants
import Taboo.Soundness.IssuedTokens
import Taboo.Soundness.KeeperRuns
import Taboo.Soundness.KeyLists
import Taboo.Soundness.PortalRuns
import Taboo.Soundness.PostParams
import Taboo.Soundness.RefusedAttach
import Taboo.Soundness.ReplyBounds
import Taboo.Soundness.RequestLifeCycle
import Taboo.Soundness.Reuse
import Taboo.Soundness.Signature
import Taboo.Soundness.SizeOptions
import Taboo.Soundness.TokenFilters
import Taboo.Soundness.TokenRequests
import Taboo.Soundness.UpsertRuns
import Taboo.Soundness.Visibility
