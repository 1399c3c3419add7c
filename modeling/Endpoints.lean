import Endpoints.Main
import Endpoints.Proofs.Metadata
import Endpoints.Proofs.Repeat
import Endpoints.Proofs.Confluence
import Endpoints.Proofs.Unrelated
import Endpoints.Proofs.Security
import Endpoints.Proofs.Faithful
import Endpoints.Proofs.Canonical
import Endpoints.Proofs.Verb
import Endpoints.Proofs.Response
import Endpoints.Proofs.QueryAlias
import Endpoints.Proofs.PathParameter
import Endpoints.Proofs.Grouping
import Endpoints.Proofs.Inheritance
import Endpoints.Proofs.Constraint
import Endpoints.Proofs.ScopeChain
import Endpoints.Proofs.RecordKeys
import Endpoints.Proofs.NameLookup
import Endpoints.Proofs.DialectOrder
import Endpoints.Proofs.LiteralText
import Endpoints.Proofs.StringEscape
import Endpoints.Proofs.CommentText
import Endpoints.Proofs.Discovery
import Endpoints.Proofs.Division
import Endpoints.Proofs.Following
import Endpoints.Proofs.Matching
import Endpoints.Proofs.ContextLog
