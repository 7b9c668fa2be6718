import EntityQuery.Prime
import EntityQuery.Hash.Framing
import EntityQuery.EntityId.Exchange
import EntityQuery.Json.Reader
import EntityQuery.Session.Run
import EntityQuery.Proofs.Cache.Calls
import EntityQuery.Proofs.Cache.Capacity
import EntityQuery.Proofs.Cache.Notification
import EntityQuery.Proofs.Cache.Protocol
import EntityQuery.Proofs.Cache.Publication
import EntityQuery.Proofs.Cache.Recall
import EntityQuery.Proofs.Cache.Reclamation
import EntityQuery.Proofs.Cache.Residency
import EntityQuery.Proofs.Cache.Views
import EntityQuery.Proofs.Engine.Closing
import EntityQuery.Proofs.Engine.Interchange
import EntityQuery.Proofs.Engine.Linking
import EntityQuery.Proofs.Engine.Reading
import EntityQuery.Proofs.Engine.Rebuilding
import EntityQuery.Proofs.Engine.Releasing
import EntityQuery.Proofs.Hash.Framing
import EntityQuery.Proofs.Index.Ordering
import EntityQuery.Proofs.Index.Probing
import EntityQuery.Proofs.Metrics.Accounting
import EntityQuery.Proofs.Query.Canonical
import EntityQuery.Proofs.Query.Describing
import EntityQuery.Proofs.Query.Reordering
import EntityQuery.Proofs.Reader.Acceptance
import EntityQuery.Proofs.Reader.Damage
import EntityQuery.Proofs.Reader.Joining
import EntityQuery.Proofs.Reader.Polling
import EntityQuery.Proofs.Reader.Reversal.Entities
import EntityQuery.Proofs.Reader.Reversal.Sources
